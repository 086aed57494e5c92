import Matelib.HttpContext

/-!
# Well-formed requests on the wire

A `WireRequest` is a request line with a list of header lines, each free of the bytes that would
end it early. Its serialisation followed by any bytes parses to its request and leaves exactly
those bytes.
-/

namespace Matelib

open Search

/-- The text may stand in a line. -/
def InLine (text : Bytes) : Prop := 13 ∉ text ∧ 10 ∉ text

instance (text : Bytes) : Decidable (InLine text) := inferInstanceAs (Decidable (_ ∧ _))

structure WireHeader where
  name : Bytes
  value : Bytes
  name_inLine : InLine name
  name_noColon : colon ∉ name
  value_inLine : InLine value

structure WireRequest where
  method : HttpMethod
  path : Bytes
  version : HttpVersion
  headers : List WireHeader
  method_known : method ≠ .kInvalid
  version_known : version ≠ .kUnknown
  path_inLine : InLine path
  path_noSpace : space ∉ path

def HttpMethod.text : HttpMethod → Bytes
  | .kInvalid => ascii "UNKNOWN"
  | .kGet => ascii "GET"
  | .kPost => ascii "POST"
  | .kHead => ascii "HEAD"
  | .kPut => ascii "PUT"
  | .kDelete => ascii "DELETE"

def HttpVersion.text : HttpVersion → Bytes
  | .kUnknown => ascii "UNKNOWN"
  | .kHttp10 => ascii "HTTP/1.0"
  | .kHttp11 => ascii "HTTP/1.1"

namespace WireHeader

def line (h : WireHeader) : Bytes := h.name ++ colon :: h.value

def wire (h : WireHeader) : Bytes := h.line ++ Buffer.kCRLF

theorem line_inLine (h : WireHeader) : 13 ∉ h.line := by
  rw [line, List.mem_append, List.mem_cons, not_or, not_or]
  exact ⟨h.name_inLine.1, by decide, h.value_inLine.1⟩

end WireHeader

namespace WireRequest

def line (r : WireRequest) : Bytes :=
  r.method.text ++ space :: (r.path ++ space :: r.version.text)

/-- The serialised request: the request line, the header lines and an empty line. -/
def wire (r : WireRequest) : Bytes :=
  r.line ++ Buffer.kCRLF ++ ((r.headers.flatMap WireHeader.wire) ++ Buffer.kCRLF)

/-- The request that the server is meant to see; a repeated header keeps its last value. -/
def request (r : WireRequest) : HttpRequest :=
  r.headers.foldl (fun q h => q.addHeader h.name h.value)
    { HttpRequest.init with method := r.method, path := r.path, version := r.version }

theorem line_inLine (r : WireRequest) : 13 ∉ r.line := by
  have hm : 13 ∉ r.method.text := by cases r.method <;> decide
  have hv : 13 ∉ r.version.text := by cases r.version <;> decide
  have hs : (13 : UInt8) ≠ space := by decide
  simp only [line, List.mem_append, List.mem_cons, not_or]
  exact ⟨hm, hs, r.path_inLine.1, hs, hv⟩

theorem wire_ne_nil (r : WireRequest) : r.wire ≠ [] := by
  simp [wire, line]

theorem setMethod_text (q : HttpRequest) {m : HttpMethod} (hm : m ≠ .kInvalid) :
    q.setMethod m.text = (true, { q with method := m }) := by
  have hparse : HttpRequest.parseMethod m.text = m := by
    cases m <;> first | exact absurd rfl hm | decide
  rw [HttpRequest.setMethod, hparse, decide_eq_true hm]

theorem processRequestLine_text (q : HttpRequest) {method : HttpMethod} {path : Bytes}
    {version : HttpVersion} (hmethod : method ≠ .kInvalid) (hpath : space ∉ path)
    (hversion : version ≠ .kUnknown) :
    q.processRequestLine (method.text ++ space :: (path ++ space :: version.text)) =
      (true, { q with method := method, path := path, version := version }) := by
  have hm : space ∉ method.text := by cases method <;> decide
  rw [HttpRequest.processRequestLine, cut_append hm]
  simp only [setMethod_text q hmethod, if_true, cut_append hpath]
  cases version with
  | kUnknown => exact absurd rfl hversion
  | kHttp10 => rfl
  | kHttp11 => rfl

theorem processRequestLine_line (r : WireRequest) (q : HttpRequest) :
    q.processRequestLine r.line =
      (true, { q with method := r.method, path := r.path, version := r.version }) :=
  processRequestLine_text q r.method_known r.path_noSpace r.version_known

theorem scanStep_requestLine (r : WireRequest) (q : HttpRequest) (rest : Bytes) :
    HttpContext.scanner.step ⟨.kExpectRequestLine, q⟩ (r.line ++ (Buffer.kCRLF ++ rest)) =
      .advance
        ⟨.kExpectHeaders, { q with method := r.method, path := r.path, version := r.version }⟩
        (r.line.length + 2) := by
  have hfound : search Buffer.kCRLF (r.line ++ (Buffer.kCRLF ++ rest)) = some r.line.length :=
    search_of_not_mem r.line_inLine rest
  simp only [HttpContext.scanner_step, HttpContext.scanStep, hfound, List.take_left,
    HttpContext.processRequestLine, processRequestLine_line, if_true,
    HttpContext.receiveRequestLine]

theorem scanStep_header (h : WireHeader) (q : HttpRequest) (rest : Bytes) :
    HttpContext.scanner.step ⟨.kExpectHeaders, q⟩ (h.line ++ (Buffer.kCRLF ++ rest)) =
      .advance ⟨.kExpectHeaders, q.addHeader h.name h.value⟩ (h.line.length + 2) := by
  have hfound : search Buffer.kCRLF (h.line ++ (Buffer.kCRLF ++ rest)) = some h.line.length :=
    search_of_not_mem h.line_inLine rest
  have hcut : cut colon h.line = some (h.name, h.value) := cut_append h.name_noColon h.value
  simp only [HttpContext.scanner_step, HttpContext.scanStep, hfound, List.take_left,
    HttpContext.processHeader, hcut]

theorem scanStep_emptyLine (q : HttpRequest) (rest : Bytes) :
    HttpContext.scanner.step ⟨.kExpectHeaders, q⟩ (Buffer.kCRLF ++ rest) =
      .advance ⟨.kExpectBody, q⟩ 2 := by
  have hfound : search Buffer.kCRLF (Buffer.kCRLF ++ rest) = some 0 :=
    search_of_not_mem (List.not_mem_nil : (13 : UInt8) ∉ []) rest
  simp only [HttpContext.scanner_step, HttpContext.scanStep, hfound]
  rfl

/-- The header section is read line by line up to the empty line, which ends the request. -/
theorem scan_headers (hs : List WireHeader) (q : HttpRequest) (rest : Bytes) :
    HttpContext.scanner.scan (hs.length + 2) ⟨.kExpectHeaders, q⟩
      (hs.flatMap WireHeader.wire ++ (Buffer.kCRLF ++ rest)) =
    some (.halted true
      ⟨.kGotAll, hs.foldl (fun q h => q.addHeader h.name h.value) q⟩ rest) := by
  induction hs generalizing q with
  | nil =>
    rw [List.flatMap_nil, List.nil_append,
      HttpContext.scanner.scan_advance (scanStep_emptyLine q rest)]
    rfl
  | cons h hs ih =>
    have hdrop : ∀ t : Bytes, (h.line ++ (Buffer.kCRLF ++ t)).drop (h.line.length + 2) = t :=
      fun t => List.drop_length_add_append 2
    rw [List.flatMap_cons, WireHeader.wire, List.append_assoc, List.append_assoc, List.length_cons,
      Nat.add_right_comm, HttpContext.scanner.scan_advance (scanStep_header h q _), hdrop, ih]
    rfl

theorem parsed_wire (r : WireRequest) (rest : Bytes) :
    HttpContext.init.parsed (r.wire ++ rest) = some ⟨true, ⟨.kGotAll, r.request⟩, rest⟩ := by
  have hdrop : ∀ t : Bytes, (r.line ++ (Buffer.kCRLF ++ t)).drop (r.line.length + 2) = t :=
    fun t => List.drop_length_add_append 2
  have hscan : HttpContext.scanner.scan (r.headers.length + 3) HttpContext.init (r.wire ++ rest) =
      some (.halted true ⟨.kGotAll, r.request⟩ rest) := by
    rw [HttpContext.init, wire, List.append_assoc, List.append_assoc, List.append_assoc,
      HttpContext.scanner.scan_advance (scanStep_requestLine r HttpRequest.init _), hdrop,
      scan_headers]
    rfl
  exact HttpContext.parsed_of_scan (by decide) hscan

end WireRequest

/-- The line is a method, a path and a version, with one space behind the method and one behind the
path. -/
structure RequestLine (method : HttpMethod) (path : Bytes) (version : HttpVersion)
    (line : Bytes) : Prop where
  method_known : method ≠ .kInvalid
  path_noSpace : space ∉ path
  version_known : version ≠ .kUnknown
  line_eq : line = method.text ++ space :: (path ++ space :: version.text)

theorem text_parseMethod {method : Bytes} (h : HttpRequest.parseMethod method ≠ .kInvalid) :
    (HttpRequest.parseMethod method).text = method := by
  unfold HttpRequest.parseMethod at h ⊢
  split_ifs at h ⊢ with hget hpost hhead hput hdelete
  · exact hget.symm
  · exact hpost.symm
  · exact hhead.symm
  · exact hput.symm
  · exact hdelete.symm
  · exact absurd rfl h

theorem text_version {version : Bytes} (h : version.length = 8 ∧ version.take 7 = ascii "HTTP/1.")
    {c : UInt8} (hlast : version.getLast? = some c) : version = ascii "HTTP/1." ++ [c] := by
  have hdrop : (version.drop 7).length = 1 := by rw [List.length_drop, h.1]
  obtain ⟨x, hx⟩ := List.length_eq_one_iff.mp hdrop
  have hsplit := (List.take_append_drop 7 version).symm
  rw [h.2, hx] at hsplit
  rw [hsplit, List.getLast?_concat, Option.some.injEq] at hlast
  rw [hsplit, hlast]

theorem RequestLine.processRequestLine {method : HttpMethod} {path : Bytes} {version : HttpVersion}
    {line : Bytes} (h : RequestLine method path version line) (q : HttpRequest) :
    q.processRequestLine line =
      (true, { q with method := method, path := path, version := version }) := by
  rw [h.line_eq]
  exact WireRequest.processRequestLine_text q h.method_known h.path_noSpace h.version_known

theorem requestLine_of_processRequestLine {q : HttpRequest} {line : Bytes}
    (h : (q.processRequestLine line).1 = true) :
    ∃ method path version, RequestLine method path version line := by
  unfold HttpRequest.processRequestLine at h
  cases hcut : cut space line with
  | none => simp only [hcut, Bool.false_eq_true] at h
  | some first =>
    obtain ⟨method, rest⟩ := first
    simp only [hcut, HttpRequest.setMethod, decide_eq_true_eq] at h
    split_ifs at h with hknown
    cases hcut' : cut space rest with
    | none => simp only [hcut', Bool.false_eq_true] at h
    | some second =>
      obtain ⟨path, version⟩ := second
      simp only [hcut'] at h
      split_ifs at h with hversion h11 h10
      · refine ⟨_, path, .kHttp11, hknown, (cut_eq_some.mp hcut').1, by decide, ?_⟩
        rw [text_parseMethod hknown, (cut_eq_some.mp hcut).2, (cut_eq_some.mp hcut').2,
          text_version hversion h11]
        rfl
      · refine ⟨_, path, .kHttp10, hknown, (cut_eq_some.mp hcut').1, by decide, ?_⟩
        rw [text_parseMethod hknown, (cut_eq_some.mp hcut).2, (cut_eq_some.mp hcut').2,
          text_version hversion h10]
        rfl

/-- A line is accepted exactly when it is a request line, and then its one decomposition is
stored. -/
theorem processRequestLine_iff (ctx : HttpContext) (line : Bytes) :
    ((ctx.processRequestLine line).1 = true ↔
      ∃ method path version, RequestLine method path version line) ∧
    ∀ method path version, RequestLine method path version line →
      (ctx.processRequestLine line).2.request.method = method ∧
      (ctx.processRequestLine line).2.request.path = path ∧
      (ctx.processRequestLine line).2.request.version = version ∧
      ∀ method' path' version', RequestLine method' path' version' line →
        method' = method ∧ path' = path ∧ version' = version := by
  refine ⟨⟨requestLine_of_processRequestLine, ?_⟩, ?_⟩
  · rintro ⟨method, path, version, h⟩
    rw [HttpContext.processRequestLine, h.processRequestLine]
  · intro method path version h
    rw [HttpContext.processRequestLine, h.processRequestLine]
    refine ⟨rfl, rfl, rfl, ?_⟩
    intro method' path' version' h'
    have heq := (h'.processRequestLine ctx.request).symm.trans (h.processRequestLine ctx.request)
    simp only [Prod.mk.injEq, true_and, HttpRequest.mk.injEq, and_true] at heq
    exact heq

def Blank (text : Bytes) : Prop := ∀ c ∈ text, isspace c = true

instance (text : Bytes) : Decidable (Blank text) :=
  List.decidableBAll (fun c => isspace c = true) text

/-- `text` is `value` without the white space at its ends. -/
structure Stripped (value text : Bytes) : Prop where
  surrounded : ∃ left right, Blank left ∧ Blank right ∧ value = left ++ text ++ right
  head : ∀ c ∈ text.head?, isspace c = false
  last : ∀ c ∈ text.getLast?, isspace c = false

theorem stripped_trim (value : Bytes) : Stripped value (HttpRequest.trim value) where
  surrounded := by
    refine ⟨value.takeWhile isspace, (value.dropWhile isspace).rtakeWhile isspace, ?_, ?_, ?_⟩
    · exact fun c hc => List.mem_takeWhile_imp hc
    · exact fun c hc => List.mem_rtakeWhile_imp hc
    · rw [HttpRequest.trim, List.append_assoc, List.rdropWhile_append_rtakeWhile,
        List.takeWhile_append_dropWhile]
  head := by
    intro c hc
    obtain ⟨t, ht⟩ : HttpRequest.trim value <+: value.dropWhile isspace :=
      List.rdropWhile_prefix _ _
    have hhead : (value.dropWhile isspace).head? = some c := by
      rw [← ht, List.head?_append, Option.mem_def.mp hc, Option.some_or]
    have hnot := List.head?_dropWhile_not isspace value
    rw [hhead] at hnot
    exact hnot
  last := by
    intro c hc
    have hne : HttpRequest.trim value ≠ [] := by
      intro hnil
      rw [hnil] at hc
      cases hc
    have hnot := List.rdropWhile_last_not isspace (value.dropWhile isspace) hne
    rw [Option.mem_def, List.getLast?_eq_some_getLast hne, Option.some.injEq] at hc
    rw [← hc]
    exact Bool.eq_false_of_not_eq_true hnot

theorem rdropWhile_append_blank {text right : Bytes} (hright : Blank right) :
    (text ++ right).rdropWhile isspace = text.rdropWhile isspace := by
  rw [List.rdropWhile, List.reverse_append, List.dropWhile_append_of_pos, List.rdropWhile]
  exact fun c hc => hright c (List.mem_reverse.mp hc)

theorem trim_surrounded {left right : Bytes} (hleft : Blank left) (hright : Blank right)
    (value : Bytes) : HttpRequest.trim (left ++ value ++ right) = HttpRequest.trim value := by
  rw [HttpRequest.trim, List.append_assoc, List.dropWhile_append_of_pos hleft,
    List.dropWhile_append]
  split_ifs with hempty
  · -- a value of white space only: all is blank
    have hnil : value.dropWhile isspace = [] := List.isEmpty_iff.mp hempty
    have hblank : right.dropWhile isspace = [] := List.dropWhile_eq_nil_iff.mpr hright
    rw [HttpRequest.trim, hnil, hblank]
  · rw [rdropWhile_append_blank hright, HttpRequest.trim]

/-- A header with the white space that is written around its value. -/
structure SpacedHeader extends WireHeader where
  left : Bytes
  right : Bytes
  left_blank : Blank left
  right_blank : Blank right
  left_inLine : InLine left
  right_inLine : InLine right

namespace SpacedHeader

def wire (h : SpacedHeader) : Bytes :=
  h.name ++ [colon] ++ h.left ++ h.value ++ h.right ++ Buffer.kCRLF

/-- The header as the parser cuts it, with the white space as part of the value. -/
def spaced (h : SpacedHeader) : WireHeader where
  name := h.name
  value := h.left ++ h.value ++ h.right
  name_inLine := h.name_inLine
  name_noColon := h.name_noColon
  value_inLine := by
    obtain ⟨hl, hl'⟩ := h.left_inLine
    obtain ⟨hv, hv'⟩ := h.value_inLine
    obtain ⟨hr, hr'⟩ := h.right_inLine
    simp only [InLine, List.mem_append, not_or]
    exact ⟨⟨⟨hl, hv⟩, hr⟩, ⟨hl', hv'⟩, hr'⟩

theorem wire_spaced (h : SpacedHeader) : h.spaced.wire = h.wire := by
  simp [WireHeader.wire, WireHeader.line, spaced, wire]

def lastValue (headers : List SpacedHeader) (name : Bytes) : Option Bytes :=
  (headers.reverse.find? fun h => h.name = name).map fun h => h.value

theorem lastValue_concat (headers : List SpacedHeader) (h : SpacedHeader) (name : Bytes) :
    lastValue (headers ++ [h]) name =
      if h.name = name then some h.value else lastValue headers name := by
  rw [lastValue, List.reverse_append, List.reverse_singleton, List.singleton_append,
    List.find?_cons]
  by_cases hname : h.name = name
  · rw [if_pos hname, decide_eq_true hname, Option.map_some]
  · rw [if_neg hname, decide_eq_false hname, lastValue]

/-- The map holds, for each name, its last value stripped, and it holds no other names. -/
theorem find_addHeaders (headers : List SpacedHeader) (q : HttpRequest)
    (hq : q.headers = OrderedMap.empty) (name : Bytes) :
    Option.Rel Stripped (lastValue headers name)
      (((headers.map spaced).foldl (fun q h => q.addHeader h.name h.value) q).headers.find
        name) := by
  induction headers using List.reverseRecOn with
  | nil =>
    rw [List.map_nil, List.foldl_nil, hq, OrderedMap.find_empty]
    exact Option.Rel.none
  | append_singleton headers h ih =>
    rw [List.map_append, List.foldl_append, List.map_singleton, List.foldl_cons, List.foldl_nil,
      lastValue_concat, HttpRequest.addHeader, OrderedMap.find_insert]
    have hname : h.spaced.name = h.name := rfl
    rw [hname]
    split_ifs with heq
    · have hvalue : HttpRequest.trim h.spaced.value = HttpRequest.trim h.value :=
        trim_surrounded h.left_blank h.right_blank h.value
      rw [hvalue]
      exact Option.Rel.some (stripped_trim h.value)
    · exact ih

end SpacedHeader

theorem addHeaders_frame (headers : List WireHeader) (q : HttpRequest) :
    (headers.foldl (fun q h => q.addHeader h.name h.value) q).method = q.method ∧
      (headers.foldl (fun q h => q.addHeader h.name h.value) q).path = q.path ∧
      (headers.foldl (fun q h => q.addHeader h.name h.value) q).version = q.version := by
  induction headers generalizing q with
  | nil => exact ⟨rfl, rfl, rfl⟩
  | cons h headers ih => exact ih (q.addHeader h.name h.value)

/-- A request as it may be written: each header is its name, a colon, and its value between white
space. -/
def serialised (method : HttpMethod) (path : Bytes) (version : HttpVersion)
    (headers : List SpacedHeader) : Bytes :=
  method.text ++ [space] ++ path ++ [space] ++ version.text ++ Buffer.kCRLF ++
    headers.flatMap SpacedHeader.wire ++ Buffer.kCRLF

/-- Parsing undoes serialisation: the method, the path and the version are those that were written,
the headers have their last values without white space at the ends, and the bytes behind the
request are left in the buffer. -/
theorem parse_serialised (method : HttpMethod) (path : Bytes) (version : HttpVersion)
    (headers : List SpacedHeader) (rest : Bytes) (hmethod : method ≠ .kInvalid)
    (hline : InLine path) (hspace : space ∉ path) (hversion : version ≠ .kUnknown)
    (buf : ValidBuffer) (hbuf : buf.readable = serialised method path version headers ++ rest) :
    ∃ p, HttpContext.init.parseRequest buf = some p ∧ p.ok = true ∧ p.ctx.state = .kGotAll ∧
      p.ctx.request.method = method ∧ p.ctx.request.path = path ∧
      p.ctx.request.version = version ∧
      (∀ name, Option.Rel Stripped (SpacedHeader.lastValue headers name)
        (p.ctx.request.headers.find name)) ∧
      p.rest.readable = rest := by
  let r : WireRequest :=
    { method, path, version, headers := headers.map SpacedHeader.spaced, method_known := hmethod,
      version_known := hversion, path_inLine := hline, path_noSpace := hspace }
  have hheaders : (headers.map SpacedHeader.spaced).flatMap WireHeader.wire =
      headers.flatMap SpacedHeader.wire := by
    rw [List.flatMap_map]
    exact List.flatMap_congr fun h _ => h.wire_spaced
  have hwire : r.wire = serialised method path version headers := by
    simp only [WireRequest.wire, WireRequest.line, r, hheaders, serialised, List.append_assoc,
      List.cons_append, List.nil_append]
  obtain ⟨p, hp, hview⟩ := HttpContext.parseRequest_spec
    (by decide : HttpContext.init.state ≠ .kGotAll) buf
  rw [hbuf, ← hwire, r.parsed_wire, Option.some.injEq] at hview
  have hok : p.ok = true := congrArg Parsed.ok hview.symm
  have hctx : p.ctx = ⟨.kGotAll, r.request⟩ := congrArg Parsed.ctx hview.symm
  have hrest : p.rest.readable = rest := congrArg Parsed.rest hview.symm
  obtain ⟨hm, hpath, hv⟩ := addHeaders_frame r.headers
    { HttpRequest.init with method, path, version }
  refine ⟨p, hp, hok, by rw [hctx], by rw [hctx]; exact hm, by rw [hctx]; exact hpath,
    by rw [hctx]; exact hv, ?_, hrest⟩
  intro name
  rw [hctx]
  exact SpacedHeader.find_addHeaders headers { HttpRequest.init with method, path, version } rfl
    name

def spacedAccept : SpacedHeader where
  name := ascii "Accept"
  value := ascii "text/html"
  left := ascii " "
  right := ascii "\t"
  name_inLine := by decide
  name_noColon := by decide
  value_inLine := by decide
  left_blank := by decide
  right_blank := by decide
  left_inLine := by decide
  right_inLine := by decide

theorem parse_serialised_spacedAccept :
    ∃ p, HttpContext.init.parseRequest
        (ValidBuffer.empty.append
          (ascii "GET /a HTTP/1.1\r\nAccept: text/html\t\r\n\r\nrest")) = some p ∧
      p.ok = true ∧ p.ctx.state = .kGotAll ∧ p.ctx.request.method = .kGet ∧
      p.ctx.request.path = ascii "/a" ∧ p.ctx.request.version = .kHttp11 ∧
      (∀ name, Option.Rel Stripped (SpacedHeader.lastValue [spacedAccept] name)
        (p.ctx.request.headers.find name)) ∧
      p.rest.readable = ascii "rest" :=
  parse_serialised .kGet (ascii "/a") .kHttp11 [spacedAccept] (ascii "rest") (by decide) (by decide)
    (by decide) (by decide) _ (by rw [ValidBuffer.readable_append]; decide +kernel)

end Matelib
