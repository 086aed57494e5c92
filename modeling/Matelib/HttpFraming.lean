import Matelib.Decimal
import Matelib.HttpResponse
import Matelib.HttpWire
import Matelib.Lines

/-!
# Responses on a keep-alive connection

A client splits the stream of a connection by the framing rule: a head up to the first empty line,
then as many bytes of body as its `Content-Length` says. The main result is that the responses are
read back as they were, whatever their bodies look like.
-/

namespace Matelib

open Search

def lowerByte (b : UInt8) : UInt8 := if 65 ≤ b ∧ b ≤ 90 then b + 32 else b

def lower (text : Bytes) : Bytes := text.map lowerByte

/-- A response as the client sees it. -/
structure FramedResponse where
  headers : OrderedMap Bytes Bytes
  body : Bytes
  deriving DecidableEq

/-- The name in front of the first colon, and the value behind it without the blank that separates
them. -/
def headerField (line : Bytes) : Option (Bytes × Bytes) :=
  (cut colon line).map fun p => (p.1, if p.2.head? = some space then p.2.tail else p.2)

def headerMap (fields : List (Bytes × Bytes)) : OrderedMap Bytes Bytes :=
  fields.foldl (fun m f => m.insert f.1 f.2) OrderedMap.empty

def framesBody (f : Bytes × Bytes) : Bool :=
  lower f.1 = ascii "content-length" || lower f.1 = ascii "transfer-encoding"

/-- The length of the body: there has to be one `Content-Length` and no `Transfer-Encoding`. -/
def bodyLength (fields : List (Bytes × Bytes)) : Option ℕ :=
  match fields.filter framesBody with
  | [f] => if lower f.1 = ascii "content-length" then parseDecimal f.2 else none
  | _ => none

/-- The first response of a stream, behind its status line, and the rest of the stream. -/
def frame (a : Bytes) : Option (FramedResponse × Bytes) :=
  (firstSection Buffer.kCRLF a).bind fun head =>
    (head.1.tail.mapM headerField).bind fun fields =>
      (bodyLength fields).bind fun n =>
        if n ≤ head.2.length then some (⟨headerMap fields, head.2.take n⟩, head.2.drop n) else none

def framesUpTo : ℕ → Bytes → Option (List FramedResponse)
  | _, [] => some []
  | 0, _ :: _ => none
  | n + 1, b :: a => (frame (b :: a)).bind fun p => (framesUpTo n p.2).map (p.1 :: ·)

/-- The responses of a stream, which has to end with one of them. -/
def frames (a : Bytes) : Option (List FramedResponse) := framesUpTo a.length a

/-- The first `n` responses of a stream, and the rest of it. -/
def takeFrames : ℕ → Bytes → Option (List FramedResponse × Bytes)
  | 0, a => some ([], a)
  | n + 1, a => (frame a).bind fun p => (takeFrames n p.2).map fun q => (p.1 :: q.1, q.2)

theorem firstSection_lt {a : Bytes} {head : List Bytes × Bytes}
    (h : firstSection Buffer.kCRLF a = some head) : head.2.length < a.length := by
  obtain ⟨rest, hrest, rfl⟩ := Option.map_eq_some_iff.mp h
  obtain ⟨e, he, rfl⟩ := Option.map_eq_some_iff.mp hrest
  exact lines_rest_lt (List.cons_ne_nil _ _) (List.mem_of_find?_eq_some he)

theorem frame_lt {a : Bytes} {p : FramedResponse × Bytes} (h : frame a = some p) :
    p.2.length < a.length := by
  simp only [frame, Option.bind_eq_some_iff] at h
  obtain ⟨head, hhead, fields, -, n, -, hp⟩ := h
  split_ifs at hp
  cases hp
  have hlt := firstSection_lt hhead
  rw [List.length_drop]
  omega

theorem framesUpTo_eq {n : ℕ} {a : Bytes} (h : a.length ≤ n) : framesUpTo n a = frames a := by
  induction n using Nat.strong_induction_on generalizing a with
  | _ n ih =>
    cases a with
    | nil => cases n <;> rfl
    | cons b a =>
      obtain ⟨m, rfl⟩ : ∃ m, n = m + 1 := ⟨n - 1, by rw [List.length_cons] at h; omega⟩
      rw [List.length_cons] at h
      rw [frames, List.length_cons, framesUpTo, framesUpTo]
      cases hp : frame (b :: a) with
      | none => rfl
      | some p =>
        have hlt := frame_lt hp
        rw [List.length_cons] at hlt
        rw [Option.bind_some, Option.bind_some, ih m (Nat.lt_succ_self m) (by omega)]
        rcases Nat.lt_or_ge a.length (m + 1) with hlen | hlen
        · rw [ih a.length hlen (by omega)]
        · omega

theorem frames_of_ne_nil {a : Bytes} (h : a ≠ []) :
    frames a = (frame a).bind fun p => (frames p.2).map (p.1 :: ·) := by
  cases a with
  | nil => exact absurd rfl h
  | cons b a =>
    rw [frames, List.length_cons, framesUpTo]
    cases hp : frame (b :: a) with
    | none => rfl
    | some p =>
      have hlt := frame_lt hp
      rw [List.length_cons] at hlt
      rw [Option.bind_some, Option.bind_some, framesUpTo_eq (by omega)]

/-- The line that `appendToBuffer` writes for a header. -/
def fieldLine (f : Bytes × Bytes) : Bytes := f.1 ++ ascii ": " ++ f.2

theorem headerField_fieldLine {f : Bytes × Bytes} (h : colon ∉ f.1) :
    headerField (fieldLine f) = some f := by
  have hline : fieldLine f = f.1 ++ colon :: (space :: f.2) := by
    rw [fieldLine, List.append_assoc]
    rfl
  rw [headerField, hline, cut_append h, Option.map_some]
  simp

theorem mapM_headerField {fields : List (Bytes × Bytes)} (h : ∀ f ∈ fields, colon ∉ f.1) :
    (fields.map fieldLine).mapM headerField = some fields := by
  induction fields with
  | nil => rfl
  | cons f fields ih =>
    rw [List.forall_mem_cons] at h
    rw [List.map_cons, List.mapM_cons, headerField_fieldLine h.1, ih h.2]
    rfl

theorem find_foldl_insert {l : List (Bytes × Bytes)} (hl : l.Pairwise fun a b => a.1 < b.1)
    (m : OrderedMap Bytes Bytes) (k : Bytes) :
    (l.foldl (fun m f => m.insert f.1 f.2) m).find k = (OrderedMap.lookup k l).or (m.find k) := by
  induction l generalizing m with
  | nil => rfl
  | cons f l ih =>
    rw [List.pairwise_cons] at hl
    rw [List.foldl_cons, ih hl.2, OrderedMap.find_insert, OrderedMap.lookup]
    split_ifs with hk
    · subst hk
      have hnone : OrderedMap.lookup f.1 l = none := by
        rw [Option.eq_none_iff_forall_ne_some]
        intro v hv
        exact absurd (hl.1 _ ((OrderedMap.lookup_eq_some hl.2).mp hv)) (lt_irrefl _)
      rw [hnone]
      rfl
    · rfl

namespace HttpResponse

/-- A response that may be framed: it is kept alive, no text of its head leaves its line, and no
header is one that frames. -/
structure Framable (r : HttpResponse) : Prop where
  keepAlive : r.closeConnection = false
  message_inLine : InLine r.statusMessage
  name_inLine : ∀ h ∈ r.headers.entries, InLine h.1
  name_noColon : ∀ h ∈ r.headers.entries, colon ∉ h.1
  name_other : ∀ h ∈ r.headers.entries, lower h.1 ∉
    [ascii "content-length", ascii "connection", ascii "transfer-encoding"]
  value_inLine : ∀ h ∈ r.headers.entries, InLine h.2
  body_lt : r.body.length < 10 ^ 13

def framed (r : HttpResponse) : FramedResponse where
  headers := (r.headers.insert (ascii "Content-Length") (decimal r.body.length)).insert
    (ascii "Connection") (ascii "Keep-Alive")
  body := r.body

def sentFields (r : HttpResponse) : List (Bytes × Bytes) :=
  (ascii "Content-Length", decimal r.body.length) :: (ascii "Connection", ascii "Keep-Alive") ::
    r.headers.entries

theorem contentLength_eq {r : HttpResponse} (h : r.body.length < 10 ^ 13) :
    r.contentLength = ascii "Content-Length: " ++ decimal r.body.length ++ Buffer.kCRLF := by
  have hdigits := length_decimal_le (by decide : 0 < 13) h
  rw [contentLength, snprintf, List.take_of_length_le]
  rw [List.length_append, List.length_append]
  change 16 + _ + 2 ≤ 31
  omega

theorem statusLine_spec (r : HttpResponse) : 13 ∉ r.statusLine ∧ r.statusLine ≠ [] := by
  rw [statusLine]
  cases r.version <;> cases r.statusCode <;> decide +kernel

theorem bytes_eq {r : HttpResponse} (h : r.Framable) :
    r.bytes = (((r.statusLine ++ r.statusMessage) :: r.sentFields.map fieldLine).flatMap
      fun l => l ++ Buffer.kCRLF) ++ (Buffer.kCRLF ++ r.body) := by
  have hfields : ∀ l : List (Bytes × Bytes),
      (l.flatMap fun h => [h.1, ascii ": ", h.2, Buffer.kCRLF]).flatten =
        (l.map fieldLine).flatMap fun l => l ++ Buffer.kCRLF := by
    intro l
    induction l with
    | nil => rfl
    | cons h l ih =>
      simp only [List.flatMap_cons, List.flatten_append, ih, List.map_cons, List.flatten_cons,
        List.flatten_nil, List.append_nil, fieldLine, List.append_assoc]
  have hkeep : fieldLine (ascii "Connection", ascii "Keep-Alive") ++ Buffer.kCRLF =
      ascii "Connection: Keep-Alive\r\n" := by decide +kernel
  have hlen : fieldLine (ascii "Content-Length", decimal r.body.length) ++ Buffer.kCRLF =
      r.contentLength := by
    rw [contentLength_eq h.body_lt, fieldLine]
    congr 2
  rw [bytes, pieces, h.keepAlive]
  simp only [Bool.false_eq_true, if_false, List.flatten_append, List.flatten_cons, List.flatten_nil,
    List.append_nil, hfields, sentFields, List.map_cons, List.flatMap_cons, hlen, hkeep,
    List.append_assoc]

theorem sentFields_noColon {r : HttpResponse} (h : r.Framable) :
    ∀ f ∈ r.sentFields, colon ∉ f.1 := by
  intro f hf
  rcases List.mem_cons.mp hf with rfl | hf
  · exact (by decide : colon ∉ ascii "Content-Length")
  · rcases List.mem_cons.mp hf with rfl | hf
    · decide
    · exact h.name_noColon f hf

theorem sentFields_inLine {r : HttpResponse} (h : r.Framable) :
    ∀ f ∈ r.sentFields, 13 ∉ fieldLine f := by
  have hline : ∀ f : Bytes × Bytes, 13 ∉ f.1 → 13 ∉ f.2 → 13 ∉ fieldLine f := by
    intro f hname hvalue
    simp only [fieldLine, List.mem_append, not_or]
    exact ⟨⟨hname, by decide⟩, hvalue⟩
  intro f hf
  rcases List.mem_cons.mp hf with rfl | hf
  · refine hline _ (by decide : 13 ∉ ascii "Content-Length") ?_
    intro hd
    exact absurd (isDigit_decimal hd).1 (by decide)
  · rcases List.mem_cons.mp hf with rfl | hf
    · exact hline _ (by decide) (by decide)
    · exact hline f (h.name_inLine f hf).1 (h.value_inLine f hf).1

theorem fieldLine_ne_nil (f : Bytes × Bytes) : fieldLine f ≠ [] := by
  intro hnil
  rw [fieldLine, List.append_eq_nil_iff, List.append_eq_nil_iff] at hnil
  exact absurd hnil.1.2 (by decide)

theorem bodyLength_sent {r : HttpResponse} (h : r.Framable) :
    bodyLength r.sentFields = some r.body.length := by
  have hothers : r.headers.entries.filter framesBody = [] := by
    rw [List.filter_eq_nil_iff]
    intro e he hframes
    have hother := h.name_other e he
    simp only [List.mem_cons, List.not_mem_nil, or_false, not_or] at hother
    simp only [framesBody, Bool.or_eq_true, decide_eq_true_eq] at hframes
    exact hframes.elim hother.1 hother.2.2
  have hlength : framesBody (ascii "Content-Length", decimal r.body.length) = true := by
    simp only [framesBody, Bool.or_eq_true, decide_eq_true_eq]
    exact Or.inl (by decide)
  have hconn : framesBody (ascii "Connection", ascii "Keep-Alive") = false := by decide
  have hname : lower (ascii "Content-Length") = ascii "content-length" := by decide
  rw [bodyLength, sentFields, List.filter_cons_of_pos hlength, List.filter_cons_of_neg
    (by rw [hconn]; exact Bool.false_ne_true), hothers]
  simp only [hname, if_true, parseDecimal_decimal]

theorem Framable.find_none {r : HttpResponse} (h : r.Framable) (name : Bytes)
    (hname : lower name ∈ [ascii "content-length", ascii "connection", ascii "transfer-encoding"]) :
    r.headers.find name = none := by
  rw [Option.eq_none_iff_forall_ne_some]
  intro v hv
  exact h.name_other (name, v) (OrderedMap.find_eq_some.mp hv) hname

theorem headerMap_sent {r : HttpResponse} (h : r.Framable) :
    headerMap r.sentFields = r.framed.headers := by
  apply OrderedMap.ext_find
  intro k
  have hlength := h.find_none (ascii "Content-Length") (by decide)
  have hconn := h.find_none (ascii "Connection") (by decide)
  rw [headerMap, sentFields, List.foldl_cons, List.foldl_cons,
    find_foldl_insert r.headers.sorted, framed, OrderedMap.find_insert, OrderedMap.find_insert,
    OrderedMap.find_insert, OrderedMap.find_insert, OrderedMap.find_empty]
  change (r.headers.find k).or _ = _
  split_ifs with hk₁ hk₂
  · rw [← hk₁, hconn, Option.none_or]
  · rw [← hk₂, hlength, Option.none_or]
  · rw [Option.or_none]

/-- The client finds the head as it was written, and the body is as long as the head says. -/
theorem frame_response {r : HttpResponse} (h : r.Framable) (rest : Bytes) :
    frame (r.bytes ++ rest) = some (r.framed, rest) := by
  obtain ⟨hstatus, hne⟩ := r.statusLine_spec
  have hlines : ∀ l ∈ (r.statusLine ++ r.statusMessage) :: r.sentFields.map fieldLine,
      13 ∉ l ∧ l ≠ [] := by
    rw [List.forall_mem_cons]
    constructor
    · rw [List.mem_append, not_or]
      exact ⟨⟨hstatus, h.message_inLine.1⟩, List.append_ne_nil_of_left_ne_nil hne _⟩
    · intro l hl
      obtain ⟨f, hf, rfl⟩ := List.mem_map.mp hl
      exact ⟨sentFields_inLine h f hf, fieldLine_ne_nil f⟩
  have hsection : firstSection Buffer.kCRLF (r.bytes ++ rest) =
      some ((r.statusLine ++ r.statusMessage) :: r.sentFields.map fieldLine, r.body ++ rest) := by
    rw [bytes_eq h, List.append_assoc, List.append_assoc]
    exact firstSection_lines hlines (r.body ++ rest)
  have hle : r.body.length ≤ (r.body ++ rest).length := by
    rw [List.length_append]
    exact Nat.le_add_right _ _
  rw [frame, hsection, Option.bind_some, List.tail_cons, mapM_headerField (sentFields_noColon h),
    Option.bind_some, bodyLength_sent h, Option.bind_some, if_pos hle, List.take_left,
    List.drop_left, headerMap_sent h]
  rfl

theorem bytes_ne_nil {r : HttpResponse} (h : r.Framable) : r.bytes ≠ [] := by
  rw [bytes_eq h]
  simp [Buffer.kCRLF]

theorem frames_responses {rs : List HttpResponse} (h : ∀ r ∈ rs, r.Framable) :
    frames (rs.flatMap bytes) = some (rs.map framed) := by
  induction rs with
  | nil => rfl
  | cons r rs ih =>
    rw [List.forall_mem_cons] at h
    have hne : r.bytes ++ rs.flatMap bytes ≠ [] :=
      List.append_ne_nil_of_left_ne_nil (bytes_ne_nil h.1) _
    rw [List.flatMap_cons, frames_of_ne_nil hne, frame_response h.1, Option.bind_some, ih h.2]
    rfl

theorem takeFrames_responses {rs : List HttpResponse} (h : ∀ r ∈ rs, r.Framable) (rest : Bytes) :
    takeFrames rs.length (rs.flatMap bytes ++ rest) = some (rs.map framed, rest) := by
  induction rs with
  | nil => rfl
  | cons r rs ih =>
    rw [List.forall_mem_cons] at h
    rw [List.length_cons, takeFrames, List.flatMap_cons, List.append_assoc, frame_response h.1,
      Option.bind_some, ih h.2]
    rfl

def appendAll (rs : List HttpResponse) (buffer : ValidBuffer) : ValidBuffer :=
  rs.foldl (fun b r => r.appendToBuffer b) buffer

theorem readable_appendAll (rs : List HttpResponse) (buffer : ValidBuffer) :
    (appendAll rs buffer).readable = buffer.readable ++ rs.flatMap bytes := by
  induction rs generalizing buffer with
  | nil => exact (List.append_nil _).symm
  | cons r rs ih =>
    have hcons : appendAll (r :: rs) buffer = appendAll rs (r.appendToBuffer buffer) := rfl
    rw [hcons, ih, readable_appendToBuffer, List.flatMap_cons, List.append_assoc]

/-- What responses append, to any buffer, is split by the framing rule into as many responses, each
with its headers, the two that frame, and its body. -/
theorem responses_split (rs : List HttpResponse) (h : ∀ r ∈ rs, r.Framable)
    (buffer : ValidBuffer) :
    ∃ out, (appendAll rs buffer).readable = buffer.readable ++ out ∧
      frames out = some (rs.map framed) :=
  ⟨rs.flatMap bytes, readable_appendAll rs buffer, frames_responses h⟩

def page (body : Bytes) : HttpResponse :=
  ((((new false .kHttp11).setStatusCode .k200Ok).setStatusMessage (ascii "OK")).setContentType
    (ascii "text/html")).setBody body

theorem page_framable {body : Bytes} (h : body.length < 10 ^ 13) : (page body).Framable where
  keepAlive := rfl
  message_inLine := (by decide : InLine (ascii "OK"))
  name_inLine := (by decide : ∀ e ∈ (page []).headers.entries, InLine e.1)
  name_noColon := (by decide : ∀ e ∈ (page []).headers.entries, colon ∉ e.1)
  name_other := (by decide : ∀ e ∈ (page []).headers.entries, lower e.1 ∉
    [ascii "content-length", ascii "connection", ascii "transfer-encoding"])
  value_inLine := (by decide : ∀ e ∈ (page []).headers.entries, InLine e.2)
  body_lt := h

/-- A page that looks like the end of a head, and an empty one. -/
theorem pages_split :
    ∃ out, (appendAll [page (ascii "\r\n\r\nHTTP/1.1 "), page []] ValidBuffer.empty).readable =
        ValidBuffer.empty.readable ++ out ∧
      frames out = some [(page (ascii "\r\n\r\nHTTP/1.1 ")).framed, (page []).framed] := by
  refine responses_split [page (ascii "\r\n\r\nHTTP/1.1 "), page []] ?_ ValidBuffer.empty
  simp only [List.forall_mem_cons, List.not_mem_nil, false_implies, implies_true, and_true]
  exact ⟨page_framable (by decide), page_framable (by decide)⟩

end HttpResponse

end Matelib
