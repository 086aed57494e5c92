import Matelib.Decimal
import Matelib.HttpResponse
import Matelib.Lines

/-!
# Status lines

The grammar of a status line: the version, a blank, a code of three digits, a blank, and the reason,
which may be empty but is on one line. `appendToBuffer` writes no blank before the message, so the
first line of a response never is the status line of its version, code and message.
-/

namespace Matelib

structure StatusLine where
  major : ℕ
  minor : ℕ
  code : ℕ
  reason : Bytes
  deriving DecidableEq

namespace StatusLine

/-- `"HTTP/"`, and two numbers with a dot between them. -/
def parseVersion (text : Bytes) : Option (ℕ × ℕ) :=
  if text.take 5 = ascii "HTTP/" then
    (cut 46 (text.drop 5)).bind fun p =>
      (parseDecimal p.1).bind fun major => (parseDecimal p.2).map fun minor => (major, minor)
  else none

def parseCode (text : Bytes) : Option ℕ := if text.length = 3 then parseDecimal text else none

def parse (line : Bytes) : Option StatusLine :=
  (cut space line).bind fun p =>
    (parseVersion p.1).bind fun version =>
      (cut space p.2).bind fun q =>
        (parseCode q.1).bind fun code =>
          if 13 ∉ q.2 ∧ 10 ∉ q.2 then some ⟨version.1, version.2, code, q.2⟩ else none

theorem length_reason {line version rest : Bytes} {status : StatusLine}
    (hcut : cut space line = some (version, rest)) (h : parse line = some status) :
    rest.length = status.reason.length + 4 := by
  rw [parse, hcut, Option.bind_some] at h
  obtain ⟨version', -, hparts⟩ := Option.bind_eq_some_iff.mp h
  obtain ⟨⟨code, reason⟩, hrest, hparts⟩ := Option.bind_eq_some_iff.mp hparts
  obtain ⟨value, hcode, hparts⟩ := Option.bind_eq_some_iff.mp hparts
  obtain ⟨-, htext⟩ := cut_eq_some.mp hrest
  change rest = _ at htext
  have hlen : code.length = 3 := by
    by_contra hne
    rw [parseCode, if_neg hne] at hcode
    cases hcode
  dsimp only at hparts
  split_ifs at hparts
  cases hparts
  change rest.length = reason.length + 4
  rw [htext, List.length_append, List.length_cons, hlen]
  omega

end StatusLine

namespace HttpResponse

/-- What the first line of a response should denote. -/
def status (r : HttpResponse) : StatusLine :=
  ⟨1, r.version.toInt.toNat, r.statusCode.toInt.toNat, r.statusMessage⟩

def emitted (r : HttpResponse) (buffer : ValidBuffer) : Bytes :=
  (r.appendToBuffer buffer).readable.drop buffer.readable.length

def StatusLineParses (r : HttpResponse) (buffer : ValidBuffer) : Prop :=
  ∃ line rest, (Search.lines Buffer.kCRLF (r.emitted buffer)).head? = some (line, rest) ∧
    StatusLine.parse line = some r.status

theorem emitted_eq (r : HttpResponse) (buffer : ValidBuffer) : r.emitted buffer = r.bytes := by
  rw [emitted, readable_appendToBuffer, List.drop_left]

/-- The two texts that the first `snprintf` writes, with a blank between them. -/
def versionText (version : HttpVersion) : Bytes := ascii "HTTP/1." ++ decimal version.toInt

def codeText (code : HttpStatusCode) : Bytes := decimal code.toInt

variable {r : HttpResponse}

theorem statusLine_eq (hversion : r.version ≠ .kUnknown) (hcode : r.statusCode ≠ .kInvalid) :
    r.statusLine = versionText r.version ++ space :: codeText r.statusCode := by
  have hall : ∀ version code, version ≠ HttpVersion.kUnknown → code ≠ HttpStatusCode.kInvalid →
      snprintf kLineSize (ascii "HTTP/1." ++ decimal version.toInt ++ ascii " " ++
        decimal code.toInt) = versionText version ++ space :: codeText code := by
    rintro (_ | _ | _) (_ | _ | _ | _ | _) hversion hcode <;>
      first | exact absurd rfl hversion | exact absurd rfl hcode | decide
  exact hall r.version r.statusCode hversion hcode

/-- The first line is the version, a blank, the code, and the message right behind it. -/
theorem first_line (hversion : r.version ≠ .kUnknown) (hcode : r.statusCode ≠ .kInvalid)
    (hcr : 13 ∉ r.statusMessage) (buffer : ValidBuffer) :
    ∃ rest, (Search.lines Buffer.kCRLF (r.emitted buffer)).head? =
      some (versionText r.version ++ space :: (codeText r.statusCode ++ r.statusMessage),
        rest) := by
  have hline : 13 ∉ r.statusLine := by
    have hall : ∀ version code, version ≠ HttpVersion.kUnknown →
        code ≠ HttpStatusCode.kInvalid →
        (13 : UInt8) ∉ versionText version ++ space :: codeText code := by
      rintro (_ | _ | _) (_ | _ | _ | _ | _) hversion hcode <;>
        first | exact absurd rfl hversion | exact absurd rfl hcode | decide
    rw [statusLine_eq hversion hcode]
    exact hall r.version r.statusCode hversion hcode
  have hnot : 13 ∉ r.statusLine ++ r.statusMessage := by
    rw [List.mem_append, not_or]
    exact ⟨hline, hcr⟩
  obtain ⟨after, hafter⟩ : ∃ after, r.pieces =
      r.statusLine :: r.statusMessage :: Buffer.kCRLF :: after := ⟨_, rfl⟩
  have hbytes : r.bytes = r.statusLine ++ r.statusMessage ++ (13 :: [10] ++ after.flatten) := by
    rw [bytes, hafter, List.flatten_cons, List.flatten_cons, List.flatten_cons, List.append_assoc]
    rfl
  refine ⟨after.flatten, ?_⟩
  rw [emitted_eq, hbytes, show Buffer.kCRLF = 13 :: [10] from rfl, Search.lines_cons hnot,
    List.head?_cons, statusLine_eq hversion hcode, List.append_assoc, List.cons_append]

theorem length_codeText {code : HttpStatusCode} (h : code ≠ .kInvalid) :
    (codeText code).length = 3 := by
  cases code <;> first | exact absurd rfl h | decide

theorem space_not_mem_versionText (version : HttpVersion) : space ∉ versionText version := by
  cases version <;> decide

/-- No response with a known version and a code has a first line that parses to its version, code
and message: the message stands right behind the code. -/
theorem status_line_never_parses (r : HttpResponse) (buffer : ValidBuffer)
    (hversion : r.version ≠ .kUnknown) (hcode : r.statusCode ≠ .kInvalid)
    (hmessage : 13 ∉ r.statusMessage ∧ 10 ∉ r.statusMessage) :
    ¬r.StatusLineParses buffer := by
  rintro ⟨line, rest, hfirst, hparse⟩
  obtain ⟨rest', hline⟩ := first_line hversion hcode hmessage.1 buffer
  rw [hline, Option.some.injEq, Prod.mk.injEq] at hfirst
  obtain ⟨rfl, -⟩ := hfirst
  have hlen := StatusLine.length_reason
    (cut_append (space_not_mem_versionText r.version) _) hparse
  rw [List.length_append, length_codeText hcode] at hlen
  change 3 + r.statusMessage.length = r.statusMessage.length + 4 at hlen
  omega

theorem parse_with_blank (hversion : r.version ≠ .kUnknown) (hcode : r.statusCode ≠ .kInvalid)
    (hmessage : 13 ∉ r.statusMessage ∧ 10 ∉ r.statusMessage) :
    StatusLine.parse (r.statusLine ++ space :: r.statusMessage) = some r.status := by
  have hparts : ∀ version code, version ≠ HttpVersion.kUnknown → code ≠ HttpStatusCode.kInvalid →
      StatusLine.parseVersion (versionText version) = some (1, version.toInt.toNat) ∧
        StatusLine.parseCode (codeText code) = some code.toInt.toNat ∧
        space ∉ codeText code := by
    rintro (_ | _ | _) (_ | _ | _ | _ | _) hversion hcode <;>
      first | exact absurd rfl hversion | exact absurd rfl hcode | decide
  obtain ⟨hparsed, hvalue, hspace⟩ := hparts r.version r.statusCode hversion hcode
  rw [statusLine_eq hversion hcode, List.append_assoc, List.cons_append, StatusLine.parse,
    cut_append (space_not_mem_versionText r.version), Option.bind_some]
  dsimp only
  rw [hparsed, Option.bind_some, cut_append hspace, Option.bind_some]
  dsimp only
  rw [hvalue, Option.bind_some, if_pos hmessage]
  rfl

def notFoundResponse : HttpResponse :=
  ((new true .kHttp10).setStatusCode .k404NotFound).setStatusMessage (ascii "Not Found")

theorem notFound_line_never_parses : ¬notFoundResponse.StatusLineParses ValidBuffer.empty :=
  status_line_never_parses notFoundResponse ValidBuffer.empty (by decide) (by decide) (by decide)

def okResponse : HttpResponse :=
  ((new false .kHttp11).setStatusCode .k200Ok).setStatusMessage (ascii "OK")

/-- The first line of a plain response is `HTTP/1.1 200OK`: it has one blank only. -/
theorem okResponse_line_fails :
    ((Search.lines Buffer.kCRLF (okResponse.emitted ValidBuffer.empty)).head?.map Prod.fst =
        some (ascii "HTTP/1.1 200OK") ∧ StatusLine.parse (ascii "HTTP/1.1 200OK") = none) ∧
      ¬okResponse.StatusLineParses ValidBuffer.empty := by
  obtain ⟨rest, hline⟩ := first_line (r := okResponse) (by decide) (by decide) (by decide)
    ValidBuffer.empty
  have htext : versionText okResponse.version ++
      space :: (codeText okResponse.statusCode ++ okResponse.statusMessage) =
        ascii "HTTP/1.1 200OK" := by decide
  have hparse : StatusLine.parse (ascii "HTTP/1.1 200OK") = none := by decide
  rw [htext] at hline
  refine ⟨⟨by rw [hline, Option.map_some], hparse⟩, ?_⟩
  rintro ⟨line, rest', hfirst, hstatus⟩
  rw [hline, Option.some.injEq, Prod.mk.injEq] at hfirst
  rw [← hfirst.1, hparse] at hstatus
  cases hstatus

end HttpResponse

end Matelib
