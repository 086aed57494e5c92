import Matelib.HttpContext
import Matelib.Lines

/-!
# The end of the header section

The header section ends, for the parser, at the first line without a colon. This is the first empty
line only when no line with a text but without a colon stands in front of it.
-/

namespace Matelib.HttpContext

open Search

def headerLines (a : Bytes) : List (Bytes × Bytes) := lines Buffer.kCRLF a

/-- The line at which the parser leaves the header section. -/
def lastLine (a : Bytes) : Option (Bytes × Bytes) :=
  (headerLines a).find? fun e => colon ∉ e.1

theorem kCRLF_ne_nil : Buffer.kCRLF ≠ [] := List.cons_ne_nil _ _

theorem headerLines_of_some {a : Bytes} {i : ℕ} (h : search Buffer.kCRLF a = some i) :
    headerLines a = (a.take i, a.drop (i + 2)) :: headerLines (a.drop (i + 2)) :=
  lines_of_some kCRLF_ne_nil h

theorem scanStep_colon {q : HttpRequest} {a : Bytes} {i : ℕ}
    (h : search Buffer.kCRLF a = some i) (hcolon : colon ∈ a.take i) :
    ∃ q', scanner.step ⟨.kExpectHeaders, q⟩ a = .advance ⟨.kExpectHeaders, q'⟩ (i + 2) := by
  obtain ⟨p, hp⟩ : ∃ p, cut colon (a.take i) = some p :=
    Option.ne_none_iff_exists'.mp fun hnone => cut_eq_none.mp hnone hcolon
  exact ⟨q.addHeader p.1 p.2, by simp only [scanner_step, scanStep, h, processHeader, hp]⟩

theorem scanStep_noColon {q : HttpRequest} {a : Bytes} {i : ℕ}
    (h : search Buffer.kCRLF a = some i) (hcolon : colon ∉ a.take i) :
    scanner.step ⟨.kExpectHeaders, q⟩ a = .advance ⟨.kExpectBody, q⟩ (i + 2) := by
  simp only [scanner_step, scanStep, h, processHeader, cut_eq_none.mpr hcolon, receiveHeaders]

theorem parsed_section (q : HttpRequest) (a : Bytes) :
    ∃ p, (⟨.kExpectHeaders, q⟩ : HttpContext).parsed a = some p ∧
      match lastLine a with
      | some e => p.ctx.state = .kGotAll ∧ p.rest = e.2
      | none => p.ctx.state = .kExpectHeaders := by
  induction hn : a.length using Nat.strong_induction_on generalizing q a with
  | _ n ih =>
    subst hn
    cases hi : search Buffer.kCRLF a with
    | none =>
      have hwait : scanner.step ⟨.kExpectHeaders, q⟩ a = .wait := by
        simp only [scanner_step, scanStep, hi]
      refine ⟨_, parsed_of_scan (by simp) (scanner.scan_wait hwait 0), ?_⟩
      rw [lastLine, headerLines, lines_of_none hi]
      rfl
    | some i =>
      rw [lastLine, headerLines_of_some hi, List.find?_cons]
      by_cases hcolon : colon ∈ a.take i
      · obtain ⟨q', hstep⟩ := scanStep_colon (q := q) hi hcolon
        obtain ⟨p, hp, hend⟩ := ih _ (drop_length_lt kCRLF_ne_nil hi) q' (a.drop (i + 2)) rfl
        obtain ⟨o, ho, rfl⟩ := Option.map_eq_some_iff.mp hp
        have hscan := (scanner.scan_advance hstep _).trans ho
        refine ⟨_, parsed_of_scan (by simp) hscan, ?_⟩
        simp only [hcolon, not_true_eq_false, decide_false]
        exact hend
      · have hstep := scanStep_noColon (q := q) hi hcolon
        have hhalt : scanner.scan 2 ⟨.kExpectHeaders, q⟩ a =
            some (.halted true ⟨.kGotAll, q⟩ (a.drop (i + 2))) :=
          scanner.scan_advance hstep 1
        refine ⟨_, parsed_of_scan (by simp) hhalt, ?_⟩
        simp only [hcolon, not_false_eq_true, decide_true]
        exact ⟨rfl, rfl⟩

/-- The parse of an input with `headers` behind its request line ends. It reaches `kGotAll` only
when there is an empty line among the headers, and then it has consumed the bytes through the first
one and no others. -/
def EndsAtEmptyLine (buf : ValidBuffer) (headers : Bytes) : Prop :=
  ∃ p, init.parseRequest buf = some p ∧
    (p.ctx.state = .kGotAll → behindSection Buffer.kCRLF headers = some p.rest.readable)

/-- The first line without a colon, if there is one, is an empty line. -/
def ColonsUpToEmptyLine (headers : Bytes) : Prop := ∀ e ∈ lastLine headers, e.1 = []

instance (headers : Bytes) : Decidable (ColonsUpToEmptyLine headers) :=
  inferInstanceAs (Decidable (∀ e ∈ lastLine headers, e.1 = []))

theorem find?_empty_of_lastLine {ls : List (Bytes × Bytes)} {e : Bytes × Bytes}
    (he : ls.find? (fun e => colon ∉ e.1) = some e) (hempty : e.1 = []) :
    ls.find? (fun e => e.1 = []) = some e := by
  induction ls with
  | nil => cases he
  | cons l ls ih =>
    rw [List.find?_cons] at he ⊢
    by_cases hl : colon ∈ l.1
    · have hne : l.1 ≠ [] := List.ne_nil_of_mem hl
      simp only [hl, not_true_eq_false, decide_false] at he
      simp only [hne, decide_false]
      exact ih he
    · simp only [hl, not_false_eq_true, decide_true, Option.some.injEq] at he
      subst he
      simp only [hempty, decide_true]

theorem behindSection_eq_iff {headers : Bytes} {e : Bytes × Bytes}
    (he : lastLine headers = some e) :
    behindSection Buffer.kCRLF headers = some e.2 ↔ e.1 = [] := by
  constructor
  · intro hbehind
    obtain ⟨e', he', hrest⟩ := Option.map_eq_some_iff.mp hbehind
    have hfound := List.find?_some he'
    have hempty : e'.1 = [] := by simpa using hfound
    have hmem : e' ∈ headerLines headers := List.mem_of_find?_eq_some he'
    rwa [eq_of_rest_eq kCRLF_ne_nil hmem (List.mem_of_find?_eq_some he) hrest] at hempty
  · intro hempty
    exact Option.map_eq_some_iff.mpr ⟨e, find?_empty_of_lastLine he hempty, rfl⟩

theorem parsed_requestLine {a : Bytes} {i : ℕ} (hi : search Buffer.kCRLF a = some i)
    (hvalid : (init.processRequestLine (a.take i)).1 = true) :
    ∃ p, init.parsed a = some p ∧
      match lastLine (a.drop (i + 2)) with
      | some e => p.ctx.state = .kGotAll ∧ p.rest = e.2
      | none => p.ctx.state = .kExpectHeaders := by
  obtain ⟨p, hp, hend⟩ :=
    parsed_section (init.processRequestLine (a.take i)).2.request (a.drop (i + 2))
  obtain ⟨o, ho, rfl⟩ := Option.map_eq_some_iff.mp hp
  have hstep : scanner.step init a =
      .advance (init.processRequestLine (a.take i)).2.receiveRequestLine (i + 2) := by
    simp only [scanner_step, scanStep, init, hi]
    exact if_pos hvalid
  exact ⟨_, parsed_of_scan (by decide) ((scanner.scan_advance hstep _).trans ho), hend⟩

/-- The header section of a request ends at its first empty line exactly when the first line without
a colon is empty or has not arrived. -/
theorem section_ends_iff (buf : ValidBuffer) (i : ℕ)
    (hi : search Buffer.kCRLF buf.readable = some i)
    (hvalid : (init.processRequestLine (buf.readable.take i)).1 = true) :
    EndsAtEmptyLine buf (buf.readable.drop (i + 2)) ↔
      ColonsUpToEmptyLine (buf.readable.drop (i + 2)) := by
  obtain ⟨p, hp, hview⟩ := parseRequest_spec (by decide : init.state ≠ .kGotAll) buf
  obtain ⟨q, hq, hend⟩ := parsed_requestLine hi hvalid
  rw [hview, Option.some.injEq] at hq
  subst hq
  rw [EndsAtEmptyLine, hp, ColonsUpToEmptyLine]
  cases hlast : lastLine (buf.readable.drop (i + 2)) with
  | none =>
    rw [hlast] at hend
    have hstate : p.ctx.state = .kExpectHeaders := hend
    simp [hstate]
  | some e =>
    rw [hlast] at hend
    have hstate : p.ctx.state = .kGotAll := hend.1
    have hrest : p.rest.readable = e.2 := hend.2
    simp [hstate, hrest, behindSection_eq_iff hlast]

def received (text : String) : ValidBuffer := ValidBuffer.empty.append (ascii text)

def hostRequest : ValidBuffer := received "GET / HTTP/1.1\r\nHost: a\r\n\r\nGET"

theorem hostRequest_ends : EndsAtEmptyLine hostRequest (hostRequest.readable.drop 16) :=
  (section_ends_iff hostRequest 14 (by decide +kernel) (by decide +kernel)).mpr (by decide +kernel)

/-- A line without a colon ends the section, and the header behind it is left for the next
request. -/
theorem strayLine_ends_section :
    ¬ EndsAtEmptyLine (received "GET / HTTP/1.1\r\nfoo\r\nHost: a\r\n\r\n")
      (ascii "foo\r\nHost: a\r\n\r\n") := by
  rintro ⟨p, hp, hend⟩
  have hview : (init.parseRequest (received "GET / HTTP/1.1\r\nfoo\r\nHost: a\r\n\r\n")).map
      (fun p => (p.ctx.state, p.rest.readable)) =
        some (.kGotAll, ascii "Host: a\r\n\r\n") := by decide +kernel
  rw [hp, Option.map_some, Option.some.injEq, Prod.mk.injEq] at hview
  have hbehind := hend hview.1
  rw [hview.2] at hbehind
  exact absurd hbehind (by decide +kernel)

end Matelib.HttpContext
