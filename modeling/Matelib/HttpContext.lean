import Matelib.HttpRequest
import Matelib.Scanner
import Matelib.ValidBuffer

/-!
# Incremental parsing of HTTP requests

`parseRequest` is the loop of `HttpContext` over an input buffer. It is a resumable scanner of the
readable bytes, so its outcome does not depend on how the bytes are split into deliveries.
-/

namespace Matelib

open Search

inductive HttpRequestParseState where
  | kExpectRequestLine | kExpectHeaders | kExpectBody | kGotAll
  deriving DecidableEq, Repr

structure HttpContext where
  state : HttpRequestParseState
  request : HttpRequest
  deriving DecidableEq

/-- What `parseRequest` returns, with the context and the input that it leaves behind. -/
structure Parsed (β : Type) where
  ok : Bool
  ctx : HttpContext
  rest : β
  deriving DecidableEq

namespace HttpContext

def init : HttpContext := ⟨.kExpectRequestLine, HttpRequest.init⟩

def gotAll (ctx : HttpContext) : Bool := ctx.state = .kGotAll

def receiveRequestLine (ctx : HttpContext) : HttpContext := { ctx with state := .kExpectHeaders }
def receiveHeaders (ctx : HttpContext) : HttpContext := { ctx with state := .kExpectBody }
def receiveBody (ctx : HttpContext) : HttpContext := { ctx with state := .kGotAll }

def reset (ctx : HttpContext) : HttpContext :=
  { state := .kExpectRequestLine, request := ctx.request.reset }

def processRequestLine (ctx : HttpContext) (line : Bytes) : Bool × HttpContext :=
  let (ok, request) := ctx.request.processRequestLine line
  (ok, { ctx with request := request })

/-- A line of the header section; a line without a colon ends the section. -/
def processHeader (ctx : HttpContext) (line : Bytes) : HttpContext :=
  match cut colon line with
  | some (field, value) => { ctx with request := ctx.request.addHeader field value }
  | none => ctx.receiveHeaders

/-- The loop of `parseRequest` for at most `fuel` iterations. It has no branch for `kGotAll`, so it
runs on for ever in that state. The result `none` means that the fuel did not suffice or that an
assertion of the buffer failed. -/
def parseLoop : ℕ → HttpContext → ValidBuffer → Option (Parsed ValidBuffer)
  | 0, _, _ => none
  | fuel + 1, ctx, buf => match ctx.state with
    | .kExpectRequestLine => match buf.findCRLF with
      | some crlf =>
        let (ok, ctx) := ctx.processRequestLine (buf.upTo crlf)
        if ok then
          (buf.retrieveUntil (crlf + 2)).bind fun buf => parseLoop fuel ctx.receiveRequestLine buf
        else some ⟨false, ctx, buf⟩
      | none => some ⟨true, ctx, buf⟩
    | .kExpectHeaders => match buf.findCRLF with
      | some crlf =>
        let ctx := ctx.processHeader (buf.upTo crlf)
        (buf.retrieveUntil (crlf + 2)).bind fun buf => parseLoop fuel ctx buf
      | none => some ⟨true, ctx, buf⟩
    | .kExpectBody => some ⟨true, ctx.receiveBody, buf⟩
    | .kGotAll => parseLoop fuel ctx buf

def parseRequest (ctx : HttpContext) (buf : ValidBuffer) : Option (Parsed ValidBuffer) :=
  parseLoop (buf.readableBytes + 1) ctx buf

/-- One iteration on the readable bytes. -/
def scanStep (ctx : HttpContext) (a : Bytes) : Scan HttpContext Bool :=
  match ctx.state with
  | .kExpectRequestLine => match search Buffer.kCRLF a with
    | some i =>
      let (ok, ctx) := ctx.processRequestLine (a.take i)
      if ok then .advance ctx.receiveRequestLine (i + 2) else .halt false ctx
    | none => .wait
  | .kExpectHeaders => match search Buffer.kCRLF a with
    | some i => .advance (ctx.processHeader (a.take i)) (i + 2)
    | none => .wait
  | .kExpectBody => .halt true ctx.receiveBody
  | .kGotAll => .advance ctx 0

theorem scanStep_append (ctx : HttpContext) (a b : Bytes) (h : scanStep ctx a ≠ .wait) :
    scanStep ctx (a ++ b) = scanStep ctx a := by
  unfold scanStep at h ⊢
  have hline : ∀ i, search Buffer.kCRLF a = some i →
      search Buffer.kCRLF (a ++ b) = some i ∧ (a ++ b).take i = a.take i := fun i hi =>
    ⟨search_append hi b, List.take_append_of_le_length ((Nat.le_add_right i 2).trans
      (search_bound hi))⟩
  cases hs : ctx.state with
  | kExpectRequestLine =>
    cases hi : search Buffer.kCRLF a with
    | none => simp only [hs, hi, ne_eq, not_true_eq_false] at h
    | some i => simp only [(hline i hi).1, (hline i hi).2]
  | kExpectHeaders =>
    cases hi : search Buffer.kCRLF a with
    | none => simp only [hs, hi, ne_eq, not_true_eq_false] at h
    | some i => simp only [(hline i hi).1, (hline i hi).2]
  | kExpectBody => rfl
  | kGotAll => rfl

theorem scanStep_advance {ctx ctx' : HttpContext} {a : Bytes} {n : ℕ}
    (h : scanStep ctx a = .advance ctx' n) (hs : ctx.state ≠ .kGotAll) :
    ctx'.state ≠ .kGotAll ∧ 0 < n ∧ n ≤ a.length := by
  unfold scanStep at h
  cases hstate : ctx.state with
  | kExpectRequestLine =>
    cases hi : search Buffer.kCRLF a with
    | none => simp only [hstate, hi, reduceCtorEq] at h
    | some i =>
      have hbound := search_bound hi
      simp only [hstate, hi] at h
      split_ifs at h
      cases h
      exact ⟨HttpRequestParseState.noConfusion, Nat.succ_pos _, hbound⟩
  | kExpectHeaders =>
    cases hi : search Buffer.kCRLF a with
    | none => simp only [hstate, hi, reduceCtorEq] at h
    | some i =>
      have hbound := search_bound hi
      simp only [hstate, hi] at h
      cases h
      refine ⟨?_, Nat.succ_pos _, hbound⟩
      unfold processHeader
      split
      · simp only [hstate, ne_eq, reduceCtorEq, not_false_eq_true]
      · exact HttpRequestParseState.noConfusion
  | kExpectBody => simp only [hstate, reduceCtorEq] at h
  | kGotAll => exact absurd hstate hs

def scanner : Scanner HttpContext UInt8 Bool where
  step := scanStep
  step_append := scanStep_append
  advance_le ctx a ctx' n h := by
    by_cases hs : ctx.state = .kGotAll
    · rw [scanStep, hs] at h
      cases h
      exact Nat.zero_le _
    · exact (scanStep_advance h hs).2.2

theorem scanner_step : scanner.step = scanStep := rfl

def outcome : Scanned HttpContext UInt8 Bool → Parsed Bytes
  | .waiting ctx rest => ⟨true, ctx, rest⟩
  | .halted ok ctx rest => ⟨ok, ctx, rest⟩

end HttpContext

def Parsed.view (p : Parsed ValidBuffer) : Parsed Bytes := ⟨p.ok, p.ctx, p.rest.readable⟩

namespace HttpContext

theorem parseLoop_view (fuel : ℕ) (ctx : HttpContext) (buf : ValidBuffer) :
    (parseLoop fuel ctx buf).map Parsed.view =
      (scanner.scan fuel ctx buf.readable).map outcome := by
  induction fuel generalizing ctx buf with
  | zero => rfl
  | succ fuel ih =>
    rw [parseLoop, Scanner.scan, scanner_step, scanStep]
    cases ctx.state with
    | kExpectRequestLine =>
      cases hcrlf : buf.findCRLF with
      | none => simp only [ValidBuffer.findCRLF_eq_none.mp hcrlf]; rfl
      | some crlf =>
        obtain ⟨i, hi, hline, buf', hbuf', hrest⟩ := ValidBuffer.findCRLF_spec hcrlf
        simp only [hi, hline, hbuf', Option.bind_some]
        split_ifs
        · rw [ih, hrest]
        · rfl
    | kExpectHeaders =>
      cases hcrlf : buf.findCRLF with
      | none => simp only [ValidBuffer.findCRLF_eq_none.mp hcrlf]; rfl
      | some crlf =>
        obtain ⟨i, hi, hline, buf', hbuf', hrest⟩ := ValidBuffer.findCRLF_spec hcrlf
        simp only [hi, hline, hbuf', Option.bind_some]
        rw [ih, hrest]
    | kExpectBody => rfl
    | kGotAll => exact ih ctx buf

theorem scan_ends {ctx : HttpContext} (hctx : ctx.state ≠ .kGotAll) {a : Bytes} {fuel : ℕ}
    (hfuel : a.length < fuel) : ∃ o, scanner.scan fuel ctx a = some o := by
  apply scanner.scan_terminates (fun _ a => a.length) (fun ctx => ctx.state ≠ .kGotAll) _ hctx hfuel
  intro ctx a ctx' n hs hstep
  obtain ⟨hs', hpos, hle⟩ := scanStep_advance hstep hs
  refine ⟨hs', ?_⟩
  rw [List.length_drop]
  omega

def parsed (ctx : HttpContext) (a : Bytes) : Option (Parsed Bytes) :=
  (scanner.scan (a.length + 1) ctx a).map outcome

theorem parseRequest_view (ctx : HttpContext) (buf : ValidBuffer) :
    (ctx.parseRequest buf).map Parsed.view = ctx.parsed buf.readable := by
  rw [parseRequest, parseLoop_view, parsed, ValidBuffer.length_readable]

/-- Outside `kGotAll` the loop ends, and no assertion of the buffer fails. -/
theorem parseRequest_spec {ctx : HttpContext} (hctx : ctx.state ≠ .kGotAll) (buf : ValidBuffer) :
    ∃ p, ctx.parseRequest buf = some p ∧ ctx.parsed buf.readable = some p.view := by
  have hview := ctx.parseRequest_view buf
  obtain ⟨o, ho⟩ := scan_ends hctx (Nat.lt_succ_self buf.readable.length)
  rw [parsed, ho, Option.map_some, Option.map_eq_some_iff] at hview
  obtain ⟨p, hp, hpo⟩ := hview
  refine ⟨p, hp, ?_⟩
  rw [parsed, ho, Option.map_some, hpo]

theorem parsed_of_scan {ctx : HttpContext} (hctx : ctx.state ≠ .kGotAll) {a : Bytes} {fuel : ℕ}
    {o : Scanned HttpContext UInt8 Bool} (h : scanner.scan fuel ctx a = some o) :
    ctx.parsed a = some (outcome o) := by
  obtain ⟨o', ho'⟩ := scan_ends hctx (Nat.lt_succ_self a.length)
  rw [parsed, ho', scanner.scan_unique ho' h, Option.map_some]

/-- In `kGotAll` the loop never ends. -/
theorem parseLoop_gotAll {ctx : HttpContext} (hctx : ctx.state = .kGotAll) (buf : ValidBuffer)
    (fuel : ℕ) : parseLoop fuel ctx buf = none := by
  induction fuel with
  | zero => rfl
  | succ fuel ih => rw [parseLoop, hctx, ih]

theorem scanStep_wait {ctx : HttpContext} {a : Bytes} (h : scanStep ctx a = .wait) :
    ctx.state ≠ .kGotAll := by
  intro hs
  rw [scanStep, hs] at h
  cases h

theorem scanStep_halt {ctx ctx' : HttpContext} {a : Bytes} {ok : Bool}
    (h : scanStep ctx a = .halt ok ctx') :
    ok = false ∧ ctx.state = .kExpectRequestLine ∧ ctx'.state = .kExpectRequestLine ∨
      ok = true ∧ ctx'.state = .kGotAll := by
  unfold scanStep at h
  cases hs : ctx.state with
  | kExpectRequestLine =>
    cases hi : search Buffer.kCRLF a with
    | none => simp only [hs, hi, reduceCtorEq] at h
    | some i =>
      simp only [hs, hi] at h
      split_ifs at h
      cases h
      exact Or.inl ⟨rfl, rfl, hs⟩
  | kExpectHeaders =>
    cases hi : search Buffer.kCRLF a <;> simp only [hs, hi, reduceCtorEq] at h
  | kExpectBody =>
    simp only [hs] at h
    cases h
    exact Or.inr ⟨rfl, rfl⟩
  | kGotAll => simp only [hs, reduceCtorEq] at h

/-- The parse goes on with later bytes: it has neither failed nor reached `kGotAll`. -/
def goesOn {β : Type} (p : Parsed β) : Prop := p.ok = true ∧ p.ctx.state ≠ .kGotAll

instance {β : Type} (p : Parsed β) : Decidable (goesOn p) :=
  inferInstanceAs (Decidable (_ ∧ _))

theorem not_goesOn_of_halt {ctx ctx' : HttpContext} {a rest : Bytes} {ok : Bool}
    (h : scanStep ctx a = .halt ok ctx') : ¬ goesOn (outcome (.halted ok ctx' rest)) := by
  rintro ⟨hok, hstate⟩
  rcases scanStep_halt h with ⟨hfail, _⟩ | ⟨_, hall⟩
  · exact Bool.false_ne_true (hfail.symm.trans hok)
  · exact hstate hall

theorem state_of_not_ok {ctx : HttpContext} {a : Bytes} {p : Parsed Bytes}
    (hp : ctx.parsed a = some p) (hok : p.ok = false) : p.ctx.state = .kExpectRequestLine := by
  obtain ⟨o, ho, rfl⟩ := Option.map_eq_some_iff.mp hp
  cases o with
  | waiting ctx' rest => cases hok
  | halted ok ctx' rest =>
    obtain ⟨u, hu⟩ := scanner.scan_halted ho
    rcases scanStep_halt hu with ⟨_, _, hstate⟩ | ⟨htrue, _⟩
    · exact hstate
    · exact absurd (htrue.symm.trans hok) Bool.true_eq_false_eq_False

/-- One parse of `a ++ b`, from the parse of `a`: it resumes when the parse of `a` goes on, and
only keeps `b` when that parse has ended. -/
theorem parsed_append {ctx : HttpContext} (hctx : ctx.state ≠ .kGotAll) {a : Bytes}
    {p : Parsed Bytes} (hp : ctx.parsed a = some p) (b : Bytes) :
    ctx.parsed (a ++ b) =
      if goesOn p then p.ctx.parsed (p.rest ++ b) else some ⟨p.ok, p.ctx, p.rest ++ b⟩ := by
  obtain ⟨o, ho, rfl⟩ := Option.map_eq_some_iff.mp hp
  obtain ⟨o', ho'⟩ := scan_ends hctx (Nat.lt_succ_self (a ++ b).length)
  cases o with
  | waiting ctx' rest =>
    have hwait : ctx'.state ≠ .kGotAll := scanStep_wait (scanner.scan_waiting ho)
    have hon : goesOn (outcome (.waiting ctx' rest)) := ⟨rfl, hwait⟩
    obtain ⟨o'', ho''⟩ := scan_ends hwait (Nat.lt_succ_self (rest ++ b).length)
    have hres : scanner.resume ((rest ++ b).length + 1) b (.waiting ctx' rest) = some o'' := ho''
    have happ := scanner.scan_append ho hres
    rw [if_pos hon, parsed, ho', scanner.scan_unique ho' happ]
    change _ = (scanner.scan ((rest ++ b).length + 1) ctx' (rest ++ b)).map outcome
    rw [ho'']
  | halted ok ctx' rest =>
    obtain ⟨u, hu⟩ := scanner.scan_halted ho
    have happ := scanner.scan_append ho (b := b) (g := 0) rfl
    rw [if_neg (not_goesOn_of_halt hu), parsed, ho', scanner.scan_unique ho' happ]
    rfl

theorem parsed_unended {ctx : HttpContext} (hctx : ctx.state = .kExpectRequestLine) {a : Bytes}
    (ha : search Buffer.kCRLF a = none) : ctx.parsed a = some ⟨true, ctx, a⟩ := by
  have hwait : scanner.step ctx a = .wait := by
    simp only [scanner_step, scanStep, hctx, ha]
  rw [parsed, scanner.scan_wait hwait]
  rfl

theorem parsed_line {ctx : HttpContext} (hctx : ctx.state = .kExpectRequestLine) {a : Bytes} {i : ℕ}
    (ha : search Buffer.kCRLF a = some i) :
    ctx.parsed a =
      if (ctx.processRequestLine (a.take i)).1 then
        (scanner.scan a.length (ctx.processRequestLine (a.take i)).2.receiveRequestLine
          (a.drop (i + 2))).map outcome
      else some ⟨false, (ctx.processRequestLine (a.take i)).2, a⟩ := by
  rw [parsed]
  split_ifs with hok
  · have hstep : scanner.step ctx a =
        .advance (ctx.processRequestLine (a.take i)).2.receiveRequestLine (i + 2) := by
      simp only [scanner_step, scanStep, hctx, ha, if_pos hok]
    rw [scanner.scan_advance hstep]
  · have hstep : scanner.step ctx a = .halt false (ctx.processRequestLine (a.take i)).2 := by
      simp only [scanner_step, scanStep, hctx, ha, if_neg hok]
    rw [scanner.scan_halt hstep]
    rfl

theorem scanStep_past_line {ctx ctx' : HttpContext} {a : Bytes} {n : ℕ}
    (hctx : ctx.state ≠ .kExpectRequestLine) (h : scanStep ctx a = .advance ctx' n) :
    ctx'.state ≠ .kExpectRequestLine := by
  unfold scanStep at h
  cases hs : ctx.state with
  | kExpectRequestLine => exact absurd hs hctx
  | kExpectHeaders =>
    cases hi : search Buffer.kCRLF a with
    | none => simp only [hs, hi, reduceCtorEq] at h
    | some i =>
      simp only [hs, hi] at h
      cases h
      unfold processHeader
      split
      · exact hctx
      · exact HttpRequestParseState.noConfusion
  | kExpectBody => simp only [hs, reduceCtorEq] at h
  | kGotAll =>
    simp only [hs] at h
    cases h
    exact hctx

theorem ok_of_scan {ctx : HttpContext} (hctx : ctx.state ≠ .kExpectRequestLine) {a : Bytes}
    {fuel : ℕ} {o : Scanned HttpContext UInt8 Bool} (h : scanner.scan fuel ctx a = some o) :
    (outcome o).ok = true := by
  cases o with
  | waiting ctx' rest => rfl
  | halted ok ctx' rest =>
    obtain ⟨u, hu, hhalt⟩ := scanner.scan_halted_invariant
      (fun _ _ _ _ hs hstep => scanStep_past_line hs hstep) hctx h
    rcases scanStep_halt hhalt with ⟨_, hstate, _⟩ | ⟨hok, _⟩
    · exact absurd hstate hu
    · exact hok

/-- The delivery of further bytes to a parse: they are appended to the buffer, and the parse runs
again as long as it goes on. -/
def deliver (p : Parsed ValidBuffer) (chunk : Bytes) : Option (Parsed ValidBuffer) :=
  if goesOn p then p.ctx.parseRequest (p.rest.append chunk)
  else some { p with rest := p.rest.append chunk }

/-- The parse of a stream that arrives in chunks, the first of them `chunk`. -/
def parseChunks (ctx : HttpContext) (buf : ValidBuffer) (chunk : Bytes) (chunks : List Bytes) :
    Option (Parsed ValidBuffer) :=
  (ctx.parseRequest (buf.append chunk)).bind fun p => chunks.foldlM deliver p

/-- A delivery turns the parse of `a` into the parse of `a` and the delivered bytes. -/
theorem deliver_spec {ctx : HttpContext} (hctx : ctx.state ≠ .kGotAll) {a : Bytes}
    {p : Parsed ValidBuffer} (hp : ctx.parsed a = some p.view) (chunk : Bytes) :
    ∃ q, deliver p chunk = some q ∧ ctx.parsed (a ++ chunk) = some q.view := by
  rw [parsed_append hctx hp]
  by_cases h : goesOn p
  · obtain ⟨q, hq, hview⟩ := parseRequest_spec h.2 (p.rest.append chunk)
    refine ⟨q, by rw [deliver, if_pos h, hq], ?_⟩
    have hon : goesOn p.view := h
    rw [if_pos hon, ← hview, ValidBuffer.readable_append]
    rfl
  · have hend : ¬ goesOn p.view := h
    refine ⟨_, by rw [deliver, if_neg h], ?_⟩
    have hkept : (⟨p.ok, p.ctx, p.rest.append chunk⟩ : Parsed ValidBuffer).view =
        ⟨p.ok, p.ctx, p.rest.readable ++ chunk⟩ := by
      rw [Parsed.view, ValidBuffer.readable_append]
    rw [if_neg hend, hkept]
    rfl

theorem deliver_all {ctx : HttpContext} (hctx : ctx.state ≠ .kGotAll) {a : Bytes}
    {p : Parsed ValidBuffer} (hp : ctx.parsed a = some p.view) (chunks : List Bytes) :
    ∃ q, chunks.foldlM deliver p = some q ∧ ctx.parsed (a ++ chunks.flatten) = some q.view := by
  induction chunks generalizing a p with
  | nil => exact ⟨p, rfl, by rw [List.flatten_nil, List.append_nil, hp]⟩
  | cons chunk chunks ih =>
    obtain ⟨q, hq, hview⟩ := deliver_spec hctx hp chunk
    obtain ⟨r, hr, hrest⟩ := ih hview
    refine ⟨r, ?_, ?_⟩
    · rw [List.foldlM_cons, hq]
      exact hr
    · rw [List.flatten_cons, ← List.append_assoc, hrest]

/-- Parsing does not depend on how the bytes are split. Parsing `a` and then, when that goes on,
the rest with `b` appended gives what one parse of `a ++ b` gives; a parse of `a` that has ended is
also the parse of `a ++ b`, with `b` left unread. The same holds for any number of chunks. -/
theorem parseRequest_split {ctx : HttpContext} (hctx : ctx.state ≠ .kGotAll) :
    (∀ (bufA bufAB : ValidBuffer) (b : Bytes), bufAB.readable = bufA.readable ++ b →
      ∃ p q, ctx.parseRequest bufA = some p ∧ ctx.parseRequest bufAB = some q ∧
        (p.ok = true → p.ctx.state ≠ .kGotAll →
          ∃ r, p.ctx.parseRequest (p.rest.append b) = some r ∧ r.view = q.view) ∧
        (p.ok = false ∨ p.ctx.state = .kGotAll →
          q.ok = p.ok ∧ q.ctx = p.ctx ∧ q.rest.readable = p.rest.readable ++ b)) ∧
    ∀ (buf whole : ValidBuffer) (chunk : Bytes) (chunks : List Bytes),
      whole.readable = buf.readable ++ (chunk :: chunks).flatten →
      ∃ p q, ctx.parseChunks buf chunk chunks = some p ∧ ctx.parseRequest whole = some q ∧
        p.view = q.view := by
  constructor
  · intro bufA bufAB b hAB
    obtain ⟨p, hp, hpv⟩ := parseRequest_spec hctx bufA
    obtain ⟨q, hq, hqv⟩ := parseRequest_spec hctx bufAB
    rw [hAB, parsed_append hctx hpv] at hqv
    refine ⟨p, q, hp, hq, ?_, ?_⟩
    · intro hok hstate
      have hon : goesOn p.view := ⟨hok, hstate⟩
      obtain ⟨r, hr, hrv⟩ := parseRequest_spec hstate (p.rest.append b)
      rw [if_pos hon] at hqv
      rw [ValidBuffer.readable_append] at hrv
      exact ⟨r, hr, Option.some.inj (hrv.symm.trans hqv)⟩
    · intro hend
      have hoff : ¬ goesOn p.view := by
        rintro ⟨hok, hstate⟩
        rcases hend with hfail | hall
        · exact Bool.false_ne_true (hfail.symm.trans hok)
        · exact hstate hall
      rw [if_neg hoff] at hqv
      have heq : q.view = ⟨p.ok, p.ctx, p.rest.readable ++ b⟩ := (Option.some.inj hqv).symm
      rw [Parsed.view, Parsed.mk.injEq] at heq
      exact heq
  · intro buf whole chunk chunks hwhole
    obtain ⟨p, hp, hpv⟩ := parseRequest_spec hctx (buf.append chunk)
    obtain ⟨q, hq, hqv⟩ := deliver_all hctx hpv chunks
    obtain ⟨r, hr, hrv⟩ := parseRequest_spec hctx whole
    refine ⟨q, r, ?_, hr, ?_⟩
    · rw [parseChunks, hp, Option.bind_some, hq]
    · rw [ValidBuffer.readable_append, List.append_assoc, ← List.flatten_cons, ← hwhole] at hqv
      exact Option.some.inj (hqv.symm.trans hrv)

/-- A request that is cut between the two bytes of a line end. -/
theorem cutLineEnd_split : ∃ p q,
    init.parseChunks ValidBuffer.empty (ascii "GET / HTTP/1.1\r") [ascii "\nHost: a\r\n\r\n"] =
      some p ∧
    init.parseRequest (ValidBuffer.empty.append (ascii "GET / HTTP/1.1\r\nHost: a\r\n\r\n")) =
      some q ∧ p.view = q.view :=
  (parseRequest_split (by decide)).2 _ _ _ _ (by
    rw [ValidBuffer.readable_append]
    rfl)

end HttpContext

end Matelib
