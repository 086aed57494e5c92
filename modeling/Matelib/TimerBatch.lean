import Matelib.TimerPeriod

/-!
# The timers of a batch

`getExpired` takes the expired entries out of the set before their callbacks run. So every callback
of a batch runs once, in the order of the entries, and whatever the callbacks add and cancel can
only change whether the timers are restarted. A one-shot timer is found in one batch at most, and
its callback runs in that batch and in no other.
-/

namespace Matelib

namespace TimerRuns

open TimerQueue Transition

namespace Chronicle

variable {c d : Chronicle} {i : ℕ} {r : Record} {e : Event}

/-- The time of a `handleRead` whose `getExpired` finds the timer in `timers_`. -/
def finds (c : Chronicle) (i : ℕ) : Event → List ℤ
  | .handleRead now _ =>
    if (getExpired c.state.queue.timers now).any fun r =>
        r.1.any fun entry => c.ledger.owner.find entry.timer = some i
    then [now] else []
  | _ => []

/-- The times of all such `handleRead` in a run, in their order. -/
def found (i : ℕ) : Chronicle → List Event → List ℤ
  | _, [] => []
  | c, e :: events => c.finds i e ++ (c.step e).elim [] fun d => found i d events

theorem Kept.finds_eq (h : c.Kept) (i : ℕ) (now : ℤ) (fired : Bool) :
    c.finds i (.handleRead now fired) = [now] ∧
        (∃ r, c.ledger.Lives i r ∧ r.timerId ∈ c.state.queue.timers ∧ r.time ≤ now) ∨
      c.finds i (.handleRead now fired) = [] ∧
        ∀ r, c.ledger.Lives i r → r.timerId ∈ c.state.queue.timers → now < r.time := by
  obtain ⟨expired, rest, hsplit, hexpired, -⟩ :=
    getExpired_spec (fun e he => h.owned.bound _ (h.owned.mem_heap he)) now
  have hfinds : c.finds i (.handleRead now fired) =
      if ∃ e ∈ expired, c.ledger.owner.find e.timer = some i then [now] else [] := by
    simp only [finds, hsplit, Option.any_some, List.any_eq_true, decide_eq_true_eq]
  rw [hfinds]
  split_ifs with hfound
  · obtain ⟨e, he, howner⟩ := hfound
    obtain ⟨hmem, hdue⟩ := (hexpired e).mp he
    obtain ⟨j, r, hlives, htimer⟩ := h.known _ (h.owned.mem_heap hmem)
    rw [← htimer, hlives.owner, Option.some.injEq] at howner
    subst howner
    cases h.registered hlives hmem htimer.symm
    exact .inl ⟨rfl, r, hlives, hmem, hdue⟩
  · refine .inr ⟨rfl, ?_⟩
    intro r hlives hmem
    by_contra hdue
    exact hfound ⟨_, (hexpired _).mpr ⟨hmem, not_lt.mp hdue⟩, hlives.owner⟩

/-- The entry of the timer is in the current batch. -/
def InBatch (c : Chronicle) (r : Record) : Prop :=
  ∃ f, c.state.frame = some f ∧ r.timerId ∈ f.expired

/-- What `times` tells, when `handleRead` has found the one-shot timer `i` at the times `found`. -/
structure OneShot (c : Chronicle) (i : ℕ) (found : List ℤ) : Prop where
  unmade : c.ledger.records.length ≤ i → found = []
  waiting : ∀ r, c.ledger.Lives i r → r.repeats = false → ¬c.InBatch r → found = []
  batch : ∀ r, c.ledger.Lives i r → r.repeats = false → ∀ f, c.state.frame = some f →
    r.timerId ∈ f.expired → found = [f.now] ∧ (r.timerId ∉ f.remaining → c.ledger.times i = [f.now])
  gone : ∀ r, c.ledger.records[i]? = some r → r.repeats = false → i ∈ c.ledger.deleted →
    c.ledger.times i = found ∧ found.length ≤ 1 ∧ ∀ now ∈ found, r.time ≤ now

theorem Scheduled.times_eq_nil (h : c.Scheduled) (hlives : c.ledger.Lives i r)
    (hshot : r.repeats = false) (hnot : ¬c.HasRun r) : c.ledger.times i = [] := by
  obtain ⟨t, ht⟩ := OrderedMap.find_of_mem (h.kept.mem_heap hlives)
  rcases (h.clocked i r hlives t ht).due hnot with ⟨hnil, -⟩ | ⟨a, -, hrepeats, -⟩
  · exact hnil
  · cases hshot.symm.trans hrepeats

theorem Scheduled.times_of_not_inBatch (h : c.Scheduled) (hlives : c.ledger.Lives i r)
    (hshot : r.repeats = false) (hnot : ¬c.InBatch r) : c.ledger.times i = [] := by
  apply h.times_eq_nil hlives hshot
  rintro ⟨f, hf, hexpired, -⟩
  exact hnot ⟨f, hf, hexpired⟩

theorem oneShot_init (i : ℕ) : OneShot init i [] where
  unmade _ := rfl
  waiting _ _ _ _ := rfl
  batch _ hlives := nomatch hlives.record
  gone _ hr := nomatch hr

theorem OneShot.of_frame {found : List ℤ} (ho : c.OneShot i found) (h : c.Scheduled)
    (he : c.Allowed e) (hstep : c.step e = some d) (hframe : d.state.frame = c.state.frame)
    (htimes : d.ledger.times i = c.ledger.times i)
    (hnew : ∀ r, c.ledger.records.length ≤ i → d.ledger.Lives i r → ¬c.InBatch r) :
    d.OneShot i found := by
  have hkept := (h.kept.of_step he hstep).2.1
  have hrecord : ∀ r, i < c.ledger.records.length → d.ledger.records[i]? = some r →
      c.ledger.records[i]? = some r := by
    intro r hi hr
    have hr' := h.kept.record_step he hstep (List.getElem?_eq_getElem hi)
    rw [hr, Option.some.injEq] at hr'
    rw [hr', List.getElem?_eq_getElem hi]
  have hbatch : ∀ r, d.InBatch r ↔ c.InBatch r := by
    intro r
    rw [InBatch, InBatch, hframe]
  refine ⟨?_, ?_, ?_, ?_⟩
  · intro hi
    refine ho.unmade (le_of_not_gt fun hlt => ?_)
    obtain ⟨hlt', -⟩ := List.getElem?_eq_some_iff.mp
      (h.kept.record_step he hstep (List.getElem?_eq_getElem hlt))
    exact absurd hi (not_le_of_gt hlt')
  · intro r hlives hshot hnot
    by_cases hi : i < c.ledger.records.length
    · exact ho.waiting r (h.kept.lives_before he hstep hlives hi) hshot
        (mt (hbatch r).mpr hnot)
    · exact ho.unmade (not_lt.mp hi)
  · intro r hlives hshot f hf hexpired
    rw [htimes]
    by_cases hi : i < c.ledger.records.length
    · exact ho.batch r (h.kept.lives_before he hstep hlives hi) hshot f (hframe ▸ hf) hexpired
    · exact absurd ⟨f, hframe ▸ hf, hexpired⟩ (hnew r (not_lt.mp hi) hlives)
  · intro r hr hshot hd
    rw [htimes]
    by_cases hdeleted : i ∈ c.ledger.deleted
    · exact ho.gone r (hrecord r (h.kept.deleted_lt i hdeleted) hr) hshot hdeleted
    · obtain ⟨r', hlives, hdead⟩ := h.kept.freed_of_deleted he hstep hdeleted hd
      have hlt := (List.getElem?_eq_some_iff.mp hlives.record).1
      obtain rfl : r' = r := Option.some.inj (hlives.record.symm.trans (hrecord r hlt hr))
      -- the timers of the batch are alive behind the step
      have hnot : ¬c.InBatch r' := by
        rintro ⟨f, hf, hexpired⟩
        exact hdead ((hkept.owned.frame f (hframe.trans hf)).mem_heap hexpired)
      rw [ho.waiting r' hlives hshot hnot, h.times_of_not_inBatch hlives hshot hnot]
      exact ⟨rfl, Nat.zero_le 1, fun now hnow => absurd hnow List.not_mem_nil⟩

theorem OneShot.handleRead {found : List ℤ} (ho : c.OneShot i found) (h : c.Scheduled) {now : ℤ}
    {fired : Bool} (he : c.Allowed (.handleRead now fired))
    (hstep : c.step (.handleRead now fired) = some d) :
    d.OneShot i (found ++ c.finds i (.handleRead now fired)) := by
  obtain ⟨t, rfl, hmove, hkept⟩ := h.kept.eq_of_step he hstep
  cases hmove with
  | @handleRead _ _ expired rest fd hf hexpired hrest =>
    -- the ledger does not change
    have hlives : ∀ r, Ledger.Lives (Ledger.delete (c.ledger.note c.state (.handleRead now fired))
        (freed c.state.heap c.state.heap)) i r → c.ledger.Lives i r := by
      intro r hlives
      have hlt := (List.getElem?_eq_some_iff.mp hlives.record).1
      exact h.kept.lives_before he hstep hlives hlt
    have hidle : ∀ r, ¬c.InBatch r := by
      rintro r ⟨f, hf', -⟩
      cases hf.symm.trans hf'
    have hfinds := h.kept.finds_eq i now fired
    refine ⟨?_, ?_, ?_, ?_⟩
    · intro hi
      rw [ho.unmade hi]
      rcases hfinds with ⟨-, r, hl, -⟩ | ⟨hnone, -⟩
      · exact absurd (List.getElem?_eq_some_iff.mp hl.record).1 (not_lt_of_ge hi)
      · exact hnone
    · intro r hl hshot hnot
      have hl := hlives r hl
      rw [ho.waiting r hl hshot (hidle r)]
      rcases hfinds with ⟨-, r', hl', hmem, hdue⟩ | ⟨hnone, -⟩
      · obtain rfl : r' = r := Option.some.inj (hl'.record.symm.trans hl.record)
        exact absurd ⟨_, rfl, (hexpired _).mpr ⟨hmem, hdue⟩⟩ hnot
      · exact hnone
    · rintro r hl hshot f ⟨⟩ hmem
      have hl := hlives r hl
      obtain ⟨hmem', hdue⟩ := (hexpired _).mp hmem
      rw [ho.waiting r hl hshot (hidle r)]
      refine ⟨?_, fun hnot => absurd hmem hnot⟩
      rcases hfinds with ⟨hsome, -⟩ | ⟨-, hlater⟩
      · exact hsome
      · exact absurd hdue (not_le_of_gt (hlater r hl hmem'))
    · intro r hr hshot hd
      have hdeleted := h.kept.deleted_of_heap_eq he hstep rfl hd
      rcases hfinds with ⟨-, r', hl, -⟩ | ⟨hnone, -⟩
      · exact absurd hdeleted hl.deleted
      · rw [hnone, List.append_nil]
        exact ho.gone r hr hshot hdeleted

theorem OneShot.runTimer {found : List ℤ} (ho : c.OneShot i found) (h : c.Scheduled)
    (he : c.Allowed .runTimer) (hstep : c.step .runTimer = some d) : d.OneShot i found := by
  obtain ⟨t, rfl, hmove, hkept⟩ := h.kept.eq_of_step he hstep
  cases hmove with
  | @runTimer f entry rest hf hremaining =>
    obtain ⟨j, rj, x, hj, hentry, hx, hrecords, hruns⟩ :=
      h.kept.runner_step he hstep hf hremaining
    have htimes := Ledger.times_concat hruns
    dsimp only at hrecords htimes
    have hlives : ∀ r, (Ledger.delete (c.ledger.note c.state .runTimer)
        (freed c.state.heap c.state.heap)).Lives i r → c.ledger.Lives i r := by
      intro r hl
      have hlt := (List.getElem?_eq_some_iff.mp hl.record).1
      rw [hrecords] at hlt
      exact h.kept.lives_before he hstep hl hlt
    have hmem : entry ∈ f.remaining := hremaining ▸ List.mem_cons_self
    have hexpired := (h.kept.owned.frame f hf).remaining_sub hmem
    refine ⟨?_, ?_, ?_, ?_⟩
    · intro hi
      rw [hrecords] at hi
      exact ho.unmade hi
    · intro r hl hshot hnot
      refine ho.waiting r (hlives r hl) hshot ?_
      rintro ⟨f', hf', hin⟩
      cases hf.symm.trans hf'
      exact hnot ⟨_, rfl, hin⟩
    · rintro r hl hshot f' ⟨⟩ hin
      have hl := hlives r hl
      obtain ⟨hfound, hran⟩ := ho.batch r hl hshot f hf hin
      refine ⟨hfound, fun hgone => ?_⟩
      rw [htimes]
      split_ifs with heq
      · -- its callback has not run before
        subst heq
        obtain rfl : r = rj := Option.some.inj (hl.record.symm.trans hj.record)
        have hnil : c.ledger.times j = [] := by
          apply h.times_eq_nil hl hshot
          rintro ⟨f', hf', -, hnot⟩
          cases hf.symm.trans hf'
          exact hnot (hentry ▸ hmem)
        rw [hnil]
        rfl
      · apply hran
        rw [hremaining, List.mem_cons, not_or]
        refine ⟨?_, hgone⟩
        intro hid
        exact heq (lives_unique hj hl (congrArg Entry.timer (hentry.trans hid.symm))).1
    · intro r hr hshot hd
      have hdeleted := h.kept.deleted_of_heap_eq he hstep rfl hd
      rw [htimes, if_neg ?_]
      · exact ho.gone r (hrecords ▸ hr) hshot hdeleted
      · rintro rfl
        exact hj.deleted hdeleted

theorem OneShot.endRead {found : List ℤ} (ho : c.OneShot i found) (h : c.Scheduled) {now : ℤ}
    (he : c.Allowed (.endRead now)) (hstep : c.step (.endRead now) = some d) :
    d.OneShot i found := by
  obtain ⟨t, rfl, hmove, hkept⟩ := h.kept.eq_of_step he hstep
  cases hmove with
  | @endRead _ f timers heap fd hf hremaining hreset =>
    have hlives : ∀ r, (Ledger.delete (c.ledger.note c.state (.endRead now))
        (freed c.state.heap heap)).Lives i r → c.ledger.Lives i r := by
      intro r hl
      exact h.kept.lives_before he hstep hl (List.getElem?_eq_some_iff.mp hl.record).1
    -- a one-shot timer of the batch is deleted
    have hdead : ∀ r, c.ledger.Lives i r → r.repeats = false → r.timerId ∈ f.expired →
        r.timer ∉ heap := by
      intro r hl hshot hin
      obtain ⟨x, hx⟩ := (h.kept.owned.frame f hf).live _ hin
      have hown := hreset.own _ hin x hx
      have hnot : ¬restarts c.state.queue.cancelingTimers r.timerId x = true := by
        rw [restarts, Timer.repeats, (h.clocked i r hl x hx).interval, ← Record.repeats, hshot]
        exact Bool.false_ne_true
      rw [if_neg hnot] at hown
      rw [OrderedMap.mem_iff]
      exact not_not.mpr hown
    refine ⟨ho.unmade, ?_, ?_, ?_⟩
    · intro r hl hshot hnot
      have hl' := hlives r hl
      refine ho.waiting r hl' hshot ?_
      rintro ⟨f', hf', hin⟩
      cases hf.symm.trans hf'
      exact hdead r hl' hshot hin (hkept.mem_heap hl)
    · rintro r hl hshot f' hf'
      cases hf'
    · intro r hr hshot hd
      change c.ledger.times i = found ∧ _
      by_cases hdeleted : i ∈ c.ledger.deleted
      · exact ho.gone r hr hshot hdeleted
      · obtain ⟨r', hl, hfreed⟩ := h.kept.freed_of_deleted he hstep hdeleted hd
        obtain rfl : r' = r := Option.some.inj (hl.record.symm.trans hr)
        have hin : r'.timerId ∈ f.expired := by
          by_contra hnot
          apply hfreed
          rw [OrderedMap.mem_iff, hreset.other]
          · exact h.kept.mem_heap hl
          · intro hmem
            obtain ⟨e, hmem, htimer⟩ := List.mem_map.mp hmem
            exact hnot (h.kept.expired hl hf hmem htimer ▸ hmem)
        obtain ⟨hfound, hran⟩ := ho.batch r' hl hshot f hf hin
        rw [hfound, hran (hremaining ▸ List.not_mem_nil)]
        refine ⟨rfl, le_rfl, ?_⟩
        intro now hnow
        rw [List.mem_singleton.mp hnow]
        exact h.past f hf _ hin

theorem OneShot.step {found : List ℤ} (ho : c.OneShot i found) (h : c.Scheduled)
    (he : c.Allowed e) (hstep : c.step e = some d) : d.OneShot i (found ++ c.finds i e) := by
  cases e with
  | handleRead now fired => exact ho.handleRead h he hstep
  | runTimer =>
    change d.OneShot i (found ++ [])
    rw [List.append_nil]
    exact ho.runTimer h he hstep
  | endRead now =>
    change d.OneShot i (found ++ [])
    rw [List.append_nil]
    exact ho.endRead h he hstep
  | newTimer timer time intervalInSec =>
    change d.OneShot i (found ++ [])
    rw [List.append_nil]
    obtain ⟨t, rfl, hmove, -⟩ := h.kept.eq_of_step he hstep
    cases hmove with
    | newTimer hnew =>
      refine ho.of_frame h he hstep rfl rfl ?_
      rintro r hi hl ⟨f, hf, hin⟩
      have hr := hl.record
      rcases Segment.getElem?_concat_eq_some.mp hr with hr | ⟨-, rfl⟩
      · exact absurd (List.getElem?_eq_some_iff.mp hr).1 (not_lt_of_ge hi)
      · exact hnew ((h.kept.owned.frame f hf).mem_heap hin)
  | addTimerInLoop timer now =>
    change d.OneShot i (found ++ [])
    rw [List.append_nil]
    obtain ⟨t, rfl, hmove, -⟩ := h.kept.eq_of_step he hstep
    cases hmove with
    | add hmem hx =>
      refine ho.of_frame h he hstep rfl rfl ?_
      intro r hi hl
      exact absurd (List.getElem?_eq_some_iff.mp hl.record).1 (not_lt_of_ge hi)
  | cancelTimerInLoop timerId =>
    change d.OneShot i (found ++ [])
    rw [List.append_nil]
    obtain ⟨t, rfl, hmove, -⟩ := h.kept.eq_of_step he hstep
    have hnew : ∀ r, c.ledger.records.length ≤ i →
        (Ledger.delete (c.ledger.note c.state (.cancelTimerInLoop timerId))
          (freed c.state.heap t.heap)).Lives i r → ¬c.InBatch r := by
      intro r hi hl
      exact absurd (List.getElem?_eq_some_iff.mp hl.record).1 (not_lt_of_ge hi)
    cases hmove with
    | cancel hmem => exact ho.of_frame h he hstep rfl rfl hnew
    | cancelExpired hmem hf => exact ho.of_frame h he hstep rfl rfl hnew
    | cancelNone hmem hf => exact ho.of_frame h he hstep rfl rfl hnew

theorem OneShot.run {events : List Event} {found₀ : List ℤ} (ho : c.OneShot i found₀)
    (h : c.Scheduled) (hevents : Along Chronicle.step Allowed c events) :
    ∃ d, runFrom Chronicle.step c events = some d ∧ d.Scheduled ∧
      d.OneShot i (found₀ ++ found i c events) := by
  induction events generalizing c found₀ with
  | nil =>
    refine ⟨c, rfl, h, ?_⟩
    rw [found, List.append_nil]
    exact ho
  | cons e events ih =>
    obtain ⟨d, hstep, -, -⟩ := h.kept.step hevents.1
    obtain ⟨t, hrun, ht, hto⟩ :=
      ih (ho.step h hevents.1 hstep) (h.step hevents.1 hstep) (hevents.2 d hstep)
    refine ⟨t, (runFrom_cons ..).mpr ⟨d, hstep, hrun⟩, ht, ?_⟩
    rw [found, hstep, Option.elim_some, ← List.append_assoc]
    exact hto

theorem OneShot.once {found : List ℤ} (ho : c.OneShot i found) (h : c.Scheduled)
    (hr : c.ledger.records[i]? = some r) (hshot : r.repeats = false) :
    found.length ≤ 1 ∧ (∀ now ∈ found, r.time ≤ now) ∧ c.ledger.times i <+: found ∧
      (c.state.frame = none → c.ledger.times i = found) := by
  by_cases hdeleted : i ∈ c.ledger.deleted
  · obtain ⟨htimes, hlength, hpast⟩ := ho.gone r hr hshot hdeleted
    exact ⟨hlength, hpast, htimes ▸ List.prefix_rfl, fun _ => htimes⟩
  have hlives := h.kept.owner i r hr hdeleted
  by_cases hbatch : c.InBatch r
  · obtain ⟨f, hf, hin⟩ := hbatch
    obtain ⟨rfl, hran⟩ := ho.batch r hlives hshot f hf hin
    refine ⟨le_rfl, ?_, ?_, ?_⟩
    · intro now hnow
      rw [List.mem_singleton.mp hnow]
      exact h.past f hf _ hin
    · by_cases hremaining : r.timerId ∈ f.remaining
      · rw [h.times_eq_nil hlives hshot]
        · exact List.nil_prefix
        · rintro ⟨f', hf', -, hgone⟩
          cases hf.symm.trans hf'
          exact hgone hremaining
      · rw [hran hremaining]
    · intro hidle
      cases hf.symm.trans hidle
  · rw [ho.waiting r hlives hshot hbatch, h.times_of_not_inBatch hlives hshot hbatch]
    exact ⟨Nat.zero_le 1, fun _ hnow => absurd hnow List.not_mem_nil, List.prefix_rfl, fun _ => rfl⟩

theorem Kept.batch_cases (h : c.Kept) (he : c.Allowed e) (hstep : c.step e = some d)
    (hend : ∀ clock, e ≠ .endRead clock) {f : Frame} (hf : c.state.frame = some f) :
    (d.state.frame = some f ∧ d.ledger.runs = c.ledger.runs) ∨
      ∃ entry rest j rj, f.remaining = entry :: rest ∧ c.ledger.Lives j rj ∧ rj.timerId = entry ∧
        d.state.frame = some { f with remaining := rest } ∧
        d.ledger.runs = c.ledger.runs ++ [(j, f.now)] := by
  obtain ⟨t, rfl, hmove, -⟩ := h.eq_of_step he hstep
  cases hmove with
  | handleRead hf' => cases hf.symm.trans hf'
  | @runTimer f' entry rest hf' hremaining =>
    cases hf.symm.trans hf'
    obtain ⟨j, rj, x, hj, hentry, -, -, hruns⟩ := h.runner_step he hstep hf hremaining
    exact .inr ⟨entry, rest, j, rj, hremaining, hj, hentry, rfl, hruns⟩
  | @endRead now => exact absurd rfl (hend now)
  | _ => exact .inl ⟨hf, rfl⟩

def idOf (c : Chronicle) (p : ℕ × ℤ) : Option Entry :=
  (c.ledger.records[p.1]?).map Record.timerId

/-- Since `handleRead` found the entries `expired`, callbacks have run in their order. -/
def InTurn (expired : List Entry) (runs : List (ℕ × ℤ)) (c : Chronicle) : Prop :=
  ∃ f ran done, c.state.frame = some f ∧ c.ledger.runs = runs ++ ran ∧
    expired = done ++ f.remaining ∧ ran.map c.idOf = done.map some

theorem Kept.inTurn_step (h : c.Kept) (he : c.Allowed e) (hstep : c.step e = some d)
    (hend : ∀ clock, e ≠ .endRead clock) {expired : List Entry} {runs : List (ℕ × ℤ)}
    (hturn : c.InTurn expired runs) : d.InTurn expired runs := by
  obtain ⟨f, ran, done, hf, hruns, hdone, hran⟩ := hturn
  have hkeep : ran.map d.idOf = done.map some := by
    rw [← hran]
    apply List.map_congr_left
    intro p hp
    have hmem : c.idOf p ∈ done.map some := hran ▸ List.mem_map_of_mem hp
    obtain ⟨e, -, hid⟩ := List.mem_map.mp hmem
    obtain ⟨r, hr, -⟩ := Option.map_eq_some_iff.mp hid.symm
    rw [idOf, idOf, hr, h.record_step he hstep hr]
  rcases h.batch_cases he hstep hend hf with
    ⟨hframe, hsame⟩ | ⟨entry, rest, j, rj, hremaining, hj, hentry, hframe, hnext⟩
  · exact ⟨f, ran, done, hframe, hsame.trans hruns, hdone, hkeep⟩
  · refine ⟨_, ran ++ [(j, f.now)], done ++ [entry], hframe, ?_, ?_, ?_⟩
    · rw [hnext, hruns, List.append_assoc]
    · rw [hdone, hremaining, List.append_assoc]
      rfl
    · have hnext : d.idOf (j, f.now) = some entry := by
        rw [idOf, h.record_step he hstep hj.record, Option.map_some, hentry]
      rw [List.map_append, hkeep, List.map_append, List.map_singleton, hnext]
      rfl

theorem Kept.ordered {b : Chronicle} (h : c.Kept) {now : ℤ} {fired : Bool} {batch : List Event}
    (hbatch : Along Chronicle.step Allowed c (.handleRead now fired :: batch))
    (hend : ∀ e ∈ batch, ∀ clock, e ≠ .endRead clock)
    (hrun : runFrom Chronicle.step c (.handleRead now fired :: batch) = some b) :
    ∃ ran, b.ledger.runs = c.ledger.runs ++ ran ∧ ran.Pairwise fun p q =>
      ∀ r r', b.ledger.records[p.1]? = some r → b.ledger.records[q.1]? = some r' →
        r.time ≤ r'.time := by
  obtain ⟨d, hstep, hrest⟩ := (runFrom_cons ..).mp hrun
  obtain ⟨hmove, hkept, -⟩ := h.of_step hbatch.1 hstep
  obtain ⟨expired, rest, hsplit, -, -, hsorted⟩ :=
    getExpired_spec (fun e he => h.owned.bound _ (h.owned.mem_heap he)) now
  have hfirst : d.InTurn expired c.ledger.runs := by
    simp only [Chronicle.step, perform, beginExpired, hsplit, Option.map_some,
      Option.some.injEq] at hstep
    subst hstep
    exact ⟨_, [], [], rfl, (List.append_nil _).symm, rfl, rfl⟩
  have hlast : b.Kept ∧ b.InTurn expired c.ledger.runs := by
    refine runFrom_invariant_along (I := fun a => a.Kept ∧ a.InTurn expired c.ledger.runs) ?_
      ⟨hkept, hfirst⟩ (along_and (hbatch.2 d hstep) (along_of_forall hend)) hrest
    rintro a e a' ⟨ha, hturn⟩ ⟨he, hne⟩ hstep
    exact ⟨(ha.of_step he hstep).2.1, ha.inTurn_step he hstep hne hturn⟩
  obtain ⟨-, f, ran, done, -, hruns, hdone, hran⟩ := hlast
  refine ⟨ran, hruns, ?_⟩
  have hids : (ran.map b.idOf).Pairwise fun a a' => ∀ e ∈ a, ∀ e' ∈ a', e < e' := by
    rw [hdone, List.pairwise_append] at hsorted
    rw [hran, List.pairwise_map]
    refine hsorted.1.imp ?_
    rintro e e' hlt _ ⟨⟩ _ ⟨⟩
    exact hlt
  refine (List.pairwise_map.mp hids).imp ?_
  intro p q hlt r r' hr hr'
  have hlt := hlt r.timerId (by rw [idOf, hr]; rfl) r'.timerId (by rw [idOf, hr']; rfl)
  exact Entry.time_le hlt.le

theorem Kept.lives_step (h : c.Kept) (he : c.Allowed e) (hstep : c.step e = some d)
    (hlives : c.ledger.Lives i r) (hlive : r.timer ∈ d.state.heap) : d.ledger.Lives i r := by
  obtain ⟨-, hkept, -⟩ := h.of_step he hstep
  refine hkept.owner i r (h.record_step he hstep hlives.record) ?_
  intro hd
  obtain ⟨r', hlives', hdead⟩ := h.freed_of_deleted he hstep hlives.deleted hd
  cases hlives.record.symm.trans hlives'.record
  exact hdead hlive

theorem Kept.inserted_of_expired (h : c.Kept) (hlives : c.ledger.Lives i r) {f : Frame}
    (hf : c.state.frame = some f) (hexpired : r.timerId ∈ f.expired) : i ∈ c.ledger.inserted := by
  rcases h.placed i r hlives with ⟨hfresh, -⟩ | ⟨hinserted, -⟩
  · exact absurd hfresh ((h.owned.frame f hf).apart_fresh _ hexpired)
  · exact hinserted

/-- In the batch of the time `now`, the timer has run since the times `times`, or its turn will
come. -/
def HasTurn (i : ℕ) (r : Record) (now : ℤ) (times : List ℤ) (c : Chronicle) : Prop :=
  c.ledger.Lives i r ∧ ∃ f, c.state.frame = some f ∧ f.now = now ∧ r.timerId ∈ f.expired ∧
    c.ledger.times i = if r.timerId ∈ f.remaining then times else times ++ [now]

theorem Scheduled.hasTurn_step (h : c.Scheduled) (he : c.Allowed e) (hstep : c.step e = some d)
    (hend : ∀ clock, e ≠ .endRead clock) {now : ℤ} {times : List ℤ}
    (hturn : c.HasTurn i r now times) : d.HasTurn i r now times := by
  obtain ⟨hlives, f, hf, rfl, hexpired, htimes⟩ := hturn
  obtain ⟨-, hkept, -⟩ := h.kept.of_step he hstep
  have hstays : ∀ f', d.state.frame = some f' → r.timerId ∈ f'.expired → d.ledger.Lives i r := by
    intro f' hf' hin
    exact h.kept.lives_step he hstep hlives ((hkept.owned.frame f' hf').mem_heap hin)
  rcases h.kept.batch_cases he hstep hend hf with
    ⟨hframe, hruns⟩ | ⟨entry, rest, j, rj, hremaining, hj, hentry, hframe, hruns⟩
  · refine ⟨hstays f hframe hexpired, f, hframe, rfl, hexpired, ?_⟩
    rw [← htimes, Ledger.times, Ledger.times, hruns]
  · refine ⟨hstays _ hframe hexpired, _, hframe, rfl, hexpired, ?_⟩
    have hnodup := h.nodup f hf
    rw [hremaining, List.nodup_cons] at hnodup
    rw [hremaining] at htimes
    rw [Ledger.times_concat hruns]
    by_cases heq : j = i
    · -- its turn has come
      subst heq
      cases hlives.record.symm.trans hj.record
      rw [hentry, if_pos List.mem_cons_self] at htimes
      rw [if_pos rfl, htimes, hentry, if_neg hnodup.1]
    · have hne : r.timerId ≠ entry := by
        intro hid
        exact heq (lives_unique hj hlives (congrArg Entry.timer (hentry.trans hid.symm))).1
      simp only [List.mem_cons, hne, false_or] at htimes
      rw [if_neg heq, htimes]

theorem Scheduled.run {events : List Event} (h : c.Scheduled)
    (hevents : Along Chronicle.step Allowed c events) :
    ∃ d, runFrom Chronicle.step c events = some d ∧ d.Scheduled := by
  apply runFrom_progress _ h hevents
  intro a e ha he
  obtain ⟨b, hstep, -, -⟩ := ha.kept.step he
  exact ⟨b, hstep, ha.step he hstep⟩

end Chronicle

/-- In every run of the timer queue, the callback of a one-shot timer runs in the first batch in
which `getExpired` finds the timer, there once and not before the time of the timer, and never
again. The callbacks of a batch run in the order of the times for which their timers were made. -/
theorem one_shot_fires_once {events : List Event}
    (h : Along Chronicle.step Chronicle.Allowed Chronicle.init events) :
    ∃ c, runFrom Chronicle.step Chronicle.init events = some c ∧
      (∀ i r, c.ledger.records[i]? = some r → r.repeats = false →
        (Chronicle.found i Chronicle.init events).length ≤ 1 ∧
        (∀ now ∈ Chronicle.found i Chronicle.init events, r.time ≤ now) ∧
        c.ledger.times i <+: Chronicle.found i Chronicle.init events ∧
        (c.state.frame = none → c.ledger.times i = Chronicle.found i Chronicle.init events) ∧
        ∀ now fired, i ∉ c.ledger.deleted → r.timerId ∈ c.state.queue.timers → r.time ≤ now →
          c.finds i (.handleRead now fired) = [now]) ∧
      ∀ before now fired batch b, events = before ++ .handleRead now fired :: batch →
        (∀ e ∈ batch, ∀ clock, e ≠ .endRead clock) →
        runFrom Chronicle.step Chronicle.init before = some b →
        ∃ ran, c.ledger.runs = b.ledger.runs ++ ran ∧ ran.Pairwise fun p q =>
          ∀ r r', c.ledger.records[p.1]? = some r → c.ledger.records[q.1]? = some r' →
            r.time ≤ r'.time := by
  obtain ⟨c, hc, hscheduled⟩ := Chronicle.scheduled_init.run h
  refine ⟨c, hc, ?_, ?_⟩
  · intro i r hr hshot
    obtain ⟨c', hc', -, honce⟩ := (Chronicle.oneShot_init i).run Chronicle.scheduled_init h
    cases hc.symm.trans hc'
    obtain ⟨hlength, hpast, hprefix, hidle⟩ := honce.once hscheduled hr hshot
    refine ⟨hlength, hpast, hprefix, hidle, ?_⟩
    intro now fired hdeleted hmem hdue
    have hlives := hscheduled.kept.owner i r hr hdeleted
    rcases hscheduled.kept.finds_eq i now fired with ⟨hfinds, -⟩ | ⟨-, hlater⟩
    · exact hfinds
    · exact absurd hdue (not_le_of_gt (hlater r hlives hmem))
  · rintro before now fired batch b rfl hend hb
    obtain ⟨hbefore, hbatch⟩ := (along_append hb).mp h
    obtain ⟨b', hb', hbkept⟩ := Chronicle.kept_run hbefore
    cases hb.symm.trans hb'
    rw [runFrom_append hb] at hc
    exact hbkept.ordered hbatch hend hc

/-- Three timers of one batch: the first callback adds a timer that is due at once, and the second
timer repeats. -/
def batchRun : List Event :=
  [.newTimer 48 1000000 (.ofNat 0), .addTimerInLoop 48 0,
    .newTimer 16 1500000 (.ofScientific 5 (-1)), .addTimerInLoop 16 0,
    .newTimer 32 2000000 (.ofNat 0), .addTimerInLoop 32 0,
    .handleRead 2000000 true, .runTimer, .newTimer 64 500000 (.ofNat 0), .addTimerInLoop 64 2000000,
    .runTimer, .runTimer, .endRead 2000000, .handleRead 2000100 true, .runTimer]

theorem batchRun_fires_once :
    ∃ c, runFrom Chronicle.step Chronicle.init batchRun = some c ∧
      (∀ i r, c.ledger.records[i]? = some r → r.repeats = false →
        (Chronicle.found i Chronicle.init batchRun).length ≤ 1 ∧
        (∀ now ∈ Chronicle.found i Chronicle.init batchRun, r.time ≤ now) ∧
        c.ledger.times i <+: Chronicle.found i Chronicle.init batchRun ∧
        (c.state.frame = none → c.ledger.times i = Chronicle.found i Chronicle.init batchRun) ∧
        ∀ now fired, i ∉ c.ledger.deleted → r.timerId ∈ c.state.queue.timers → r.time ≤ now →
          c.finds i (.handleRead now fired) = [now]) ∧
      ∀ before now fired batch b, batchRun = before ++ .handleRead now fired :: batch →
        (∀ e ∈ batch, ∀ clock, e ≠ .endRead clock) →
        runFrom Chronicle.step Chronicle.init before = some b →
        ∃ ran, c.ledger.runs = b.ledger.runs ++ ran ∧ ran.Pairwise fun p q =>
          ∀ r r', c.ledger.records[p.1]? = some r → c.ledger.records[q.1]? = some r' →
            r.time ≤ r'.time :=
  one_shot_fires_once (by decide +kernel)

/-- A timer of the batch whose turn has not come runs in its turn though it is cancelled. At the
end of the batch it is deleted, and its callback never runs again. -/
theorem cancelled_runs_in_batch {before batch : List Event} {c : Chronicle} {f : Frame} {i : ℕ}
    {r : Record} {clock : ℤ}
    (hbefore : Along Chronicle.step Chronicle.Allowed Chronicle.init before)
    (hc : runFrom Chronicle.step Chronicle.init before = some c) (hf : c.state.frame = some f)
    (hlives : c.ledger.Lives i r) (hturn : r.timerId ∈ f.remaining)
    (hbatch : Along Chronicle.step Chronicle.Allowed c
      (.cancelTimerInLoop r.timerId :: batch ++ [.endRead clock]))
    (hend : ∀ e ∈ batch, ∀ clock, e ≠ .endRead clock) :
    ∃ d, runFrom Chronicle.step c (.cancelTimerInLoop r.timerId :: batch ++ [.endRead clock]) =
        some d ∧ d.ledger.times i = c.ledger.times i ++ [f.now] ∧ i ∈ d.ledger.deleted ∧
      ∀ later, Along Chronicle.step Chronicle.Allowed d later →
        ∃ u, runFrom Chronicle.step d later = some u ∧ u.ledger.times i = d.ledger.times i := by
  obtain ⟨c', hc', hscheduled⟩ := Chronicle.scheduled_init.run hbefore
  cases hc.symm.trans hc'
  have hkept := hscheduled.kept
  have hexpired := (hkept.owned.frame f hf).remaining_sub hturn
  obtain ⟨d, hrun, -⟩ := hscheduled.run hbatch
  obtain ⟨b, hb, hlast⟩ := runFrom_append_eq_some.mp hrun
  obtain ⟨hfirst, hclose⟩ := (along_append hb).mp hbatch
  have hends : ∀ e ∈ .cancelTimerInLoop r.timerId :: batch, ∀ clock, e ≠ .endRead clock :=
    List.forall_mem_cons.mpr ⟨fun _ heq => (nomatch heq), hend⟩
  -- up to the end of the batch the timer has its turn
  obtain ⟨hbscheduled, hblives, f', hf', hnow, hexpired', htimes⟩ :
      b.Scheduled ∧ b.HasTurn i r f.now (c.ledger.times i) := by
    refine runFrom_invariant_along
      (I := fun a => a.Scheduled ∧ a.HasTurn i r f.now (c.ledger.times i)) ?_
      ⟨hscheduled, hlives, f, hf, rfl, hexpired, (if_pos hturn).symm⟩
      (along_and hfirst (along_of_forall hends)) hb
    rintro a e a' ⟨ha, hturn⟩ ⟨he, hne⟩ hstep
    exact ⟨ha.step he hstep, ha.hasTurn_step he hstep hne hturn⟩
  -- and it stays cancelled
  obtain ⟨a, hcancel, hb'⟩ := (runFrom_cons ..).mp hb
  have hr := hkept.record_step hfirst.1 hcancel hlives.record
  have hinserted := hkept.inserted_of_expired hlives hf hexpired
  obtain ⟨-, hcancelled⟩ := (hkept.cancelled hinserted hlives.record hcancel).run
    (hkept.of_step hfirst.1 hcancel).2.1 hr (hfirst.2 a hcancel) hb'
  obtain ⟨d', hstep, hd⟩ := (runFrom_cons ..).mp hlast
  cases hd
  obtain ⟨t, rfl, hmove, hdkept⟩ := hbscheduled.kept.eq_of_step hclose.1 hstep
  have hdcancelled := hcancelled.step hbscheduled.kept hclose.1 hblives.record hstep
  cases hmove with
  | @endRead _ f'' timers heap fd hf'' hremaining hreset =>
    cases hf'.symm.trans hf''
    rw [hremaining, if_neg List.not_mem_nil] at htimes
    have hdeleted := hdcancelled.resolve_right fun ⟨_, hnone, _⟩ => nomatch hnone
    exact ⟨_, hrun, htimes, hdeleted, fun later hlater => hdkept.deleted_run hdeleted hlater⟩

def sameTimeRun : List Event :=
  [.newTimer 16 1000000 (.ofNat 0), .addTimerInLoop 16 0,
    .newTimer 32 1000000 (.ofScientific 5 (-1)),
    .addTimerInLoop 32 0, .handleRead 1000000 true, .runTimer]

theorem sameTimeRun_cancelled :
    ∃ c d, runFrom Chronicle.step Chronicle.init sameTimeRun = some c ∧
      runFrom Chronicle.step c (.cancelTimerInLoop ⟨1000000, 32⟩ :: [.runTimer] ++
        [.endRead 1000000]) = some d ∧
      d.ledger.times 1 = c.ledger.times 1 ++ [1000000] ∧ 1 ∈ d.ledger.deleted ∧
      ∀ later, Along Chronicle.step Chronicle.Allowed d later →
        ∃ u, runFrom Chronicle.step d later = some u ∧ u.ledger.times 1 = d.ledger.times 1 := by
  let r : Record := ⟨32, 1000000, .ofScientific 5 (-1)⟩
  let f : Frame := ⟨[⟨1000000, 16⟩, ⟨1000000, 32⟩], [⟨1000000, 32⟩], 1000000⟩
  have hrun : (runFrom Chronicle.step Chronicle.init sameTimeRun).any (fun c =>
      c.state.frame = some f ∧ (c.ledger.records[1]? = some r ∧ c.ledger.owner.find 32 = some 1 ∧
        1 ∉ c.ledger.deleted) ∧
        Along Chronicle.step Chronicle.Allowed c (.cancelTimerInLoop ⟨1000000, 32⟩ :: [.runTimer] ++
          [.endRead 1000000])) = true := by
    decide +kernel
  obtain ⟨c, hc, hcond⟩ := (Option.any_eq_true _ _).mp hrun
  obtain ⟨hf, ⟨hr, howner, hdeleted⟩, hbatch⟩ := of_decide_eq_true hcond
  obtain ⟨d, hd, hrest⟩ := cancelled_runs_in_batch (r := r) (by decide +kernel) hc hf
    ⟨hr, howner, hdeleted⟩ (by decide) hbatch (by simp)
  exact ⟨c, d, hc, hd, hrest⟩

/-- The callback of the first timer cancels the second timer, whose callback runs after that. -/
theorem sameTimeRun_runs :
    ¬∀ (before batch : List Event) (c d : Chronicle) (f : Frame) (i : ℕ) (r : Record),
      Along Chronicle.step Chronicle.Allowed Chronicle.init before →
      runFrom Chronicle.step Chronicle.init before = some c → c.state.frame = some f →
      f.remaining ≠ f.expired → c.ledger.Lives i r → r.timerId ∈ f.remaining →
      Along Chronicle.step Chronicle.Allowed c (.cancelTimerInLoop r.timerId :: batch) →
      (∀ e ∈ batch, ∀ clock, e ≠ .endRead clock) →
      runFrom Chronicle.step c (.cancelTimerInLoop r.timerId :: batch) = some d →
      d.ledger.times i = c.ledger.times i := by
  intro hall
  let r : Record := ⟨32, 1000000, .ofScientific 5 (-1)⟩
  let f : Frame := ⟨[⟨1000000, 16⟩, ⟨1000000, 32⟩], [⟨1000000, 32⟩], 1000000⟩
  have hrun : (runFrom Chronicle.step Chronicle.init sameTimeRun).any (fun c =>
      c.state.frame = some f ∧ (c.ledger.records[1]? = some r ∧ c.ledger.owner.find 32 = some 1 ∧
        1 ∉ c.ledger.deleted) ∧
      Along Chronicle.step Chronicle.Allowed c [.cancelTimerInLoop r.timerId, .runTimer] ∧
      (runFrom Chronicle.step c [.cancelTimerInLoop r.timerId, .runTimer]).any fun d =>
        d.ledger.times 1 ≠ c.ledger.times 1) = true := by
    decide +kernel
  obtain ⟨c, hc, hcond⟩ := (Option.any_eq_true _ _).mp hrun
  obtain ⟨hf, ⟨hr, howner, hdeleted⟩, hbatch, hbatchRun⟩ := of_decide_eq_true hcond
  obtain ⟨d, hd, hne⟩ := (Option.any_eq_true _ _).mp hbatchRun
  exact of_decide_eq_true hne (hall sameTimeRun [.runTimer] c d f 1 r (by decide +kernel) hc hf
    (by decide) ⟨hr, howner, hdeleted⟩ (by decide) hbatch (by simp) hd)

end TimerRuns

end Matelib
