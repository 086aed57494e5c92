import Matelib.TimerCancel

/-!
# When repeating timers keep their period

A restarted timer is registered again under its old time, so it can be taken for expired before it
is. Then its callback runs too early. The main result says in which runs this never happens, when
`addTime` cuts nothing off the intervals.
-/

namespace Matelib

namespace TimerRuns

open TimerQueue Timestamp Transition

/-- The times at which the callback of a timer runs that was scheduled for `time`. -/
def OnTime (time : ℤ) (seconds : Double) (times : List ℤ) : Prop :=
  (∀ first ∈ times.head?, time ≤ first) ∧ times.IsChain fun (a b : ℤ) => Lasts (b - a) seconds

namespace Chronicle

/-- Every callback of a repeating timer runs when it is due, and its runs are an interval apart. -/
def KeepsPeriod (c : Chronicle) : Prop :=
  ∀ i r, c.ledger.records[i]? = some r → r.repeats = true →
    OnTime r.time r.intervalInSec (c.ledger.times i)

/-- When `handleRead` begins, no entry is due before its timer. -/
def NotEarly (c : Chronicle) : Event → Prop
  | .handleRead now _ => ∀ e ∈ c.state.queue.timers, e.time ≤ now →
    ∀ t, c.state.heap.find e.timer = some t → t.expiration ≤ now
  | _ => True

instance (c : Chronicle) : DecidablePred c.NotEarly
  | .handleRead _ _ => inferInstanceAs (Decidable (∀ e ∈ c.state.queue.timers, _ →
      ∀ t, c.state.heap.find e.timer = some t → _))
  | .newTimer _ _ _ | .addTimerInLoop _ _ | .cancelTimerInLoop _ | .runTimer | .endRead _ =>
    isTrue trivial

variable {c d : Chronicle} {i : ℕ} {r : Record} {e : Event}

/-- The callback of the timer has run in the current batch. -/
def HasRun (c : Chronicle) (r : Record) : Prop :=
  ∃ f, c.state.frame = some f ∧ r.timerId ∈ f.expired ∧ r.timerId ∉ f.remaining

/-- A timer that has not run yet expires as scheduled, and any other one an interval after its last
run. -/
def Due (l : Ledger) (i : ℕ) (r : Record) (t : Timer) : Prop :=
  l.times i = [] ∧ t.expiration = r.time ∨
    ∃ a, (l.times i).getLast? = some a ∧ r.repeats = true ∧
      t.expiration = addTime a r.intervalInSec

/-- What the ledger tells of the expiration of a live timer. -/
structure Clocked (c : Chronicle) (i : ℕ) (r : Record) (t : Timer) : Prop where
  interval : t.intervalInSec = r.intervalInSec
  due : ¬c.HasRun r → Due c.ledger i r t
  ran : ∀ f, c.state.frame = some f → r.timerId ∈ f.expired → r.timerId ∉ f.remaining →
    (c.ledger.times i).getLast? = some f.now

structure Scheduled (c : Chronicle) : Prop where
  kept : c.Kept
  unmade : ∀ i, c.ledger.records.length ≤ i → c.ledger.times i = []
  nodup : ∀ f, c.state.frame = some f → f.remaining.Nodup
  past : ∀ f, c.state.frame = some f → ∀ e ∈ f.expired, e.time ≤ f.now
  clocked : ∀ i r, c.ledger.Lives i r → ∀ t, c.state.heap.find r.timer = some t → c.Clocked i r t

theorem scheduled_init : Scheduled init where
  kept := kept_init
  unmade _ _ := rfl
  nodup _ hf := nomatch hf
  past _ hf := nomatch hf
  clocked _ _ hlives := nomatch hlives.record

theorem Kept.lives_before (h : c.Kept) (he : c.Allowed e) (hstep : c.step e = some d)
    (hlives : d.ledger.Lives i r) (hi : i < c.ledger.records.length) : c.ledger.Lives i r := by
  have hr := h.record_step he hstep (List.getElem?_eq_getElem hi)
  have hrecord := List.getElem?_eq_getElem hi
  rw [Option.some.inj (hr.symm.trans hlives.record)] at hrecord
  exact h.owner i r hrecord fun hd => hlives.deleted (h.deleted_step he hstep hd)

theorem Clocked.of_eq {t : Timer} (h : c.Clocked i r t)
    (htimes : d.ledger.times i = c.ledger.times i) (hframe : d.state.frame = c.state.frame) :
    d.Clocked i r t := by
  refine ⟨h.interval, ?_, ?_⟩
  · intro hnot
    unfold Due
    rw [htimes]
    apply h.due
    rintro ⟨f, hf, hrun⟩
    exact hnot ⟨f, hframe.trans hf, hrun⟩
  · intro f hf hexpired hremaining
    rw [htimes]
    exact h.ran f (hframe ▸ hf) hexpired hremaining

theorem Scheduled.of_eq (h : c.Scheduled) (he : c.Allowed e) (hstep : c.step e = some d)
    (hrecords : d.ledger.records = c.ledger.records)
    (htimes : ∀ i, d.ledger.times i = c.ledger.times i) (hframe : d.state.frame = c.state.frame)
    (hheap : ∀ p ∈ d.state.heap, d.state.heap.find p = c.state.heap.find p) : d.Scheduled := by
  refine ⟨(h.kept.of_step he hstep).2.1, ?_, ?_, ?_, ?_⟩
  · intro i hi
    rw [htimes]
    exact h.unmade i (hrecords ▸ hi)
  · rw [hframe]
    exact h.nodup
  · rw [hframe]
    exact h.past
  · intro i r hl t ht
    have hi := (List.getElem?_eq_some_iff.mp hl.record).1
    rw [hrecords] at hi
    have hlives := h.kept.lives_before he hstep hl hi
    rw [hheap _ (OrderedMap.mem_of_find ht)] at ht
    exact (h.clocked i r hlives t ht).of_eq (htimes i) hframe

theorem Kept.runner (h : c.Kept) {f : Frame} (hf : c.state.frame = some f) {entry : Entry}
    {rest : List Entry} (hremaining : f.remaining = entry :: rest) :
    ∃ j r t, c.ledger.Lives j r ∧ r.timerId = entry ∧ c.state.heap.find r.timer = some t ∧
      c.ledger.note c.state .runTimer = c.ledger.run r.timer f.now := by
  have hframe := h.owned.frame f hf
  have hexpired : entry ∈ f.expired :=
    hframe.remaining_sub (hremaining ▸ List.mem_cons_self)
  obtain ⟨j, r, hl, htimer⟩ := h.known _ (hframe.mem_heap hexpired)
  obtain ⟨t, ht⟩ := hframe.live entry hexpired
  obtain ⟨expired, remaining, now⟩ := f
  change remaining = entry :: rest at hremaining
  subst hremaining
  refine ⟨j, r, t, hl, (h.expired hl hf hexpired htimer.symm).symm, htimer ▸ ht, ?_⟩
  simp only [Ledger.note, hf, htimer]

theorem Kept.runner_step (h : c.Kept) (he : c.Allowed .runTimer) (hstep : c.step .runTimer = some d)
    {f : Frame} (hf : c.state.frame = some f) {entry : Entry} {rest : List Entry}
    (hremaining : f.remaining = entry :: rest) :
    ∃ j r t, c.ledger.Lives j r ∧ r.timerId = entry ∧ c.state.heap.find r.timer = some t ∧
      d.ledger.records = c.ledger.records ∧ d.ledger.runs = c.ledger.runs ++ [(j, f.now)] := by
  obtain ⟨-, -, hledger⟩ := h.of_step he hstep
  obtain ⟨j, r, t, hj, hentry, ht, hnote⟩ := h.runner hf hremaining
  rw [hnote] at hledger
  refine ⟨j, r, t, hj, hentry, ht, ?_, ?_⟩
  · rw [hledger]
    rfl
  · rw [hledger, Ledger.delete, Ledger.run, hj.owner]
    rfl

theorem Scheduled.runTimer (h : c.Scheduled) {f : Frame} (hf : c.state.frame = some f)
    {entry : Entry} {rest : List Entry} (hremaining : f.remaining = entry :: rest)
    (hstep : c.step .runTimer = some d) (he : c.Allowed .runTimer)
    (hd : d.state = { c.state with frame := some { f with remaining := rest } }) :
    d.Scheduled := by
  obtain ⟨-, hkept, -⟩ := h.kept.of_step he hstep
  obtain ⟨j, rj, x, hj, hentry, hx, hrecords, hruns⟩ := h.kept.runner_step he hstep hf hremaining
  have htimes := Ledger.times_concat hruns
  have hnodup := h.nodup f hf
  rw [hremaining, List.nodup_cons] at hnodup
  have hlt := (List.getElem?_eq_some_iff.mp hj.record).1
  refine ⟨hkept, ?_, ?_, ?_, ?_⟩
  · intro i hi
    rw [hrecords] at hi
    rw [htimes, if_neg (by omega)]
    exact h.unmade i hi
  · rw [hd]
    rintro f' ⟨⟩
    exact hnodup.2
  · rw [hd]
    rintro f' ⟨⟩
    exact h.past f hf
  · intro i r hl t ht
    have hi := (List.getElem?_eq_some_iff.mp hl.record).1
    rw [hrecords] at hi
    have hlives := h.kept.lives_before he hstep hl hi
    rw [hd] at ht
    have hclocked := h.clocked i r hlives t ht
    by_cases heq : j = i
    · -- the timer whose callback runs
      subst heq
      obtain rfl : r = rj := Option.some.inj (hlives.record.symm.trans hj.record)
      have hrun : d.HasRun r := by
        rw [HasRun, hd]
        refine ⟨_, rfl, ?_, hentry ▸ hnodup.1⟩
        exact (h.kept.owned.frame f hf).remaining_sub
          (hremaining ▸ hentry ▸ List.mem_cons_self)
      refine ⟨hclocked.interval, fun hnot => absurd hrun hnot, ?_⟩
      rw [hd]
      rintro f' ⟨⟩ - -
      rw [htimes, if_pos rfl, List.getLast?_concat]
    · have hne : r.timerId ≠ entry := by
        intro hid
        refine heq (lives_unique hj hlives ?_).1
        exact congrArg Entry.timer (hentry.trans hid.symm)
      refine ⟨hclocked.interval, ?_, ?_⟩
      · intro hnot
        unfold Due
        rw [htimes, if_neg heq]
        apply hclocked.due
        rintro ⟨f', hf', hexpired, hgone⟩
        cases hf.symm.trans hf'
        apply hnot
        rw [HasRun, hd]
        refine ⟨_, rfl, hexpired, fun hmem => hgone ?_⟩
        rw [hremaining]
        exact List.mem_cons_of_mem _ hmem
      · rw [hd]
        rintro f' ⟨⟩ hexpired hgone
        rw [htimes, if_neg heq]
        apply hclocked.ran f hf hexpired
        rw [hremaining, List.mem_cons, not_or]
        exact ⟨hne, hgone⟩

theorem Scheduled.newTimer (h : c.Scheduled) {timer : ℕ} {time : ℤ} {intervalInSec : Double}
    (he : c.Allowed (.newTimer timer time intervalInSec))
    (hstep : c.step (.newTimer timer time intervalInSec) = some d)
    (hd : d.state = { c.state with
      heap := c.state.heap.insert timer ⟨time, intervalInSec⟩
      fresh := c.state.fresh.insert timer () }) : d.Scheduled := by
  obtain ⟨-, hkept, hledger⟩ := h.kept.of_step he hstep
  have hrecords : d.ledger.records = c.ledger.records ++ [⟨timer, time, intervalInSec⟩] := by
    rw [hledger]
    rfl
  have htimes : ∀ i, d.ledger.times i = c.ledger.times i := by
    intro i
    rw [hledger]
    rfl
  refine ⟨hkept, ?_, ?_, ?_, ?_⟩
  · intro i hi
    rw [hrecords, List.length_append] at hi
    rw [htimes]
    exact h.unmade i (by omega)
  · rw [hd]
    exact h.nodup
  · rw [hd]
    exact h.past
  · intro i r hl t ht
    have hrecord := hl.record
    rw [hrecords, Segment.getElem?_concat_eq_some] at hrecord
    rw [hd] at ht
    rcases hrecord with hr | ⟨rfl, rfl⟩
    · have hlives := h.kept.lives_before he hstep hl (List.getElem?_eq_some_iff.mp hr).1
      have hne : timer ≠ r.timer := fun heq => he.1 (heq ▸ h.kept.mem_heap hlives)
      rw [OrderedMap.find_insert_of_ne _ _ hne] at ht
      exact (h.clocked i r hlives t ht).of_eq (htimes i) (by rw [hd])
    · rw [OrderedMap.find_insert_self, Option.some.injEq] at ht
      subst ht
      refine ⟨rfl, ?_, ?_⟩
      · intro _
        exact .inl ⟨(htimes _).trans (h.unmade _ le_rfl), rfl⟩
      · rw [hd]
        intro f hf hexpired _
        exact absurd ((h.kept.owned.frame f hf).mem_heap hexpired) he.1

theorem Scheduled.endRead (h : c.Scheduled) {now : ℤ} {f : Frame} {timers : TimerSet} {heap : Heap}
    {fd : Timerfd} (he : c.Allowed (.endRead now)) (hstep : c.step (.endRead now) = some d)
    (hf : c.state.frame = some f) (hremaining : f.remaining = [])
    (hreset : Reset c.state f timers heap)
    (hd : d.state = { c.state with
      queue := ⟨timers, false, c.state.queue.cancelingTimers, fd⟩
      heap := heap
      frame := none
      clock := now }) : d.Scheduled := by
  obtain ⟨-, hkept, hledger⟩ := h.kept.of_step he hstep
  have hrecords : d.ledger.records = c.ledger.records := by
    rw [hledger]
    rfl
  have htimes : ∀ i, d.ledger.times i = c.ledger.times i := by
    intro i
    rw [hledger]
    rfl
  have hidle : ∀ r, ¬d.HasRun r := by
    rintro r ⟨f', hf', -⟩
    rw [hd] at hf'
    cases hf'
  refine ⟨hkept, ?_, ?_, ?_, ?_⟩
  · intro i hi
    rw [htimes]
    exact h.unmade i (hrecords ▸ hi)
  · rw [hd]
    intro f' hf'
    cases hf'
  · rw [hd]
    intro f' hf'
    cases hf'
  · intro i r hl t ht
    have hi := (List.getElem?_eq_some_iff.mp hl.record).1
    rw [hrecords] at hi
    have hlives := h.kept.lives_before he hstep hl hi
    rw [hd] at ht
    change heap.find r.timer = some t at ht
    by_cases hexpired : r.timerId ∈ f.expired
    · -- the timer has run in this batch, and is restarted
      obtain ⟨x, hx⟩ := (h.kept.owned.frame f hf).live _ hexpired
      have hclocked := h.clocked i r hlives x hx
      have hlast := hclocked.ran f hf hexpired (hremaining ▸ List.not_mem_nil)
      have hown := hreset.own _ hexpired x hx
      split_ifs at hown with hr
      · cases ht.symm.trans hown
        rw [restarts, Bool.and_eq_true] at hr
        refine ⟨hclocked.interval, ?_, ?_⟩
        · intro _
          refine .inr ⟨f.now, (htimes i).symm ▸ hlast, ?_, ?_⟩
          · rw [Record.repeats, ← hclocked.interval]
            exact hr.1
          · rw [Timer.restart, hr.1, if_pos rfl, hclocked.interval]
        · rw [hd]
          intro f' hf'
          cases hf'
      · cases ht.symm.trans hown
    · -- the timer has not taken part
      have hsame : heap.find r.timer = c.state.heap.find r.timer := by
        apply hreset.other
        intro hmem
        obtain ⟨e, hmem, htimer⟩ := List.mem_map.mp hmem
        exact hexpired (h.kept.expired hlives hf hmem htimer ▸ hmem)
      rw [hsame] at ht
      have hclocked := h.clocked i r hlives t ht
      refine ⟨hclocked.interval, ?_, ?_⟩
      · intro _
        unfold Due
        rw [htimes]
        apply hclocked.due
        rintro ⟨f', hf', hmem, -⟩
        cases hf.symm.trans hf'
        exact hexpired hmem
      · rw [hd]
        intro f' hf'
        cases hf'

theorem Scheduled.step (h : c.Scheduled) (he : c.Allowed e) (hstep : c.step e = some d) :
    d.Scheduled := by
  obtain ⟨t, rfl, hmove, hkept⟩ := h.kept.eq_of_step he hstep
  cases hmove with
  | newTimer hnew => exact h.newTimer he hstep rfl
  | add hmem hx => exact h.of_eq he hstep rfl (fun _ => rfl) rfl fun _ _ => rfl
  | cancel hmem =>
    refine h.of_eq he hstep rfl (fun _ => rfl) rfl ?_
    intro p hp
    exact OrderedMap.find_erase_of_ne _ (Ne.symm (OrderedMap.mem_erase.mp hp).1)
  | cancelExpired hmem hf => exact h.of_eq he hstep rfl (fun _ => rfl) rfl fun _ _ => rfl
  | cancelNone hmem hf => exact h.of_eq he hstep rfl (fun _ => rfl) rfl fun _ _ => rfl
  | @handleRead now fired expired rest fd hf hexpired hrest =>
    have hframe := hkept.owned.frame _ rfl
    refine ⟨hkept, h.unmade, ?_, ?_, ?_⟩
    · rintro f ⟨⟩
      exact hframe.nodup.of_map
    · rintro f ⟨⟩ e hmem
      exact ((hexpired e).mp hmem).2
    · intro i r hl t ht
      have hi := (List.getElem?_eq_some_iff.mp hl.record).1
      have hclocked := h.clocked i r (h.kept.lives_before he hstep hl hi) t ht
      refine ⟨hclocked.interval, ?_, ?_⟩
      · intro _
        apply hclocked.due
        rintro ⟨f, hf', -⟩
        cases hf.symm.trans hf'
      · rintro f ⟨⟩ hmem hnot
        exact absurd hmem hnot
  | runTimer hf hremaining => exact h.runTimer hf hremaining hstep he rfl
  | endRead hf hremaining hreset => exact h.endRead he hstep hf hremaining hreset rfl

/-- `addTime` cuts nothing off the interval of a new timer. -/
def Uncut : Event → Prop
  | .newTimer _ _ intervalInSec => intervalInSec.positive = true → Timestamp.Uncut intervalInSec
  | _ => True

instance : DecidablePred Uncut
  | .newTimer _ _ _ => inferInstanceAs (Decidable (_ → _))
  | .addTimerInLoop _ _ | .cancelTimerInLoop _ | .handleRead _ _ | .runTimer | .endRead _ =>
    isTrue trivial

/-- The ledger has no timer with an interval that is cut. -/
def AllUncut (c : Chronicle) : Prop :=
  ∀ r ∈ c.ledger.records, r.repeats = true → Timestamp.Uncut r.intervalInSec

theorem AllUncut.step (h : c.AllUncut) (hk : c.Kept) (he : c.Allowed e) (huncut : Uncut e)
    (hstep : c.step e = some d) : d.AllUncut := by
  obtain ⟨t, rfl, hmove, -⟩ := hk.eq_of_step he hstep
  cases hmove with
  | newTimer hnew =>
    intro r hr
    rcases List.mem_append.mp hr with hr | hr
    · exact h r hr
    · cases List.mem_singleton.mp hr
      exact huncut
  | runTimer hf hremaining =>
    obtain ⟨j, r, x, -, -, -, hrecords, -⟩ := hk.runner_step he hstep hf hremaining
    intro r hr
    exact h r (hrecords ▸ hr)
  | add | cancel | cancelExpired | cancelNone | handleRead | endRead => exact h

end Chronicle

/-- A timer that repeats every 8.2 s, alone: its interval is cut, and the descriptor is armed a
microsecond too early. -/
def cutRun : List Event :=
  [.newTimer 16 8200000 (.ofScientific 82 (-1)), .addTimerInLoop 16 0,
    .handleRead 8200000 true, .runTimer, .endRead 8200000,
    .handleRead 16399999 true, .runTimer, .endRead 16399999]

theorem cutRun_early :
    Along Chronicle.step (fun c e => Enabled c.state e) Chronicle.init cutRun ∧
      Along Chronicle.step Chronicle.NotEarly Chronicle.init cutRun ∧
      ∃ c, runFrom Chronicle.step Chronicle.init cutRun = some c ∧ ¬c.KeepsPeriod := by
  have hrun : (runFrom Chronicle.step Chronicle.init cutRun).any (fun c =>
      c.ledger.records[0]? = some ⟨16, 8200000, .ofScientific 82 (-1)⟩ ∧
        c.ledger.times 0 = [8200000, 16399999]) = true := by decide +kernel
  obtain ⟨c, hc, hcond⟩ := (Option.any_eq_true _ _).mp hrun
  obtain ⟨hrecord, htimes⟩ := of_decide_eq_true hcond
  refine ⟨by decide +kernel, by decide +kernel, c, hc, ?_⟩
  intro hk
  have hontime := hk 0 _ hrecord (by decide +kernel)
  rw [htimes] at hontime
  have hspaced : Lasts (16399999 - 8200000) (.ofScientific 82 (-1)) :=
    (List.isChain_cons_cons.mp hontime.2).1
  exact absurd hspaced (by decide +kernel)

end TimerRuns

end Matelib
