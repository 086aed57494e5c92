import Matelib.TimerLedger

/-!
# Cancellation sticks

An entry never changes, however often its timer is restarted, so the id from `addTimer` finds the
timer in `timers_` or stops its restart. The main result is that a cancelled timer is gone when
`handleRead` is not running, and that its callback does not run any more.
-/

namespace Matelib

namespace TimerRuns

open TimerQueue Transition

namespace Ledger

variable {l : Ledger} {i : ℕ} {r : Record}

theorem record_note (hr : l.records[i]? = some r) (s : State) (e : Event) :
    (l.note s e).records[i]? = some r := by
  cases e with
  | newTimer timer time intervalInSec =>
    exact Segment.getElem?_concat_eq_some.mpr (.inl hr)
  | runTimer =>
    rw [note]
    split
    · exact hr
    · exact hr
  | _ => exact hr

theorem deleted_note (l : Ledger) (s : State) (e : Event) : (l.note s e).deleted = l.deleted := by
  cases e with
  | runTimer =>
    rw [note]
    split
    · rfl
    · rfl
  | _ => rfl

end Ledger

namespace Chronicle

variable {c d : Chronicle} {i : ℕ} {r : Record} {e : Event}

theorem Kept.of_step (h : c.Kept) (he : c.Allowed e) (hstep : c.step e = some d) :
    Move c.state e d.state ∧ d.Kept ∧
      d.ledger = (c.ledger.note c.state e).delete (freed c.state.heap d.state.heap) := by
  obtain ⟨d', hstep', hmove, hkept⟩ := h.step he
  cases hstep.symm.trans hstep'
  obtain ⟨t, -, rfl⟩ := Option.map_eq_some_iff.mp hstep
  exact ⟨hmove, hkept, rfl⟩

theorem Kept.eq_of_step (h : c.Kept) (he : c.Allowed e) (hstep : c.step e = some d) :
    ∃ t, d = ⟨t, (c.ledger.note c.state e).delete (freed c.state.heap t.heap)⟩ ∧
      Move c.state e t ∧ d.Kept := by
  obtain ⟨hmove, hkept, hledger⟩ := h.of_step he hstep
  obtain ⟨t, l⟩ := d
  change l = (c.ledger.note c.state e).delete (freed c.state.heap t.heap) at hledger
  exact ⟨t, by rw [hledger], hmove, hkept⟩

theorem Kept.record_step (h : c.Kept) (he : c.Allowed e) (hstep : c.step e = some d)
    (hr : c.ledger.records[i]? = some r) : d.ledger.records[i]? = some r := by
  rw [(h.of_step he hstep).2.2]
  exact Ledger.record_note hr c.state e

theorem Kept.deleted_step (h : c.Kept) (he : c.Allowed e) (hstep : c.step e = some d)
    (hi : i ∈ c.ledger.deleted) : i ∈ d.ledger.deleted := by
  rw [(h.of_step he hstep).2.2, Ledger.delete, List.mem_append, Ledger.deleted_note]
  exact .inl hi

theorem Kept.deleted_of_dead (h : c.Kept) (hr : c.ledger.records[i]? = some r)
    (hdead : r.timer ∉ c.state.heap) : i ∈ c.ledger.deleted := by
  by_contra hnot
  exact hdead (h.mem_heap (h.owner i r hr hnot))

theorem Kept.freed_of_deleted (h : c.Kept) (he : c.Allowed e) (hstep : c.step e = some d)
    (hi : i ∉ c.ledger.deleted) (hd : i ∈ d.ledger.deleted) :
    ∃ r, c.ledger.Lives i r ∧ r.timer ∉ d.state.heap := by
  obtain ⟨t, rfl, hmove, -⟩ := h.eq_of_step he hstep
  rw [Ledger.delete, List.mem_append, Ledger.deleted_note] at hd
  obtain ⟨p, hp, howner⟩ := List.mem_filterMap.mp (hd.resolve_left hi)
  obtain ⟨hmem, hnot⟩ := mem_freed.mp hp
  have howner' : c.ledger.owner.find p = some i := by
    cases hmove with
    | newTimer hnew => exact absurd (OrderedMap.mem_insert.mpr (.inr hmem)) hnot
    | runTimer hf hremaining =>
      rw [Ledger.note] at howner
      split at howner
      · exact howner
      · exact howner
    | _ => exact howner
  obtain ⟨j, r, hlives, rfl⟩ := h.known p hmem
  cases hlives.owner.symm.trans howner'
  exact ⟨r, hlives, hnot⟩

theorem Kept.deleted_of_heap_eq (h : c.Kept) (he : c.Allowed e) (hstep : c.step e = some d)
    (hheap : d.state.heap = c.state.heap) (hd : i ∈ d.ledger.deleted) : i ∈ c.ledger.deleted := by
  by_contra hnot
  obtain ⟨r, hlives, hdead⟩ := h.freed_of_deleted he hstep hnot hd
  rw [hheap] at hdead
  exact hdead (h.mem_heap hlives)

theorem Kept.owner_ne (h : c.Kept) (hi : i ∈ c.ledger.deleted) {p : ℕ} (hp : p ∈ c.state.heap) :
    c.ledger.owner.find p ≠ some i := by
  obtain ⟨j, r, hlives, rfl⟩ := h.known p hp
  rw [hlives.owner]
  intro heq
  cases heq
  exact hlives.deleted hi

theorem Kept.times_step (h : c.Kept) (he : c.Allowed e) (hstep : c.step e = some d)
    (hi : i ∈ c.ledger.deleted) : d.ledger.times i = c.ledger.times i := by
  obtain ⟨t, rfl, hmove, -⟩ := h.eq_of_step he hstep
  cases hmove with
  | @runTimer f entry rest hf hremaining =>
    obtain ⟨expired, remaining, now⟩ := f
    change remaining = entry :: rest at hremaining
    subst hremaining
    have hframe := h.owned.frame _ hf
    have hlive := hframe.mem_heap (hframe.remaining_sub List.mem_cons_self)
    obtain ⟨j, r, hlives, htimer⟩ := h.known _ hlive
    have howner : c.ledger.owner.find entry.timer = some j := htimer ▸ hlives.owner
    have hother : j ≠ i := by
      rintro rfl
      exact hlives.deleted hi
    simp only [Ledger.note, hf]
    change (c.ledger.run entry.timer now).times i = c.ledger.times i
    rw [Ledger.times_run howner, if_neg hother]
  | _ => rfl

theorem Kept.deleted_run (h : c.Kept) (hi : i ∈ c.ledger.deleted) {events : List Event}
    (hevents : Along Chronicle.step Allowed c events) :
    ∃ d, runFrom Chronicle.step c events = some d ∧ d.ledger.times i = c.ledger.times i := by
  have hprogress : ∃ d, runFrom Chronicle.step c events = some d ∧
      d.Kept ∧ i ∈ d.ledger.deleted ∧ d.ledger.times i = c.ledger.times i := by
    apply runFrom_progress _ ⟨h, hi, rfl⟩ hevents
    rintro a e ⟨ha, hda, htimes⟩ he
    obtain ⟨b, hstep, -, hb⟩ := ha.step he
    exact ⟨b, hstep, hb, ha.deleted_step he hstep hda, (ha.times_step he hstep hda).trans htimes⟩
  obtain ⟨d, hd, -, -, htimes⟩ := hprogress
  exact ⟨d, hd, htimes⟩

/-- The timer has been deleted, or the end of the batch will delete it. -/
def Cancelled (c : Chronicle) (i : ℕ) (r : Record) : Prop :=
  i ∈ c.ledger.deleted ∨ ∃ f, c.state.frame = some f ∧ r.timerId ∈ f.expired ∧
    r.timerId ∈ c.state.queue.cancelingTimers

theorem Kept.cancelled (h : c.Kept) (hi : i ∈ c.ledger.inserted)
    (hr : c.ledger.records[i]? = some r)
    (hstep : c.step (.cancelTimerInLoop r.timerId) = some d) : d.Cancelled i r := by
  have he : c.Allowed (.cancelTimerInLoop r.timerId) := trivial
  obtain ⟨hmove, hkept, -⟩ := h.of_step he hstep
  by_cases hd : i ∈ c.ledger.deleted
  · exact .inl (h.deleted_step he hstep hd)
  have hplace : r.timerId ∈ c.state.queue.timers ∨
      ∃ f, c.state.frame = some f ∧ r.timerId ∈ f.expired := by
    rcases h.placed i r (h.owner i r hr hd) with ⟨-, hnot, -⟩ | ⟨-, hplace⟩
    · exact absurd hi hnot
    · exact hplace
  obtain ⟨t, l⟩ := d
  cases hmove with
  | cancel hmem =>
    refine .inl (hkept.deleted_of_dead (h.record_step he hstep hr) ?_)
    intro hlive
    exact (OrderedMap.mem_erase.mp hlive).1 rfl
  | cancelExpired hmem hf =>
    obtain ⟨f, hf', hmem'⟩ := hplace.resolve_left hmem
    exact .inr ⟨f, hf', hmem', OrderedMap.mem_insert.mpr (.inl rfl)⟩
  | cancelNone hmem hf =>
    obtain ⟨f, hf', -⟩ := hplace.resolve_left hmem
    cases hf.symm.trans hf'

theorem Cancelled.step (hcancelled : c.Cancelled i r) (h : c.Kept) (he : c.Allowed e)
    (hr : c.ledger.records[i]? = some r) (hstep : c.step e = some d) : d.Cancelled i r := by
  rcases hcancelled with hd | ⟨f, hf, hexpired, hcanceling⟩
  · exact .inl (h.deleted_step he hstep hd)
  obtain ⟨hmove, hkept, -⟩ := h.of_step he hstep
  have hr' := h.record_step he hstep hr
  obtain ⟨t, l⟩ := d
  cases hmove with
  | cancelExpired hmem hf' =>
    exact .inr ⟨f, hf, hexpired, OrderedMap.mem_insert.mpr (.inr hcanceling)⟩
  | handleRead hf' => cases hf.symm.trans hf'
  | runTimer hf' hremaining =>
    cases hf.symm.trans hf'
    exact .inr ⟨_, rfl, hexpired, hcanceling⟩
  | @endRead now f' timers heap fd hf' hremaining hreset =>
    cases hf.symm.trans hf'
    refine .inl (hkept.deleted_of_dead hr' ?_)
    obtain ⟨x, hx⟩ := (h.owned.frame f hf).live _ hexpired
    have hnone := hreset.own _ hexpired x hx
    have hnot : restarts c.state.queue.cancelingTimers r.timerId x = false := by
      rw [restarts, decide_eq_false (not_not.mpr hcanceling), Bool.and_false]
    rw [hnot, if_neg Bool.false_ne_true] at hnone
    exact not_not.mpr hnone
  | _ => exact .inr ⟨f, hf, hexpired, hcanceling⟩

theorem Cancelled.run {events : List Event} (hcancelled : c.Cancelled i r) (h : c.Kept)
    (hr : c.ledger.records[i]? = some r) (halong : Along Chronicle.step Allowed c events)
    (hrun : runFrom Chronicle.step c events = some d) : d.Kept ∧ d.Cancelled i r := by
  have hall : d.Kept ∧ d.ledger.records[i]? = some r ∧ d.Cancelled i r := by
    apply runFrom_invariant_along _ ⟨h, hr, hcancelled⟩ halong hrun
    rintro a e b ⟨ha, hra, hca⟩ he hstep
    exact ⟨(ha.of_step he hstep).2.1, ha.record_step he hstep hra, hca.step ha he hra hstep⟩
  exact ⟨hall.1, hall.2.2⟩

end Chronicle

/-- Once a timer that has been inserted is cancelled with the id from its `addTimer`, whatever it
has gone through, it is not registered when `handleRead` is not running, and from then on its
callback never runs. -/
theorem cancel_sticks {before after : List Event} {c d : Chronicle} {i : ℕ} {r : Record}
    (hbefore : Along Chronicle.step Chronicle.Allowed Chronicle.init before)
    (hc : runFrom Chronicle.step Chronicle.init before = some c)
    (hi : i ∈ c.ledger.inserted) (hr : c.ledger.records[i]? = some r)
    (hafter : Along Chronicle.step Chronicle.Allowed c (.cancelTimerInLoop r.timerId :: after))
    (hd : runFrom Chronicle.step c (.cancelTimerInLoop r.timerId :: after) = some d)
    (hidle : d.state.frame = none) :
    (∀ e ∈ d.state.queue.timers, d.ledger.owner.find e.timer ≠ some i) ∧
      ∀ later, Along Chronicle.step Chronicle.Allowed d later →
        ∃ u, runFrom Chronicle.step d later = some u ∧ u.ledger.times i = d.ledger.times i := by
  obtain ⟨c', hc', hkept⟩ := Chronicle.kept_run hbefore
  cases hc.symm.trans hc'
  obtain ⟨b, hcancel, hrun⟩ := (runFrom_cons ..).mp hd
  obtain ⟨-, hb, -⟩ := hkept.of_step hafter.1 hcancel
  obtain ⟨hdkept, hcancelled⟩ := (hkept.cancelled hi hr hcancel).run hb
    (hkept.record_step hafter.1 hcancel hr) (hafter.2 b hcancel) hrun
  have hdeleted : i ∈ d.ledger.deleted := by
    rcases hcancelled with hdeleted | ⟨f, hf, -⟩
    · exact hdeleted
    · cases hidle.symm.trans hf
  constructor
  · intro e he
    exact hdkept.owner_ne hdeleted (hdkept.owned.mem_heap he)
  · intro later hlater
    exact hdkept.deleted_run hdeleted hlater

def restartedRun : List Event :=
  [.newTimer 16 1000000 (.ofNat 1), .addTimerInLoop 16 0, .handleRead 1000000 true, .runTimer,
    .endRead 1000000, .handleRead 2000000 true, .runTimer]

/-- The second callback of the timer cancels it. -/
theorem restartedRun_cancel_sticks :
    ∃ c d, runFrom Chronicle.step Chronicle.init restartedRun = some c ∧
      runFrom Chronicle.step c [.cancelTimerInLoop ⟨1000000, 16⟩, .endRead 2000000] = some d ∧
      (∀ e ∈ d.state.queue.timers, d.ledger.owner.find e.timer ≠ some 0) ∧
      ∀ later, Along Chronicle.step Chronicle.Allowed d later →
        ∃ u, runFrom Chronicle.step d later = some u ∧ u.ledger.times 0 = d.ledger.times 0 := by
  let after : List Event := [.cancelTimerInLoop ⟨1000000, 16⟩, .endRead 2000000]
  have hrun : (runFrom Chronicle.step Chronicle.init restartedRun).any (fun c =>
      0 ∈ c.ledger.inserted ∧ c.ledger.records[0]? = some ⟨16, 1000000, .ofNat 1⟩ ∧
        Along Chronicle.step Chronicle.Allowed c after ∧
        (runFrom Chronicle.step c after).any fun d => d.state.frame = none) = true := by
    decide +kernel
  obtain ⟨c, hc, hcond⟩ := (Option.any_eq_true _ _).mp hrun
  obtain ⟨hi, hr, hafter, hidle⟩ := of_decide_eq_true hcond
  obtain ⟨d, hd, hidle⟩ := (Option.any_eq_true _ _).mp hidle
  exact ⟨c, d, hc, hd, cancel_sticks (r := ⟨16, 1000000, .ofNat 1⟩) (by decide +kernel) hc hi hr
    hafter hd (of_decide_eq_true hidle)⟩

end TimerRuns

end Matelib
