import Matelib.TimerSteps

/-!
# Runs of the timer queue

When the clock does not go back, only timers which are due at once are registered under an older
time than their own.
-/

namespace Matelib

namespace TimerRuns

open TimerQueue Transition

/-- A registered timer stands under its own time or under one that is over, and under its own time
while `handleRead` runs callbacks. -/
structure Timed (s : State) : Prop where
  key : ∀ e ∈ s.queue.timers, ∀ t, s.heap.find e.timer = some t →
    t.expiration = e.time ∨ e.time ≤ t.expiration ∧ e.time ≤ s.clock
  now_le : ∀ f, s.frame = some f → f.now ≤ s.clock
  exact : ∀ f, s.frame = some f → ∀ e ∈ s.queue.timers, ∀ t,
    s.heap.find e.timer = some t → t.expiration = e.time
  due : ∀ f, s.frame = some f → ∀ e ∈ f.expired, e.time ≤ f.now

structure Inv (s : State) : Prop where
  owned : Owned s
  timed : Timed s

theorem inv_init : Inv State.init where
  owned := owned_init
  timed :=
    { key := fun e he => absurd he (OrderedMap.not_mem_empty e)
      now_le := nofun
      exact := nofun
      due := nofun }

theorem Inv.live {s : State} (h : Inv s) {e : Entry} (he : e ∈ s.queue.timers) :
    ∃ t, s.heap.find e.timer = some t ∧
      (t.expiration = e.time ∨ e.time ≤ t.expiration ∧ e.time ≤ s.clock) := by
  obtain ⟨t, ht⟩ := h.owned.live e he
  exact ⟨t, ht, h.timed.key e he t ht⟩

theorem WillRestart.repeats {s : State} {f : Frame} {e : Entry} {t : Timer}
    (h : WillRestart s f e t) : t.repeats = true := by
  have hr := h.2.2
  rw [restarts, Bool.and_eq_true] at hr
  exact hr.1

/-- After `reset` a timer is registered under its own time, as it was, or it was restarted, and the
time of its entry is over. -/
theorem Reset.live {s : State} (h : Inv s) {f : Frame} (hf : s.frame = some f)
    {timers : TimerSet} {heap : Heap} (hreset : Reset s f timers heap) {e : Entry}
    (he : e ∈ timers) :
    ∃ t, heap.find e.timer = some t ∧
      (t.expiration = e.time ∨ e.time ≤ t.expiration ∧ e.time ≤ s.clock) := by
  rcases (hreset.mem e).mp he with he | ⟨t, hr⟩
  · rw [hreset.pending (h.owned.frame f hf) he]
    exact h.live he
  · have hdue := h.timed.due f hf e hr.1
    have hdelta : 0 ≤ Timestamp.delta t.intervalInSec := Timestamp.delta_nonneg hr.repeats
    refine ⟨_, hreset.restarted hr, Or.inr ⟨?_, hdue.trans (h.timed.now_le f hf)⟩⟩
    rw [Timer.restart, hr.repeats, if_pos rfl]
    change e.time ≤ f.now + Timestamp.delta t.intervalInSec
    omega

theorem Move.timed {s t : State} (h : Inv s) {e : Event} (he : Enabled s e) (hmove : Move s e t) :
    Timed t := by
  obtain ⟨howned, htimed⟩ := h
  cases hmove with
  | @newTimer timer time intervalInSec hnew =>
    have hkeep : ∀ e ∈ s.queue.timers,
        (s.heap.insert timer ⟨time, intervalInSec⟩).find e.timer = s.heap.find e.timer := by
      intro e he
      exact OrderedMap.find_insert_of_ne _ _ (fun heq => hnew (heq ▸ howned.mem_heap he))
    refine ⟨?_, htimed.now_le, ?_, htimed.due⟩
    · intro e he x hx
      rw [hkeep e he] at hx
      exact htimed.key e he x hx
    · intro f hf e he x hx
      rw [hkeep e he] at hx
      exact htimed.exact f hf e he x hx
  | @add timer now x fd hfresh hx =>
    have hclock : s.clock ≤ now := he.2
    refine ⟨?_, ?_, ?_, htimed.due⟩
    · intro e he y hy
      rcases OrderedMap.mem_insert.mp he with rfl | he
      · cases hx.symm.trans hy
        exact Or.inl rfl
      · exact (htimed.key e he y hy).imp_right (And.imp_right hclock.trans')
    · intro f hf
      exact (htimed.now_le f hf).trans hclock
    · intro f hf e he y hy
      rcases OrderedMap.mem_insert.mp he with rfl | he
      · cases hx.symm.trans hy
        rfl
      · exact htimed.exact f hf e he y hy
  | @cancel timerId hmem =>
    have hkeep : ∀ e ∈ s.queue.timers.erase timerId,
        e ∈ s.queue.timers ∧ (s.heap.erase timerId.timer).find e.timer = s.heap.find e.timer := by
      intro e he
      obtain ⟨he, hne⟩ := howned.ne_of_erase hmem he
      exact ⟨he, OrderedMap.find_erase_of_ne _ (Ne.symm hne)⟩
    refine ⟨?_, htimed.now_le, ?_, htimed.due⟩
    · intro e he x hx
      rw [(hkeep e he).2] at hx
      exact htimed.key e (hkeep e he).1 x hx
    · intro f hf e he x hx
      rw [(hkeep e he).2] at hx
      exact htimed.exact f hf e (hkeep e he).1 x hx
  | cancelExpired hmem hf => exact ⟨htimed.key, htimed.now_le, htimed.exact, htimed.due⟩
  | cancelNone hmem hf => exact htimed
  | @handleRead now fired expired rest fd hf hexpired hrest =>
    have hclock : s.clock ≤ now := he.2
    refine ⟨?_, ?_, ?_, ?_⟩
    · intro e he x hx
      exact (htimed.key e ((hrest e).mp he).1 x hx).imp_right (And.imp_right hclock.trans')
    · rintro f ⟨⟩
      exact le_rfl
    · rintro f ⟨⟩ e he x hx
      -- what stays in the set is not due, so it stands under the time of its timer
      obtain ⟨hmem, hlater⟩ := (hrest e).mp he
      rcases htimed.key e hmem x hx with hkey | ⟨-, hover⟩
      · exact hkey
      · exact absurd (hover.trans hclock) (not_le_of_gt hlater)
    · rintro f ⟨⟩ e he
      exact ((hexpired e).mp he).2
  | @runTimer f entry rest hf hremaining =>
    refine ⟨htimed.key, ?_, ?_, ?_⟩
    · rintro f' ⟨⟩
      exact htimed.now_le f hf
    · rintro f' ⟨⟩
      exact htimed.exact f hf
    · rintro f' ⟨⟩
      exact htimed.due f hf
  | @endRead now f timers heap fd hf hremaining hreset =>
    have hclock : s.clock ≤ now := he.2
    refine ⟨?_, (fun _ hf => nomatch hf), (fun _ hf => nomatch hf), fun _ hf => nomatch hf⟩
    intro e he x hx
    obtain ⟨y, hy, hkey⟩ := hreset.live ⟨howned, htimed⟩ hf he
    cases hx.symm.trans hy
    exact hkey.imp_right (And.imp_right hclock.trans')

theorem inv_perform {s : State} (h : Inv s) {e : Event} (he : Enabled s e) :
    ∃ s', perform s e = some s' ∧ Inv s' := by
  obtain ⟨t, hperform, hmove, howned⟩ := h.owned.perform he.allowed
  exact ⟨t, hperform, howned, hmove.timed h he⟩

theorem inv_step {s t : State} (h : Inv s) {e : Event} (hstep : step s e = some t) :
    Enabled s e ∧ perform s e = some t ∧ Inv t := by
  unfold step at hstep
  split_ifs at hstep with he
  obtain ⟨t', ht', hinv⟩ := inv_perform h he
  obtain rfl : t = t' := Option.some.inj (hstep.symm.trans ht')
  exact ⟨he, ht', hinv⟩

end TimerRuns

end Matelib
