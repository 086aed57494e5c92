import Matelib.TimerRuns

/-!
# When the timer queue oversleeps

The timer descriptor is armed for the first registered timer. A restarted timer is registered under
its old time, so the first entry need not be the timer that expires first, and the descriptor can be
armed too late for a timer behind it. The main result says in which runs this never happens.
-/

namespace Matelib

namespace TimerRuns

open TimerQueue Transition

/-- The descriptor fires no later than the earliest registered timer expires, or than 100
microseconds after it was armed; it is armed whenever `handleRead` is not running. -/
structure NeverOversleeps (s : State) : Prop where
  armed : s.frame = none → ∀ e ∈ s.queue.timers, s.queue.timerfd.armed = true
  inTime : ∀ e ∈ s.queue.timers, ∀ t, s.heap.find e.timer = some t →
    s.queue.timerfd.deadline ≤ max t.expiration (s.queue.timerfd.armedAt + 100)

/-- `addTimerInLoop` arms the descriptor for the timer, or the descriptor is early enough for it. -/
def AddInTime (s : State) (timer : ℕ) : Prop :=
  ∀ t, s.heap.find timer = some t → s.queue.earliestChanged t.expiration = false →
    s.queue.timerfd.deadline ≤ max t.expiration (s.queue.timerfd.armedAt + 100)

/-- When a restarted timer comes first in the set, none of the others expires before it, or before
the descriptor can fire, which is armed at `now`. -/
def ResetInTime (s : State) (f : Frame) (now : ℤ) : Prop :=
  ∀ r t, WillRestart s f r t → (∀ e ∈ s.queue.timers, r < e) →
    (∀ e x, WillRestart s f e x → r ≤ e) →
    (∀ e ∈ s.queue.timers, ∀ x, s.heap.find e.timer = some x →
      (t.restart f.now).expiration ≤ max x.expiration (now + 100)) ∧
    ∀ e x, WillRestart s f e x →
      (t.restart f.now).expiration ≤ max (x.restart f.now).expiration (now + 100)

/-- The condition on a step under which the queue does not begin to oversleep. -/
def InTime (s : State) : Event → Prop
  | .addTimerInLoop timer _ => AddInTime s timer
  | .endRead now => ∀ f, s.frame = some f → ResetInTime s f now
  | _ => True

instance (s : State) (f : Frame) (now : ℤ) : Decidable (ResetInTime s f now) :=
  inferInstanceAs (Decidable (∀ r t, WillRestart s f r t → (∀ e ∈ s.queue.timers, r < e) →
    (∀ e x, WillRestart s f e x → r ≤ e) → _ ∧ ∀ e x, WillRestart s f e x → _))

instance (s : State) : DecidablePred (InTime s)
  | .addTimerInLoop _ _ => inferInstanceAs (Decidable (∀ t, s.heap.find _ = some t → _))
  | .endRead now => inferInstanceAs (Decidable (∀ f ∈ s.frame, ResetInTime s f now))
  | .newTimer _ _ _ | .cancelTimerInLoop _ | .handleRead _ _ | .runTimer => isTrue trivial

theorem neverOversleeps_init : NeverOversleeps State.init where
  armed _ e he := absurd he (OrderedMap.not_mem_empty e)
  inTime e he := absurd he (OrderedMap.not_mem_empty e)

theorem NeverOversleeps.of_subset {s s' : State} (h : NeverOversleeps s)
    (hframe : s'.frame = none → s.frame = none)
    (harmed : s'.frame = none → s'.queue.timerfd.armed = s.queue.timerfd.armed)
    (hdeadline : s'.queue.timerfd.deadline = s.queue.timerfd.deadline)
    (harmedAt : s'.queue.timerfd.armedAt = s.queue.timerfd.armedAt)
    (hsub : ∀ e ∈ s'.queue.timers,
      e ∈ s.queue.timers ∧ s'.heap.find e.timer = s.heap.find e.timer) :
    NeverOversleeps s' where
  armed hidle e he := by
    rw [harmed hidle]
    exact h.armed (hframe hidle) e (hsub e he).1
  inTime e he t ht := by
    rw [(hsub e he).2] at ht
    rw [hdeadline, harmedAt]
    exact h.inTime e (hsub e he).1 t ht

theorem addTimerInLoop_inTime {s t : State} (h : Inv s) (hs : NeverOversleeps s) {timer : ℕ}
    {now : ℤ} (hstep : step s (.addTimerInLoop timer now) = some t) :
    NeverOversleeps t ↔ AddInTime s timer := by
  obtain ⟨⟨hfresh, _⟩, hperform, _⟩ := inv_step h hstep
  obtain ⟨x, hx, hadd, _⟩ := h.owned.addTimerInLoop hfresh now
  rw [perform, hadd, Option.map_some, Option.some.injEq] at hperform
  subst hperform
  have hnew : (⟨x.expiration, timer⟩ : Entry) ∈
      s.queue.timers.insert ⟨x.expiration, timer⟩ () := OrderedMap.mem_insert.mpr (Or.inl rfl)
  cases hearliest : s.queue.earliestChanged x.expiration with
  | true =>
    -- armed for the new timer, which is earlier than all others
    refine iff_of_true ⟨?_, ?_⟩ ?_
    · intro _ e _
      simp only [resetTimerfd_eq, if_true]
    · intro e he y hy
      simp only [resetTimerfd_eq, if_true]
      rcases OrderedMap.mem_insert.mp he with rfl | he
      · rw [hx, Option.some.injEq] at hy
        rw [hy]
      · obtain ⟨z, hz, hkey⟩ := h.live he
        have hz' : y = z := Option.some.inj (hy.symm.trans hz)
        have hlt := lt_of_earliestChanged hearliest he
        rw [hz']
        apply max_le_max_right
        rcases hkey with hkey | ⟨hkey, _⟩ <;> omega
    · intro y hy hfalse
      cases hx.symm.trans hy
      cases hearliest.symm.trans hfalse
  | false =>
    simp only [Bool.false_eq_true, if_false]
    constructor
    · intro ht y hy _
      exact ht.inTime _ hnew y hy
    · intro hin
      obtain ⟨front, hfront, _⟩ := earliestChanged_eq_false hearliest
      refine ⟨fun hidle e _ => hs.armed hidle front hfront, ?_⟩
      intro e he y hy
      rcases OrderedMap.mem_insert.mp he with rfl | he
      · exact hin y hy (by rw [← hearliest, Option.some.inj (hx.symm.trans hy)])
      · exact hs.inTime e he y hy

theorem time_le_expiration {s : State} (h : Inv s) {f : Frame} (hf : s.frame = some f)
    {timers : TimerSet} {heap : Heap} (hreset : Reset s f timers heap) {e : Entry}
    (he : e ∈ timers) {t : Timer} (ht : heap.find e.timer = some t) : e.time ≤ t.expiration := by
  obtain ⟨x, hx, hkey⟩ := hreset.live h hf he
  cases ht.symm.trans hx
  rcases hkey with hkey | ⟨hkey, _⟩
  · exact hkey.ge
  · exact hkey

/-- The descriptor that `reset` arms for the first entry is in time exactly under the condition. -/
theorem reset_inTime {s : State} (h : Inv s) {f : Frame} (hf : s.frame = some f) {now : ℤ}
    {timers : TimerSet} {heap : Heap} (hreset : Reset s f timers heap) {first : Entry}
    (hfirst : timers.front? = some first) {t : Timer} (ht : heap.find first.timer = some t) :
    (∀ e ∈ timers, ∀ x, heap.find e.timer = some x →
      t.expiration ≤ max x.expiration (now + 100)) ↔ ResetInTime s f now := by
  obtain ⟨hmem, hleast⟩ := OrderedMap.front?_eq_some hfirst
  constructor
  · intro hin r y hr hbefore hbetween
    have hr' : r ∈ timers := (hreset.mem r).mpr (Or.inr ⟨y, hr⟩)
    have hsame : r = first := by
      apply le_antisymm _ (hleast r hr')
      rcases (hreset.mem first).mp hmem with hp | ⟨z, hz⟩
      · exact (hbefore first hp).le
      · exact hbetween first z hz
    subst hsame
    cases ht.symm.trans (hreset.restarted hr)
    constructor
    · intro e he x hx
      exact hin e ((hreset.mem e).mpr (Or.inl he)) x
        ((hreset.pending (h.owned.frame f hf) he).trans hx)
    · intro e x hex
      exact hin e ((hreset.mem e).mpr (Or.inr ⟨x, hex⟩)) _ (hreset.restarted hex)
  · intro hin e he x hx
    rcases (hreset.mem first).mp hmem with hp | ⟨y, hy⟩
    · -- the first entry was pending, so it stands under the time of its timer
      rw [hreset.pending (h.owned.frame f hf) hp] at ht
      rw [h.timed.exact f hf first hp t ht]
      exact le_max_of_le_left
        ((Entry.time_le (hleast e he)).trans (time_le_expiration h hf hreset he hx))
    · cases ht.symm.trans (hreset.restarted hy)
      have hcond := hin first y hy
        (fun d hd => lt_of_le_of_ne (hleast d ((hreset.mem d).mpr (Or.inl hd)))
          (fun heq => (h.owned.frame f hf).apart first hy.1 d hd (heq ▸ rfl)))
        (fun d z hz => hleast d ((hreset.mem d).mpr (Or.inr ⟨z, hz⟩)))
      rcases (hreset.mem e).mp he with hp | ⟨z, hz⟩
      · exact hcond.1 e hp x ((hreset.pending (h.owned.frame f hf) hp).symm.trans hx)
      · cases hx.symm.trans (hreset.restarted hz)
        exact hcond.2 e z hz

theorem endRead_inTime {s t : State} (h : Inv s) {now : ℤ}
    (hstep : step s (.endRead now) = some t) :
    NeverOversleeps t ↔ ∀ f, s.frame = some f → ResetInTime s f now := by
  obtain ⟨⟨hframe, _⟩, hperform, _⟩ := inv_step h hstep
  obtain ⟨f, hf, _⟩ := frame_of_remaining hframe
  obtain ⟨timers, heap, fd, hend, hreset, hfd, _⟩ := h.owned.endExpired hf now
  rw [perform, hf, Option.bind_some, hend, Option.map_some, Option.some.injEq] at hperform
  subst hperform
  have hframes : (∀ f', s.frame = some f' → ResetInTime s f' now) ↔ ResetInTime s f now := by
    constructor
    · intro hin
      exact hin f hf
    · intro hin f' hf'
      cases hf.symm.trans hf'
      exact hin
  rw [hframes]
  cases hfront : timers.front? with
  | none =>
    have hempty := OrderedMap.front?_eq_none.mp hfront
    refine iff_of_true ⟨fun _ e he => absurd he (hempty e), fun e he => absurd he (hempty e)⟩ ?_
    intro r y hr
    exact absurd ((hreset.mem r).mpr (Or.inr ⟨y, hr⟩)) (hempty r)
  | some first =>
    obtain ⟨y, hy, rfl⟩ := hfd first hfront
    rw [← reset_inTime h hf hreset hfront hy]
    constructor
    · intro hs e he x hx
      have hin := hs.inTime e he x hx
      simp only [resetTimerfd_eq] at hin
      exact (le_max_left _ _).trans hin
    · intro hin
      refine ⟨?_, ?_⟩
      · intro _ e _
        simp only [resetTimerfd_eq]
      · intro e he x hx
        simp only [resetTimerfd_eq]
        exact max_le (hin e he x hx) (le_max_right _ _)

theorem move_of_step {s t : State} {e : Event} (h : Inv s) (hstep : step s e = some t) :
    Move s e t := by
  obtain ⟨he, hperform, _⟩ := inv_step h hstep
  obtain ⟨t', hperform', hmove, _⟩ := h.owned.perform he.allowed
  cases hperform.symm.trans hperform'
  exact hmove

/-- A step keeps the queue in time exactly when it meets the condition. -/
theorem step_inTime {s t : State} {e : Event} (h : Inv s) (hs : NeverOversleeps s)
    (hstep : step s e = some t) : NeverOversleeps t ↔ InTime s e := by
  cases e with
  | newTimer timer time intervalInSec =>
    obtain ⟨⟨hnew, _⟩, hperform, _⟩ := inv_step h hstep
    cases hperform
    refine iff_of_true (hs.of_subset id (fun _ => rfl) rfl rfl ?_) trivial
    intro e he
    exact ⟨he, OrderedMap.find_insert_of_ne _ _ (fun heq => hnew (heq ▸ h.owned.mem_heap he))⟩
  | addTimerInLoop timer now => exact addTimerInLoop_inTime h hs hstep
  | cancelTimerInLoop timerId =>
    refine iff_of_true ?_ trivial
    have hmove := move_of_step h hstep
    cases hmove with
    | cancel hmem =>
      refine hs.of_subset id (fun _ => rfl) rfl rfl ?_
      intro e he
      obtain ⟨he, hne⟩ := h.owned.ne_of_erase hmem he
      exact ⟨he, OrderedMap.find_erase_of_ne _ (Ne.symm hne)⟩
    | cancelExpired hmem hf => exact hs.of_subset id (fun _ => rfl) rfl rfl fun e he => ⟨he, rfl⟩
    | cancelNone hmem hf => exact hs
  | handleRead now fired =>
    obtain ⟨_, hperform, _⟩ := inv_step h hstep
    obtain ⟨expired, rest, hbegin, _, hrest, _⟩ := h.owned.beginExpired now fired
    rw [perform, hbegin, Option.map_some, Option.some.injEq] at hperform
    subst hperform
    exact iff_of_true (hs.of_subset (fun hidle => absurd hidle (Option.some_ne_none _))
      (fun hidle => absurd hidle (Option.some_ne_none _)) rfl rfl
      fun e he => ⟨((hrest e).mp he).1, rfl⟩) trivial
  | runTimer =>
    refine iff_of_true ?_ trivial
    have hmove := move_of_step h hstep
    cases hmove with
    | runTimer hf hremaining =>
      exact hs.of_subset (fun hidle => absurd hidle (Option.some_ne_none _))
        (fun hidle => absurd hidle (Option.some_ne_none _)) rfl rfl fun e he => ⟨he, rfl⟩
  | endRead now => exact endRead_inTime h hstep

/-- A run of the timer queue never oversleeps exactly when each of its steps meets the condition. -/
theorem neverOversleeps_iff_inTime {es : List Event} {s : State}
    (hrun : runFrom step State.init es = some s) :
    Throughout step NeverOversleeps State.init es ↔ Along step InTime State.init es :=
  throughout_iff_along (fun _ _ _ h hstep => (inv_step h hstep).2.2)
    (fun _ _ _ h hs hstep => step_inTime h hs hstep) inv_init neverOversleeps_init hrun

/-- A timer that repeats every 2 s and a one-shot timer that expires at 2.5 s; the descriptor fires
at 2 s. -/
def oversleepingRun : List Event :=
  [.newTimer 1 2000000 (.ofNat 2), .newTimer 2 2500000 (.ofNat 0), .addTimerInLoop 1 0,
    .addTimerInLoop 2 0, .handleRead 2000000 true, .runTimer, .endRead 2000000]

/-- The timer that expires first is restarted for an earlier time than the other one. -/
def punctualRun : List Event :=
  [.newTimer 1 1000000 (.ofNat 1), .newTimer 2 2500000 (.ofNat 0), .addTimerInLoop 1 0,
    .addTimerInLoop 2 0, .handleRead 1000000 true, .runTimer, .endRead 1000000]

theorem oversleepingRun_iff :
    (∃ s, runFrom step State.init oversleepingRun = some s ∧
      (Throughout step NeverOversleeps State.init oversleepingRun ↔
        Along step InTime State.init oversleepingRun)) ∧
      Throughout step NeverOversleeps State.init punctualRun := by
  have hlate : (runFrom step State.init oversleepingRun).isSome = true := by decide +kernel
  have hpunctual : (runFrom step State.init punctualRun).isSome = true := by decide +kernel
  obtain ⟨s, hs⟩ := Option.isSome_iff_exists.mp hlate
  obtain ⟨t, ht⟩ := Option.isSome_iff_exists.mp hpunctual
  exact ⟨⟨s, hs, neverOversleeps_iff_inTime hs⟩,
    (neverOversleeps_iff_inTime ht).mpr (by decide +kernel)⟩

/-- After `oversleepingRun` the descriptor is armed for 4 s, although the one-shot timer expires at
2.5 s. -/
theorem oversleepingRun_late :
    ∃ s, runFrom step State.init oversleepingRun = some s ∧ ¬ NeverOversleeps s := by
  have hrun : (runFrom step State.init oversleepingRun).any (fun s =>
      s.heap.find 2 = some ⟨2500000, .ofNat 0⟩ ∧ ⟨2500000, 2⟩ ∈ s.queue.timers ∧
        s.queue.timerfd = ⟨true, 2000000, 4000000⟩) = true := by decide +kernel
  obtain ⟨s, hs, hlate⟩ := (Option.any_eq_true _ _).mp hrun
  rw [decide_eq_true_eq] at hlate
  obtain ⟨htimer, hmem, hfd⟩ := hlate
  refine ⟨s, hs, ?_⟩
  intro h
  have hin := h.inTime _ hmem _ htimer
  rw [hfd] at hin
  exact absurd hin (by decide)

end TimerRuns

end Matelib
