import Matelib.TimerQueue
import Matelib.Transition

/-!
# Steps of the timer queue

The loop thread runs `addTimerInLoop`, `cancelTimerInLoop` and `handleRead`; the callbacks that
`handleRead` runs may add and cancel timers, and any thread may create timers that are added later.
Addresses are those an allocator may return. `Owned` says where a live timer can be, whatever times
the clock shows, and `Move` what a step can do.
-/

namespace Matelib

namespace TimerQueue

theorem resetEntry_spec (c : TimerSet) (now : ℤ) (timers : TimerSet) {heap : Heap} {d : Entry}
    {t : Timer} (ht : heap.find d.timer = some t) :
    ∃ timers' heap', resetEntry c now (timers, heap) d = some (timers', heap') ∧
      (∀ e, e ∈ timers' ↔ e ∈ timers ∨ e = d ∧ restarts c d t = true) ∧
      (∀ p, p ≠ d.timer → heap'.find p = heap.find p) ∧
      heap'.find d.timer = if restarts c d t then some (t.restart now) else none := by
  by_cases hr : restarts c d t = true
  · refine ⟨timers.insert d (), heap.insert d.timer (t.restart now), ?_, ?_, ?_, ?_⟩
    · simp only [resetEntry, ht, Option.bind_some, if_pos hr]
    · intro e
      rw [OrderedMap.mem_insert, or_comm]
      simp [hr]
    · intro p hp
      exact OrderedMap.find_insert_of_ne _ _ (Ne.symm hp)
    · rw [OrderedMap.find_insert_self, if_pos hr]
  · have hmem := OrderedMap.mem_of_find ht
    refine ⟨timers, heap.erase d.timer, ?_, ?_, ?_, ?_⟩
    · simp only [resetEntry, ht, Option.bind_some, if_neg hr, free_of_mem hmem, Option.map_some]
    · intro e
      simp [hr]
    · intro p hp
      exact OrderedMap.find_erase_of_ne _ (Ne.symm hp)
    · rw [OrderedMap.find_erase_self, if_neg hr]

/-- `reset` handles each of its entries on its own: what repeats and was not cancelled is restarted
and registered again, and everything else is deleted. -/
theorem resetEntries_spec {c : TimerSet} {now : ℤ} {es : List Entry} (timers : TimerSet)
    {heap : Heap} (hlive : ∀ e ∈ es, ∃ t, heap.find e.timer = some t)
    (hnodup : (es.map Entry.timer).Nodup) :
    ∃ timers' heap', es.foldlM (resetEntry c now) (timers, heap) = some (timers', heap') ∧
      (∀ e, e ∈ timers' ↔ e ∈ timers ∨
        e ∈ es ∧ ∃ t, heap.find e.timer = some t ∧ restarts c e t = true) ∧
      (∀ p, p ∉ es.map Entry.timer → heap'.find p = heap.find p) ∧
      ∀ e ∈ es, ∀ t, heap.find e.timer = some t →
        heap'.find e.timer = if restarts c e t then some (t.restart now) else none := by
  induction es generalizing timers heap with
  | nil =>
    refine ⟨timers, heap, rfl, ?_, fun _ _ => rfl, ?_⟩
    · intro e
      simp
    · intro e he
      cases he
  | cons d es ih =>
    rw [List.forall_mem_cons] at hlive
    rw [List.map_cons, List.nodup_cons] at hnodup
    obtain ⟨⟨t, ht⟩, hlive⟩ := hlive
    obtain ⟨timers₁, heap₁, hround, htimers₁, hsame, hown⟩ := resetEntry_spec c now timers ht
    have hne : ∀ e ∈ es, e.timer ≠ d.timer := by
      intro e he heq
      exact hnodup.1 (heq ▸ List.mem_map_of_mem he)
    have hlive₁ : ∀ e ∈ es, ∃ t, heap₁.find e.timer = some t := by
      intro e he
      rw [hsame _ (hne e he)]
      exact hlive e he
    obtain ⟨timers', heap', hfold, htimers', hother, hentries⟩ :=
      ih timers₁ hlive₁ hnodup.2
    refine ⟨timers', heap', ?_, ?_, ?_, ?_⟩
    · rw [List.foldlM_cons, hround]
      exact hfold
    · intro e
      rw [htimers', htimers₁, List.mem_cons]
      constructor
      · rintro ((h | ⟨rfl, h⟩) | ⟨he, h⟩)
        · exact Or.inl h
        · exact Or.inr ⟨Or.inl rfl, t, ht, h⟩
        · rw [hsame _ (hne e he)] at h
          exact Or.inr ⟨Or.inr he, h⟩
      · rintro (h | ⟨rfl | he, t', ht', h⟩)
        · exact Or.inl (Or.inl h)
        · rw [ht, Option.some.injEq] at ht'
          subst ht'
          exact Or.inl (Or.inr ⟨rfl, h⟩)
        · refine Or.inr ⟨he, t', ?_, h⟩
          rw [hsame _ (hne e he), ht']
    · intro p hp
      rw [List.map_cons, List.mem_cons, not_or] at hp
      rw [hother p hp.2, hsame p hp.1]
    · intro e he t' ht'
      rcases List.mem_cons.mp he with rfl | he
      · rw [ht, Option.some.injEq] at ht'
        subst ht'
        rw [hother _ hnodup.1, hown]
      · rw [← hsame _ (hne e he)] at ht'
        exact hentries e he t' ht'

end TimerQueue

namespace TimerRuns

open TimerQueue Transition

/-- `handleRead` while it runs the callbacks: the expired entries, those of them whose callbacks are
still to run, and the time that it read. -/
structure Frame where
  expired : List Entry
  remaining : List Entry
  now : ℤ
  deriving DecidableEq

/-- `fresh` are the timers that were created and not yet added, and `clock` is the time last
read. -/
structure State where
  queue : TimerQueue
  heap : Heap
  fresh : OrderedSet ℕ
  frame : Option Frame
  clock : ℤ
  deriving DecidableEq

def State.init : State := ⟨TimerQueue.init, OrderedMap.empty, OrderedMap.empty, none, 0⟩

/-- What may happen: `new Timer` in `addTimer`, the operations in the loop thread, and the three
parts of `handleRead`. The last argument of `handleRead` says whether the descriptor has fired. -/
inductive Event where
  | newTimer (timer : ℕ) (time : ℤ) (intervalInSec : Double)
  | addTimerInLoop (timer : ℕ) (now : ℤ)
  | cancelTimerInLoop (timerId : Entry)
  | handleRead (now : ℤ) (fired : Bool)
  | runTimer
  | endRead (now : ℤ)
  deriving DecidableEq

/-- The event can happen: the allocator returns only an address that is free, a timer is added once,
`handleRead` does not run inside itself, it runs the callbacks of all expired timers before it
ends, and the clock does not go back. -/
def Enabled (s : State) : Event → Prop
  | .newTimer timer _ _ => timer ∉ s.heap ∧ 0 < timer ∧ timer < UINTPTR_MAX
  | .addTimerInLoop timer now => timer ∈ s.fresh ∧ s.clock ≤ now
  | .cancelTimerInLoop _ => True
  | .handleRead now _ => s.frame = none ∧ s.clock ≤ now
  | .runTimer => (s.frame.map Frame.remaining).any (· ≠ [])
  | .endRead now => s.frame.map Frame.remaining = some [] ∧ s.clock ≤ now

instance (s : State) (e : Event) : Decidable (Enabled s e) := by
  cases e <;> unfold Enabled <;> infer_instance

/-- What an event does; it fails when the code does. -/
def perform (s : State) : Event → Option State
  | .newTimer timer time intervalInSec =>
    some { s with
      heap := s.heap.insert timer ⟨time, intervalInSec⟩
      fresh := s.fresh.insert timer () }
  | .addTimerInLoop timer now =>
    (s.queue.addTimerInLoop s.heap timer now).map fun queue =>
      { s with queue := queue, fresh := s.fresh.erase timer, clock := now }
  | .cancelTimerInLoop timerId =>
    (s.queue.cancelTimerInLoop s.heap timerId).map fun (queue, heap) =>
      { s with queue := queue, heap := heap }
  | .handleRead now fired =>
    (s.queue.beginExpired now fired).map fun (queue, expired) =>
      { s with queue := queue, frame := some ⟨expired, expired, now⟩, clock := now }
  | .runTimer => s.frame.bind fun f =>
    match f.remaining with
    | [] => none
    | entry :: rest =>
      if entry.timer ∈ s.heap then some { s with frame := some { f with remaining := rest } }
      else none
  | .endRead now => s.frame.bind fun f =>
    (s.queue.endExpired s.heap f.expired f.now now).map fun (queue, heap) =>
      { s with queue := queue, heap := heap, frame := none, clock := now }

def step (s : State) (e : Event) : Option State := if Enabled s e then perform s e else none

/-- `Enabled` under any clock. -/
def Allowed (s : State) : Event → Prop
  | .newTimer timer _ _ => timer ∉ s.heap ∧ 0 < timer ∧ timer < UINTPTR_MAX
  | .addTimerInLoop timer _ => timer ∈ s.fresh
  | .cancelTimerInLoop _ => True
  | .handleRead _ _ => s.frame = none
  | .runTimer => (s.frame.map Frame.remaining).any (· ≠ [])
  | .endRead _ => s.frame.map Frame.remaining = some []

instance (s : State) (e : Event) : Decidable (Allowed s e) := by
  cases e <;> unfold Allowed <;> infer_instance

theorem Enabled.allowed {s : State} {e : Event} (h : Enabled s e) : Allowed s e := by
  cases e with
  | newTimer timer time intervalInSec => exact h
  | addTimerInLoop timer now => exact h.1
  | cancelTimerInLoop timerId => trivial
  | handleRead now fired => exact h.1
  | runTimer => exact h
  | endRead now => exact h.1

theorem frame_of_remaining {s : State} {l : List Entry}
    (h : s.frame.map Frame.remaining = some l) : ∃ f, s.frame = some f ∧ f.remaining = l :=
  Option.map_eq_some_iff.mp h

/-- While `handleRead` runs callbacks, the expired timers are alive, apart from each other and from
all that are registered or fresh. -/
structure FrameOwned (s : State) (f : Frame) : Prop where
  live : ∀ e ∈ f.expired, ∃ t, s.heap.find e.timer = some t
  nodup : (f.expired.map Entry.timer).Nodup
  apart : ∀ e ∈ f.expired, ∀ e' ∈ s.queue.timers, e'.timer ≠ e.timer
  apart_fresh : ∀ e ∈ f.expired, e.timer ∉ s.fresh
  remaining_sub : f.remaining ⊆ f.expired

/-- No timer is owned twice: a live timer is fresh, registered or expired. -/
structure Owned (s : State) : Prop where
  bound : ∀ p ∈ s.heap, p < UINTPTR_MAX
  live : ∀ e ∈ s.queue.timers, ∃ t, s.heap.find e.timer = some t
  inj : ∀ e ∈ s.queue.timers, ∀ e' ∈ s.queue.timers, e.timer = e'.timer → e = e'
  fresh_live : ∀ p ∈ s.fresh, p ∈ s.heap
  fresh_apart : ∀ e ∈ s.queue.timers, e.timer ∉ s.fresh
  calling : s.queue.callingExpiredTimers = s.frame.isSome
  frame : ∀ f, s.frame = some f → FrameOwned s f

theorem owned_init : Owned State.init where
  bound p hp := absurd hp (OrderedMap.not_mem_empty p)
  live e he := absurd he (OrderedMap.not_mem_empty e)
  inj e he := absurd he (OrderedMap.not_mem_empty e)
  fresh_live p hp := absurd hp (OrderedMap.not_mem_empty p)
  fresh_apart e he := absurd he (OrderedMap.not_mem_empty e)
  calling := rfl
  frame _ hf := nomatch hf

theorem Owned.mem_heap {s : State} (h : Owned s) {e : Entry} (he : e ∈ s.queue.timers) :
    e.timer ∈ s.heap := by
  obtain ⟨t, ht⟩ := h.live e he
  exact OrderedMap.mem_of_find ht

theorem FrameOwned.mem_heap {s : State} {f : Frame} (h : FrameOwned s f) {e : Entry}
    (he : e ∈ f.expired) : e.timer ∈ s.heap := by
  obtain ⟨t, ht⟩ := h.live e he
  exact OrderedMap.mem_of_find ht

theorem Owned.newTimer {s : State} (h : Owned s) {timer : ℕ} (hnew : timer ∉ s.heap)
    (hbound : timer < UINTPTR_MAX) (t : Timer) :
    Owned { s with heap := s.heap.insert timer t, fresh := s.fresh.insert timer () } := by
  have hkeep : ∀ p ∈ s.heap, (s.heap.insert timer t).find p = s.heap.find p := by
    intro p hp
    exact OrderedMap.find_insert_of_ne _ _ (fun heq => hnew (heq ▸ hp))
  refine ⟨?_, ?_, h.inj, ?_, ?_, h.calling, ?_⟩
  · intro p hp
    rcases OrderedMap.mem_insert.mp hp with rfl | hp
    · exact hbound
    · exact h.bound p hp
  · intro e he
    rw [hkeep _ (h.mem_heap he)]
    exact h.live e he
  · intro p hp
    rcases OrderedMap.mem_insert.mp hp with rfl | hp
    · exact OrderedMap.mem_insert.mpr (Or.inl rfl)
    · exact OrderedMap.mem_insert.mpr (Or.inr (h.fresh_live p hp))
  · intro e he hmem
    rcases OrderedMap.mem_insert.mp hmem with heq | hmem
    · exact hnew (heq ▸ h.mem_heap he)
    · exact h.fresh_apart e he hmem
  · intro f hf
    have hframe := h.frame f hf
    refine ⟨?_, hframe.nodup, hframe.apart, ?_, hframe.remaining_sub⟩
    · intro e he
      rw [hkeep _ (hframe.mem_heap he)]
      exact hframe.live e he
    · intro e he hmem
      rcases OrderedMap.mem_insert.mp hmem with heq | hmem
      · exact hnew (heq ▸ hframe.mem_heap he)
      · exact hframe.apart_fresh e he hmem

theorem Owned.addTimerInLoop {s : State} (h : Owned s) {timer : ℕ} (hfresh : timer ∈ s.fresh)
    (now : ℤ) :
    ∃ t, s.heap.find timer = some t ∧
      s.queue.addTimerInLoop s.heap timer now = some { s.queue with
        timers := s.queue.timers.insert ⟨t.expiration, timer⟩ ()
        timerfd := if s.queue.earliestChanged t.expiration then resetTimerfd t.expiration now
          else s.queue.timerfd } ∧
      ∀ fd, Owned { s with
        queue := { s.queue with
          timers := s.queue.timers.insert ⟨t.expiration, timer⟩ (), timerfd := fd }
        fresh := s.fresh.erase timer
        clock := now } := by
  obtain ⟨t, ht⟩ := OrderedMap.find_of_mem (h.fresh_live timer hfresh)
  have hne : ∀ e ∈ s.queue.timers, e.timer ≠ timer := by
    intro e he heq
    exact h.fresh_apart e he (heq ▸ hfresh)
  refine ⟨t, ht, ?_, ?_⟩
  · have hnot : (⟨t.expiration, timer⟩ : Entry) ∉ s.queue.timers := fun hmem => hne _ hmem rfl
    simp only [TimerQueue.addTimerInLoop, ht, Option.bind_some, if_neg hnot]
    split_ifs <;> rfl
  · intro fd
    refine ⟨h.bound, ?_, ?_, ?_, ?_, h.calling, ?_⟩
    · intro e he
      rcases OrderedMap.mem_insert.mp he with rfl | he
      · exact ⟨t, ht⟩
      · exact h.live e he
    · intro e he e' he' heq
      rcases OrderedMap.mem_insert.mp he with rfl | he
      · rcases OrderedMap.mem_insert.mp he' with rfl | he'
        · rfl
        · exact absurd heq.symm (hne e' he')
      · rcases OrderedMap.mem_insert.mp he' with rfl | he'
        · exact absurd heq (hne e he)
        · exact h.inj e he e' he' heq
    · intro p hp
      exact h.fresh_live p (OrderedMap.mem_erase.mp hp).2
    · intro e he hmem
      obtain ⟨hother, hmem⟩ := OrderedMap.mem_erase.mp hmem
      rcases OrderedMap.mem_insert.mp he with rfl | he
      · exact hother rfl
      · exact h.fresh_apart e he hmem
    · intro f hf
      have hframe := h.frame f hf
      refine ⟨hframe.live, hframe.nodup, ?_, ?_, hframe.remaining_sub⟩
      · intro e he e' he' heq
        rcases OrderedMap.mem_insert.mp he' with rfl | he'
        · exact hframe.apart_fresh e he (heq ▸ hfresh)
        · exact hframe.apart e he e' he' heq
      · intro e he hmem
        exact hframe.apart_fresh e he (OrderedMap.mem_erase.mp hmem).2

theorem Owned.ne_of_erase {s : State} (h : Owned s) {timerId : Entry}
    (hmem : timerId ∈ s.queue.timers) {e : Entry} (he : e ∈ s.queue.timers.erase timerId) :
    e ∈ s.queue.timers ∧ e.timer ≠ timerId.timer := by
  obtain ⟨hother, he⟩ := OrderedMap.mem_erase.mp he
  exact ⟨he, fun heq => hother (h.inj e he timerId hmem heq)⟩

theorem Owned.cancel {s : State} (h : Owned s) {timerId : Entry}
    (hmem : timerId ∈ s.queue.timers) :
    s.queue.cancelTimerInLoop s.heap timerId = some
        ({ s.queue with timers := s.queue.timers.erase timerId }, s.heap.erase timerId.timer) ∧
      Owned { s with
        queue := { s.queue with timers := s.queue.timers.erase timerId }
        heap := s.heap.erase timerId.timer } := by
  have hkeep : ∀ p, p ≠ timerId.timer →
      (s.heap.erase timerId.timer).find p = s.heap.find p := fun p hp =>
    OrderedMap.find_erase_of_ne _ (Ne.symm hp)
  refine ⟨?_, ?_, ?_, ?_, ?_, ?_, h.calling, ?_⟩
  · rw [TimerQueue.cancelTimerInLoop, if_pos hmem, free_of_mem (h.mem_heap hmem), Option.map_some]
  · intro p hp
    exact h.bound p (OrderedMap.mem_erase.mp hp).2
  · intro e he
    obtain ⟨he, hne⟩ := h.ne_of_erase hmem he
    rw [hkeep _ hne]
    exact h.live e he
  · intro e he e' he' heq
    exact h.inj e (h.ne_of_erase hmem he).1 e' (h.ne_of_erase hmem he').1 heq
  · intro p hp
    refine OrderedMap.mem_erase.mpr ⟨?_, h.fresh_live p hp⟩
    rintro rfl
    exact h.fresh_apart timerId hmem hp
  · intro e he
    exact h.fresh_apart e (h.ne_of_erase hmem he).1
  · intro f hf
    have hframe := h.frame f hf
    refine ⟨?_, hframe.nodup, ?_, hframe.apart_fresh, hframe.remaining_sub⟩
    · intro e he
      rw [hkeep _ (Ne.symm (hframe.apart e he timerId hmem))]
      exact hframe.live e he
    · intro e he e' he'
      exact hframe.apart e he e' (h.ne_of_erase hmem he').1

theorem Owned.cancelingTimers {s : State} (h : Owned s) (c : TimerSet) :
    Owned { s with queue := { s.queue with cancelingTimers := c } } := by
  refine ⟨h.bound, h.live, h.inj, h.fresh_live, h.fresh_apart, h.calling, ?_⟩
  intro f hf
  have hframe := h.frame f hf
  exact ⟨hframe.live, hframe.nodup, hframe.apart, hframe.apart_fresh, hframe.remaining_sub⟩

theorem Owned.beginExpired {s : State} (h : Owned s) (now : ℤ) (fired : Bool) :
    ∃ expired rest, s.queue.beginExpired now fired = some
        (⟨rest, true, OrderedMap.empty, readTimerfd s.queue.timerfd fired⟩, expired) ∧
      (∀ e, e ∈ expired ↔ e ∈ s.queue.timers ∧ e.time ≤ now) ∧
      (∀ e, e ∈ rest ↔ e ∈ s.queue.timers ∧ now < e.time) ∧
      Owned { s with
        queue := ⟨rest, true, OrderedMap.empty, readTimerfd s.queue.timerfd fired⟩
        frame := some ⟨expired, expired, now⟩
        clock := now } := by
  obtain ⟨expired, rest, hsplit, hexpired, hrest, hsorted⟩ :=
    getExpired_spec (fun e he => h.bound _ (h.mem_heap he)) now
  refine ⟨expired, rest, ?_, hexpired, hrest, h.bound, ?_, ?_, h.fresh_live, ?_, rfl, ?_⟩
  · rw [TimerQueue.beginExpired, hsplit, Option.map_some]
  · intro e he
    exact h.live e ((hrest e).mp he).1
  · intro e he e' he' heq
    exact h.inj e ((hrest e).mp he).1 e' ((hrest e').mp he').1 heq
  · intro e he
    exact h.fresh_apart e ((hrest e).mp he).1
  · rintro f ⟨⟩
    refine ⟨?_, ?_, ?_, ?_, List.Subset.refl _⟩
    · intro e he
      exact h.live e ((hexpired e).mp he).1
    · apply List.Nodup.map_on _ (hsorted.imp fun hlt => hlt.ne)
      intro e he e' he' heq
      exact h.inj e ((hexpired e).mp he).1 e' ((hexpired e').mp he').1 heq
    · intro e he e' he' heq
      obtain ⟨hmem, hdue⟩ := (hexpired e).mp he
      obtain ⟨hmem', hlater⟩ := (hrest e').mp he'
      rw [h.inj e' hmem' e hmem heq] at hlater
      exact not_le_of_gt hlater hdue
    · intro e he
      exact h.fresh_apart e ((hexpired e).mp he).1

theorem Owned.runTimer {s : State} (h : Owned s) {f : Frame} (hf : s.frame = some f)
    {entry : Entry} {rest : List Entry} (hremaining : f.remaining = entry :: rest) :
    entry.timer ∈ s.heap ∧ Owned { s with frame := some { f with remaining := rest } } := by
  have hframe := h.frame f hf
  have hsub := hframe.remaining_sub
  rw [hremaining] at hsub
  refine ⟨hframe.mem_heap (hsub List.mem_cons_self), h.bound, h.live, h.inj, h.fresh_live,
    h.fresh_apart, ?_, ?_⟩
  · rw [h.calling, hf]
    rfl
  · rintro f' ⟨⟩
    exact ⟨hframe.live, hframe.nodup, hframe.apart, hframe.apart_fresh,
      fun e he => hsub (List.mem_cons_of_mem _ he)⟩

/-- The entry is one of the expired entries that `reset` will restart, with its timer `t`. -/
def WillRestart (s : State) (f : Frame) (e : Entry) (t : Timer) : Prop :=
  e ∈ f.expired ∧ s.heap.find e.timer = some t ∧
    restarts s.queue.cancelingTimers e t = true

theorem forall_willRestart {s : State} {f : Frame} {p : Entry → Timer → Prop} :
    (∀ e t, WillRestart s f e t → p e t) ↔ ∀ e ∈ f.expired, ∀ t ∈ s.heap.find e.timer,
      restarts s.queue.cancelingTimers e t = true → p e t :=
  ⟨fun h e he t ht hr => h e t ⟨he, ht, hr⟩, fun h e t ⟨he, ht, hr⟩ => h e he t ht hr⟩

instance (s : State) (f : Frame) (p : Entry → Timer → Prop) [∀ e t, Decidable (p e t)] :
    Decidable (∀ e t, WillRestart s f e t → p e t) :=
  decidable_of_iff _ forall_willRestart.symm

/-- What `reset` does: the expired timers are restarted or deleted, and nothing else changes. -/
structure Reset (s : State) (f : Frame) (timers : TimerSet) (heap : Heap) : Prop where
  mem : ∀ e, e ∈ timers ↔ e ∈ s.queue.timers ∨ ∃ t, WillRestart s f e t
  other : ∀ p, p ∉ f.expired.map Entry.timer → heap.find p = s.heap.find p
  own : ∀ e ∈ f.expired, ∀ t, s.heap.find e.timer = some t → heap.find e.timer =
    if restarts s.queue.cancelingTimers e t then some (t.restart f.now) else none

theorem Owned.reset {s : State} (h : Owned s) {f : Frame} (hf : s.frame = some f) :
    ∃ timers heap, f.expired.foldlM (resetEntry s.queue.cancelingTimers f.now)
      (s.queue.timers, s.heap) = some (timers, heap) ∧ Reset s f timers heap := by
  have hframe := h.frame f hf
  obtain ⟨timers, heap, hfold, htimers, hother, hentries⟩ :=
    resetEntries_spec s.queue.timers hframe.live hframe.nodup
  refine ⟨timers, heap, hfold, ?_, hother, hentries⟩
  intro e
  rw [htimers e]
  apply or_congr_right
  constructor
  · rintro ⟨he, t, ht, hr⟩
    exact ⟨t, he, ht, hr⟩
  · rintro ⟨t, he, ht, hr⟩
    exact ⟨he, t, ht, hr⟩

section Reset

variable {s : State} {f : Frame} {timers : TimerSet} {heap : Heap}

theorem Reset.pending (hreset : Reset s f timers heap) (h : FrameOwned s f) {e : Entry}
    (he : e ∈ s.queue.timers) : heap.find e.timer = s.heap.find e.timer := by
  apply hreset.other
  intro hmem
  obtain ⟨d, hd, heq⟩ := List.mem_map.mp hmem
  exact h.apart d hd e he heq.symm

theorem Reset.restarted (hreset : Reset s f timers heap) {e : Entry} {t : Timer}
    (hr : WillRestart s f e t) : heap.find e.timer = some (t.restart f.now) := by
  rw [hreset.own e hr.1 t hr.2.1, if_pos hr.2.2]

theorem Reset.fresh (hreset : Reset s f timers heap) (h : FrameOwned s f) {p : ℕ}
    (hp : p ∈ s.fresh) : heap.find p = s.heap.find p := by
  apply hreset.other
  intro hmem
  obtain ⟨d, hd, heq⟩ := List.mem_map.mp hmem
  exact h.apart_fresh d hd (heq ▸ hp)

theorem Reset.subset (hreset : Reset s f timers heap) (h : FrameOwned s f) {p : ℕ}
    (hp : p ∈ heap) : p ∈ s.heap := by
  by_cases hmem : p ∈ f.expired.map Entry.timer
  · obtain ⟨d, hd, rfl⟩ := List.mem_map.mp hmem
    exact h.mem_heap hd
  · rw [OrderedMap.mem_iff, hreset.other p hmem] at hp
    exact hp

end Reset

theorem Owned.endExpired {s : State} (h : Owned s) {f : Frame} (hf : s.frame = some f) (now : ℤ) :
    ∃ timers heap fd, s.queue.endExpired s.heap f.expired f.now now =
        some (⟨timers, false, s.queue.cancelingTimers, fd⟩, heap) ∧
      Reset s f timers heap ∧
      (∀ first, timers.front? = some first → ∃ t, heap.find first.timer = some t ∧
        fd = resetTimerfd t.expiration now) ∧
      Owned { s with
        queue := ⟨timers, false, s.queue.cancelingTimers, fd⟩
        heap := heap
        frame := none
        clock := now } := by
  have hframe := h.frame f hf
  obtain ⟨timers, heap, hfold, hreset⟩ := h.reset hf
  have hlive : ∀ e ∈ timers, ∃ t, heap.find e.timer = some t := by
    intro e he
    rcases (hreset.mem e).mp he with hp | ⟨t, hr⟩
    · rw [hreset.pending hframe hp]
      exact h.live e hp
    · exact ⟨_, hreset.restarted hr⟩
  have howned : ∀ fd, Owned { s with
      queue := ⟨timers, false, s.queue.cancelingTimers, fd⟩
      heap := heap
      frame := none
      clock := now } := by
    intro fd
    refine ⟨fun p hp => h.bound p (hreset.subset hframe hp), hlive, ?_, ?_, ?_, rfl,
      fun _ hf => nomatch hf⟩
    · intro e he e' he' heq
      rcases (hreset.mem e).mp he with hp | ⟨t, hr⟩
      · rcases (hreset.mem e').mp he' with hp' | ⟨t', hr'⟩
        · exact h.inj e hp e' hp' heq
        · exact absurd heq (hframe.apart e' hr'.1 e hp)
      · rcases (hreset.mem e').mp he' with hp' | ⟨t', hr'⟩
        · exact absurd heq.symm (hframe.apart e hr.1 e' hp')
        · exact List.inj_on_of_nodup_map hframe.nodup hr.1 hr'.1 heq
    · intro p hp
      rw [OrderedMap.mem_iff, hreset.fresh hframe hp]
      exact h.fresh_live p hp
    · intro e he hmem
      rcases (hreset.mem e).mp he with hp | ⟨t, hr⟩
      · exact h.fresh_apart e hp hmem
      · exact hframe.apart_fresh e hr.1 hmem
  cases hfront : timers.front? with
  | none =>
    refine ⟨timers, heap, s.queue.timerfd, ?_, hreset, ?_, howned _⟩
    · simp only [TimerQueue.endExpired, TimerQueue.reset, hfold, Option.bind_some, hfront]
    · intro first hfirst
      cases hfront.symm.trans hfirst
  | some first =>
    obtain ⟨t, ht⟩ := hlive first (OrderedMap.front?_eq_some hfront).1
    refine ⟨timers, heap, resetTimerfd t.expiration now, ?_, hreset, ?_, howned _⟩
    · simp only [TimerQueue.endExpired, TimerQueue.reset, hfold, Option.bind_some, hfront, ht,
        Option.map_some]
    · intro first' hfirst
      cases hfront.symm.trans hfirst
      exact ⟨t, ht, rfl⟩

inductive Move (s : State) : Event → State → Prop where
  | newTimer {timer : ℕ} {time : ℤ} {intervalInSec : Double} (hnew : timer ∉ s.heap) :
    Move s (.newTimer timer time intervalInSec) { s with
      heap := s.heap.insert timer ⟨time, intervalInSec⟩
      fresh := s.fresh.insert timer () }
  | add {timer : ℕ} {now : ℤ} {t : Timer} {fd : Timerfd} (hfresh : timer ∈ s.fresh)
      (ht : s.heap.find timer = some t) :
    Move s (.addTimerInLoop timer now) { s with
      queue := { s.queue with
        timers := s.queue.timers.insert ⟨t.expiration, timer⟩ (), timerfd := fd }
      fresh := s.fresh.erase timer
      clock := now }
  | cancel {timerId : Entry} (hmem : timerId ∈ s.queue.timers) :
    Move s (.cancelTimerInLoop timerId) { s with
      queue := { s.queue with timers := s.queue.timers.erase timerId }
      heap := s.heap.erase timerId.timer }
  | cancelExpired {timerId : Entry} {f : Frame} (hmem : timerId ∉ s.queue.timers)
      (hf : s.frame = some f) :
    Move s (.cancelTimerInLoop timerId) { s with
      queue := { s.queue with cancelingTimers := s.queue.cancelingTimers.insert timerId () } }
  | cancelNone {timerId : Entry} (hmem : timerId ∉ s.queue.timers) (hf : s.frame = none) :
    Move s (.cancelTimerInLoop timerId) s
  | handleRead {now : ℤ} {fired : Bool} {expired : List Entry} {rest : TimerSet} {fd : Timerfd}
      (hf : s.frame = none) (hexpired : ∀ e, e ∈ expired ↔ e ∈ s.queue.timers ∧ e.time ≤ now)
      (hrest : ∀ e, e ∈ rest ↔ e ∈ s.queue.timers ∧ now < e.time) :
    Move s (.handleRead now fired) { s with
      queue := ⟨rest, true, OrderedMap.empty, fd⟩
      frame := some ⟨expired, expired, now⟩
      clock := now }
  | runTimer {f : Frame} {entry : Entry} {rest : List Entry} (hf : s.frame = some f)
      (hremaining : f.remaining = entry :: rest) :
    Move s .runTimer { s with frame := some { f with remaining := rest } }
  | endRead {now : ℤ} {f : Frame} {timers : TimerSet} {heap : Heap} {fd : Timerfd}
      (hf : s.frame = some f) (hremaining : f.remaining = [])
      (hreset : Reset s f timers heap) :
    Move s (.endRead now) { s with
      queue := ⟨timers, false, s.queue.cancelingTimers, fd⟩
      heap := heap
      frame := none
      clock := now }

/-- An event that is allowed neither fails an assertion nor touches a timer that is not alive. -/
theorem Owned.perform {s : State} (h : Owned s) {e : Event} (he : Allowed s e) :
    ∃ t, perform s e = some t ∧ Move s e t ∧ Owned t := by
  cases e with
  | newTimer timer time intervalInSec =>
    exact ⟨_, rfl, .newTimer he.1, h.newTimer he.1 he.2.2 ⟨time, intervalInSec⟩⟩
  | addTimerInLoop timer now =>
    obtain ⟨t, ht, hadd, howned⟩ := h.addTimerInLoop he now
    exact ⟨_, by rw [TimerRuns.perform, hadd, Option.map_some], .add he ht, howned _⟩
  | cancelTimerInLoop timerId =>
    by_cases hmem : timerId ∈ s.queue.timers
    · obtain ⟨hcancel, howned⟩ := h.cancel hmem
      exact ⟨_, by rw [TimerRuns.perform, hcancel, Option.map_some], .cancel hmem, howned⟩
    · cases hf : s.frame with
      | none =>
        have hcalling : ¬s.queue.callingExpiredTimers = true := by
          rw [h.calling, hf]
          exact Bool.false_ne_true
        refine ⟨s, ?_, .cancelNone hmem hf, h⟩
        rw [TimerRuns.perform, TimerQueue.cancelTimerInLoop, if_neg hmem, if_neg hcalling]
        rfl
      | some f =>
        have hcalling : s.queue.callingExpiredTimers = true := by
          rw [h.calling, hf]
          rfl
        refine ⟨_, ?_, .cancelExpired hmem hf, h.cancelingTimers _⟩
        rw [TimerRuns.perform, TimerQueue.cancelTimerInLoop, if_neg hmem, if_pos hcalling]
        rfl
  | handleRead now fired =>
    obtain ⟨expired, rest, hbegin, hexpired, hrest, howned⟩ := h.beginExpired now fired
    exact ⟨_, by rw [TimerRuns.perform, hbegin, Option.map_some], .handleRead he hexpired hrest,
      howned⟩
  | runTimer =>
    obtain ⟨l, hl, hne⟩ := (Option.any_eq_true _ _).mp he
    obtain ⟨f, hf, rfl⟩ := frame_of_remaining hl
    cases hremaining : f.remaining with
    | nil => simp [hremaining] at hne
    | cons entry rest =>
      obtain ⟨hmem, howned⟩ := h.runTimer hf hremaining
      refine ⟨_, ?_, .runTimer hf hremaining, howned⟩
      simp only [TimerRuns.perform, hf, Option.bind_some, hremaining, if_pos hmem]
  | endRead now =>
    obtain ⟨f, hf, hremaining⟩ := frame_of_remaining he
    obtain ⟨timers, heap, fd, hend, hreset, -, howned⟩ := h.endExpired hf now
    exact ⟨_, by rw [TimerRuns.perform, hf, Option.bind_some, hend, Option.map_some],
      .endRead hf hremaining hreset, howned⟩

end TimerRuns

end Matelib
