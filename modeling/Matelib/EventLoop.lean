import Mathlib.Logic.Function.Basic
import Mathlib.Tactic
import Matelib.Transition

/-!
# The functor queue of an event loop

An event loop with its loop thread in `loop()` and any number of foreign threads that queue functors
or ask it to quit. The steps are the atomic actions of the threads: a critical section of the
mutex, a system call, or the start and end of a handler or functor. Handlers and functors may queue
functors themselves; a functor that the loop thread passes to `runInLoop` runs at once and is a part
of the handler or functor that does so.
-/

namespace Matelib

namespace EventLoop

open Transition

/-- The channels that `poll` reports: that of the eventfd, or another one. -/
inductive Active where
  | wakeup
  | other
  deriving DecidableEq

/-- Where the loop thread is in `loop()`. In `handler` and `functor` it runs user code. -/
inductive LoopPc (φ : Type*) where
  | whileTest
  | poll
  | dispatch (activeChannels : List Active)
  | handler (activeChannels : List Active)
  | beforeSwap
  | batch (functors : List φ)
  | functor (functors : List φ)
  | returned

/-- Where a foreign thread is: outside, or before the `wakeup` of `queueInLoop` or of `quit`. -/
inductive ThreadPc where
  | outside
  | pushed
  | quitting
  deriving DecidableEq

/-- `pushing` holds while the loop thread is in `queueInLoop` behind its critical section. The last
two lists are histories: the functors pushed, in the order of the mutex, and the queued functors
that were run. -/
structure State (τ φ : Type*) where
  quit : Bool
  callingPendingFunctors : Bool
  pendingFunctors : List φ
  wakeupFd : ℕ
  pc : LoopPc φ
  pushing : Bool
  thread : τ → ThreadPc
  pushed : List φ
  run : List φ

variable {τ φ : Type*}

def State.init : State τ φ where
  quit := false
  callingPendingFunctors := false
  pendingFunctors := []
  wakeupFd := 0
  pc := .whileTest
  pushing := false
  thread _ := .outside
  pushed := []
  run := []

def State.batch (s : State τ φ) : List φ :=
  match s.pc with
  | .batch functors => functors
  | .functor functors => functors
  | _ => []

/-- The largest value of an eventfd; a `write` that would pass it fails and changes nothing. -/
def eventfdMax : ℕ := 2 ^ 64 - 2

def wakeup (s : State τ φ) : State τ φ :=
  { s with wakeupFd := if s.wakeupFd < eventfdMax then s.wakeupFd + 1 else s.wakeupFd }

/-- The critical section of `queueInLoop`. -/
def pushBack (s : State τ φ) (func : φ) : State τ φ :=
  { s with pendingFunctors := s.pendingFunctors ++ [func], pushed := s.pushed ++ [func] }

inductive Event (τ φ : Type*) where
  -- the loop thread
  | testQuit
  | pollReturns (activeChannels : List Active)
  | handleEvent
  | handlerReturns
  | doPendingFunctors
  | swap
  | callFunctor
  | functorReturns
  | batchDone
  -- user code in the loop thread
  | queueInLoop (func : φ)
  | queueInLoopWakes
  | quit
  -- foreign threads
  | foreignQueue (t : τ) (func : φ)
  | foreignQuit (t : τ)
  | foreignWakes (t : τ)

def stepLoop (s : State τ φ) : Event τ φ → Option (State τ φ)
  | .testQuit => match s.pc with
    | .whileTest => some { s with pc := if s.quit then .returned else .poll }
    | _ => none
  | .pollReturns active => match s.pc with
    | .poll => if .wakeup ∈ active ∧ s.wakeupFd = 0 then none
      else some { s with pc := .dispatch active }
    | _ => none
  | .handleEvent => match s.pc with
    -- `handleWakeup` reads the eventfd, which sets it to zero
    | .dispatch (.wakeup :: active) => some { s with wakeupFd := 0, pc := .dispatch active }
    | .dispatch (.other :: active) => some { s with pc := .handler active }
    | _ => none
  | .handlerReturns => match s.pc with
    | .handler active => some { s with pc := .dispatch active }
    | _ => none
  | .doPendingFunctors => match s.pc with
    | .dispatch [] => some { s with callingPendingFunctors := true, pc := .beforeSwap }
    | _ => none
  | .swap => match s.pc with
    | .beforeSwap => some { s with pendingFunctors := [], pc := .batch s.pendingFunctors }
    | _ => none
  | .callFunctor => match s.pc with
    | .batch (func :: functors) =>
      some { s with pc := .functor functors, run := s.run ++ [func] }
    | _ => none
  | .functorReturns => match s.pc with
    | .functor functors => some { s with pc := .batch functors }
    | _ => none
  | .batchDone => match s.pc with
    | .batch [] => some { s with callingPendingFunctors := false, pc := .whileTest }
    | _ => none
  | _ => none

/-- User code in a handler or a functor. The thread is the loop thread, so `quit` does not wake it
up, and `queueInLoop` only when it is calling functors. -/
def stepUser (s : State τ φ) : Event τ φ → Option (State τ φ)
  | .queueInLoop func => match s.pc with
    | .handler _ => some { pushBack s func with pushing := true }
    | .functor _ => some { pushBack s func with pushing := true }
    | _ => none
  | .quit => match s.pc with
    | .handler _ => some { s with quit := true }
    | .functor _ => some { s with quit := true }
    | _ => none
  | _ => none

def stepForeign [DecidableEq τ] (s : State τ φ) : Event τ φ → Option (State τ φ)
  | .foreignQueue t func => match s.thread t with
    | .outside => some { pushBack s func with thread := Function.update s.thread t .pushed }
    | _ => none
  | .foreignQuit t => match s.thread t with
    | .outside => some { s with quit := true, thread := Function.update s.thread t .quitting }
    | _ => none
  | .foreignWakes t => match s.thread t with
    | .outside => none
    | _ => some { wakeup s with thread := Function.update s.thread t .outside }
  | _ => none

/-- One action of one thread. Behind its critical section of `queueInLoop` the loop thread first
decides about the wakeup. -/
def step [DecidableEq τ] (s : State τ φ) (e : Event τ φ) : Option (State τ φ) :=
  match e with
  | .foreignQueue .. | .foreignQuit .. | .foreignWakes .. => stepForeign s e
  | .queueInLoopWakes =>
    if s.pushing then
      some { (if s.callingPendingFunctors then wakeup s else s) with pushing := false }
    else none
  | .queueInLoop .. | .quit => if s.pushing then none else stepUser s e
  | _ => if s.pushing then none else stepLoop s e

/-- `callingPendingFunctors_` is set here. -/
def LoopPc.calls : LoopPc φ → Bool
  | .beforeSwap => true
  | .batch _ => true
  | .functor _ => true
  | _ => false

/-- From here the loop thread swaps the queue only after it has polled. -/
def LoopPc.pollsFirst : LoopPc φ → Bool
  | .whileTest => true
  | .poll => true
  | .batch _ => true
  | .functor _ => true
  | _ => false

/-- The next `poll` returns at once, or some thread is about to see to that. -/
def WakesUp (s : State τ φ) : Prop :=
  0 < s.wakeupFd ∨ (∃ t, s.thread t = .pushed) ∨ s.pushing = true

structure Intact (s : State τ φ) : Prop where
  order : s.run ++ s.batch ++ s.pendingFunctors = s.pushed
  calling : s.callingPendingFunctors = s.pc.calls
  user : s.pushing = true →
    (∃ active, s.pc = .handler active) ∨ ∃ functors, s.pc = .functor functors
  wakes : s.pc.pollsFirst = true → s.pendingFunctors ≠ [] → WakesUp s

theorem intact_init : Intact (State.init : State τ φ) where
  order := rfl
  calling := rfl
  user h := nomatch h
  wakes _ h := absurd rfl h

theorem wakeup_pos (s : State τ φ) : 0 < (wakeup s).wakeupFd := by
  unfold wakeup eventfdMax
  dsimp only
  split_ifs <;> omega

theorem Intact.move {s t : State τ φ} (h : Intact s)
    (order : t.run ++ t.batch ++ t.pendingFunctors = s.run ++ s.batch ++ s.pendingFunctors)
    (pushed : t.pushed = s.pushed) (calling : t.callingPendingFunctors = t.pc.calls)
    (pushing : s.pushing = false ∧ t.pushing = false)
    (wakes : t.pc.pollsFirst = true → t.pendingFunctors ≠ [] →
      s.pc.pollsFirst = true ∧ s.pendingFunctors ≠ [] ∧ t.wakeupFd = s.wakeupFd ∧
        t.thread = s.thread) : Intact t where
  order := by rw [order, pushed, h.order]
  calling := calling
  user hp := by
    rw [pushing.2] at hp
    cases hp
  wakes hpolls hne := by
    obtain ⟨hpolls', hne', hfd, hthread⟩ := wakes hpolls hne
    have hawake := h.wakes hpolls' hne'
    rw [WakesUp, hfd, hthread]
    rw [WakesUp, pushing.1, ← pushing.2] at hawake
    exact hawake

/-- The steps of the loop thread on its own. -/
inductive LoopMove (s : State τ φ) : State τ φ → Prop where
  | testQuit (hpc : s.pc = .whileTest) :
    LoopMove s { s with pc := if s.quit then .returned else .poll }
  | pollReturns (active : List Active) (hpc : s.pc = .poll) :
    LoopMove s { s with pc := .dispatch active }
  | handleWakeup {active : List Active} (hpc : s.pc = .dispatch (.wakeup :: active)) :
    LoopMove s { s with wakeupFd := 0, pc := .dispatch active }
  | handleOther {active : List Active} (hpc : s.pc = .dispatch (.other :: active)) :
    LoopMove s { s with pc := .handler active }
  | handlerReturns {active : List Active} (hpc : s.pc = .handler active) :
    LoopMove s { s with pc := .dispatch active }
  | doPendingFunctors (hpc : s.pc = .dispatch []) :
    LoopMove s { s with callingPendingFunctors := true, pc := .beforeSwap }
  | swap (hpc : s.pc = .beforeSwap) :
    LoopMove s { s with pendingFunctors := [], pc := .batch s.pendingFunctors }
  | callFunctor {func : φ} {functors : List φ} (hpc : s.pc = .batch (func :: functors)) :
    LoopMove s { s with pc := .functor functors, run := s.run ++ [func] }
  | functorReturns {functors : List φ} (hpc : s.pc = .functor functors) :
    LoopMove s { s with pc := .batch functors }
  | batchDone (hpc : s.pc = .batch []) :
    LoopMove s { s with callingPendingFunctors := false, pc := .whileTest }

theorem stepLoop_move {s t : State τ φ} {e : Event τ φ} (hstep : stepLoop s e = some t) :
    LoopMove s t := by
  cases e with
  | testQuit =>
    rw [stepLoop] at hstep
    split at hstep <;> cases hstep
    exact .testQuit ‹_›
  | pollReturns active =>
    rw [stepLoop] at hstep
    split at hstep
    · split_ifs at hstep
      cases hstep
      exact .pollReturns active ‹_›
    · cases hstep
  | handleEvent =>
    rw [stepLoop] at hstep
    split at hstep <;> cases hstep
    · exact .handleWakeup ‹_›
    · exact .handleOther ‹_›
  | handlerReturns =>
    rw [stepLoop] at hstep
    split at hstep <;> cases hstep
    exact .handlerReturns ‹_›
  | doPendingFunctors =>
    rw [stepLoop] at hstep
    split at hstep <;> cases hstep
    exact .doPendingFunctors ‹_›
  | swap =>
    rw [stepLoop] at hstep
    split at hstep <;> cases hstep
    exact .swap ‹_›
  | callFunctor =>
    rw [stepLoop] at hstep
    split at hstep <;> cases hstep
    exact .callFunctor ‹_›
  | functorReturns =>
    rw [stepLoop] at hstep
    split at hstep <;> cases hstep
    exact .functorReturns ‹_›
  | batchDone =>
    rw [stepLoop] at hstep
    split at hstep <;> cases hstep
    exact .batchDone ‹_›
  | _ => cases hstep

theorem LoopMove.intact {s t : State τ φ} (hmove : LoopMove s t) (h : Intact s)
    (hp : s.pushing = false) : Intact t := by
  have hcalling := h.calling
  cases hmove with
  | testQuit hpc =>
    rw [hpc] at hcalling
    refine h.move ?_ rfl ?_ ⟨hp, hp⟩ ?_
    · simp only [State.batch, hpc]
      split_ifs <;> rfl
    · dsimp only
      rw [hcalling]
      split_ifs <;> rfl
    · intro _ hne
      exact ⟨by rw [hpc]; rfl, hne, rfl, rfl⟩
  | pollReturns active hpc =>
    rw [hpc] at hcalling
    exact h.move (by simp only [State.batch, hpc]) rfl hcalling ⟨hp, hp⟩ (fun hf => nomatch hf)
  | handleWakeup hpc =>
    rw [hpc] at hcalling
    exact h.move (by simp only [State.batch, hpc]) rfl hcalling ⟨hp, hp⟩ (fun hf => nomatch hf)
  | handleOther hpc =>
    rw [hpc] at hcalling
    exact h.move (by simp only [State.batch, hpc]) rfl hcalling ⟨hp, hp⟩ (fun hf => nomatch hf)
  | handlerReturns hpc =>
    rw [hpc] at hcalling
    exact h.move (by simp only [State.batch, hpc]) rfl hcalling ⟨hp, hp⟩ (fun hf => nomatch hf)
  | doPendingFunctors hpc =>
    exact h.move (by simp only [State.batch, hpc]) rfl rfl ⟨hp, hp⟩ (fun hf => nomatch hf)
  | swap hpc =>
    rw [hpc] at hcalling
    refine h.move ?_ rfl hcalling ⟨hp, hp⟩ ?_
    · simp only [State.batch, hpc, List.append_nil]
    · intro _ hne
      exact absurd rfl hne
  | callFunctor hpc =>
    rw [hpc] at hcalling
    refine h.move ?_ rfl hcalling ⟨hp, hp⟩ ?_
    · simp only [State.batch, hpc, List.append_assoc, List.cons_append, List.nil_append]
    · intro _ hne
      exact ⟨by rw [hpc]; rfl, hne, rfl, rfl⟩
  | functorReturns hpc =>
    rw [hpc] at hcalling
    refine h.move (by simp only [State.batch, hpc]) rfl hcalling ⟨hp, hp⟩ ?_
    intro _ hne
    exact ⟨by rw [hpc]; rfl, hne, rfl, rfl⟩
  | batchDone hpc =>
    refine h.move (by simp only [State.batch, hpc]) rfl rfl ⟨hp, hp⟩ ?_
    intro _ hne
    exact ⟨by rw [hpc]; rfl, hne, rfl, rfl⟩

theorem Intact.order_pushBack {s : State τ φ} (h : Intact s) (func : φ) :
    s.run ++ s.batch ++ (pushBack s func).pendingFunctors = (pushBack s func).pushed := by
  change s.run ++ s.batch ++ (s.pendingFunctors ++ [func]) = s.pushed ++ [func]
  rw [← h.order, List.append_assoc (s.run ++ s.batch)]

theorem Intact.queueInLoop {s : State τ φ} (h : Intact s) (func : φ)
    (hpc : (∃ active, s.pc = .handler active) ∨ ∃ functors, s.pc = .functor functors) :
    Intact { pushBack s func with pushing := true } where
  order := h.order_pushBack func
  calling := h.calling
  user _ := hpc
  wakes _ _ := .inr (.inr rfl)

theorem stepUser_intact {s t : State τ φ} {e : Event τ φ} (h : Intact s) (hp : s.pushing = false)
    (hstep : stepUser s e = some t) : Intact t := by
  cases e with
  | queueInLoop func =>
    cases hpc : s.pc with
    | handler active =>
      simp only [stepUser, hpc, Option.some.injEq] at hstep
      subst hstep
      exact h.queueInLoop func (.inl ⟨active, hpc⟩)
    | functor functors =>
      simp only [stepUser, hpc, Option.some.injEq] at hstep
      subst hstep
      exact h.queueInLoop func (.inr ⟨functors, hpc⟩)
    | _ => simp only [stepUser, hpc, reduceCtorEq] at hstep
  | quit =>
    have hmove : Intact { s with quit := true } := by
      refine h.move rfl rfl h.calling ⟨hp, hp⟩ ?_
      intro hpolls hne
      exact ⟨hpolls, hne, rfl, rfl⟩
    cases hpc : s.pc with
    | handler active =>
      simp only [stepUser, hpc, Option.some.injEq] at hstep
      subst hstep
      rw [← hpc]
      exact hmove
    | functor functors =>
      simp only [stepUser, hpc, Option.some.injEq] at hstep
      subst hstep
      rw [← hpc]
      exact hmove
    | _ => simp only [stepUser, hpc, reduceCtorEq] at hstep
  | _ => cases hstep

/-- Behind its push the loop thread writes the eventfd when it is calling functors; otherwise it is
in a handler and swaps the queue before it polls. -/
theorem queueInLoopWakes_intact {s : State τ φ} (h : Intact s) (hp : s.pushing = true) :
    Intact { (if s.callingPendingFunctors then wakeup s else s) with pushing := false } := by
  by_cases hc : s.callingPendingFunctors = true
  · rw [if_pos hc]
    exact
      { order := h.order
        calling := h.calling
        user := fun hf => nomatch hf
        wakes := fun _ _ => .inl (wakeup_pos s) }
  · rw [if_neg hc]
    have hcalls : s.pc.calls = false := by
      rw [← h.calling]
      exact Bool.not_eq_true _ ▸ hc
    have hpolls : s.pc.pollsFirst = false := by
      rcases h.user hp with ⟨active, hpc⟩ | ⟨functors, hpc⟩
      · rw [hpc]
        rfl
      · rw [hpc] at hcalls
        cases hcalls
    exact
      { order := h.order
        calling := h.calling
        user := fun hf => nomatch hf
        wakes := fun hf => absurd hf (by rw [hpolls]; exact Bool.false_ne_true) }

section

variable [DecidableEq τ]

theorem stepForeign_intact {s t : State τ φ} {e : Event τ φ} (h : Intact s)
    (hstep : stepForeign s e = some t) : Intact t := by
  cases e with
  | foreignQueue u func =>
    cases hu : s.thread u with
    | outside =>
      simp only [stepForeign, hu, Option.some.injEq] at hstep
      subst hstep
      exact
        { order := h.order_pushBack func
          calling := h.calling
          user := h.user
          wakes := fun _ _ => .inr (.inl ⟨u, Function.update_self ..⟩) }
    | _ => simp only [stepForeign, hu, reduceCtorEq] at hstep
  | foreignQuit u =>
    cases hu : s.thread u with
    | outside =>
      simp only [stepForeign, hu, Option.some.injEq] at hstep
      subst hstep
      refine { order := h.order, calling := h.calling, user := h.user, wakes := ?_ }
      intro hpolls hne
      rcases h.wakes hpolls hne with hfd | ⟨v, hv⟩ | hpushing
      · exact .inl hfd
      · have hvu : v ≠ u := by
          rintro rfl
          rw [hu] at hv
          cases hv
        exact .inr (.inl ⟨v, (Function.update_of_ne hvu ..).trans hv⟩)
      · exact .inr (.inr hpushing)
    | _ => simp only [stepForeign, hu, reduceCtorEq] at hstep
  | foreignWakes u =>
    have hwakes : Intact { wakeup s with thread := Function.update s.thread u .outside } :=
      { order := h.order
        calling := h.calling
        user := h.user
        wakes := fun _ _ => .inl (wakeup_pos s) }
    cases hu : s.thread u with
    | outside => simp only [stepForeign, hu, reduceCtorEq] at hstep
    | _ =>
      simp only [stepForeign, hu, Option.some.injEq] at hstep
      subst hstep
      exact hwakes
  | _ => cases hstep

theorem step_intact {s t : State τ φ} {e : Event τ φ} (h : Intact s) (hstep : step s e = some t) :
    Intact t := by
  cases e with
  | foreignQueue u func => exact stepForeign_intact (e := .foreignQueue u func) h hstep
  | foreignQuit u => exact stepForeign_intact (e := .foreignQuit u) h hstep
  | foreignWakes u => exact stepForeign_intact (e := .foreignWakes u) h hstep
  | queueInLoopWakes =>
    by_cases hp : s.pushing = true
    · simp only [step, if_pos hp, Option.some.injEq] at hstep
      subst hstep
      exact queueInLoopWakes_intact h hp
    · simp only [step, if_neg hp, reduceCtorEq] at hstep
  | queueInLoop func =>
    simp only [step] at hstep
    split_ifs at hstep with hp
    exact stepUser_intact h (Bool.not_eq_true _ ▸ hp) hstep
  | quit =>
    simp only [step] at hstep
    split_ifs at hstep with hp
    exact stepUser_intact h (Bool.not_eq_true _ ▸ hp) hstep
  | _ =>
    simp only [step] at hstep
    split_ifs at hstep with hp
    exact (stepLoop_move hstep).intact h (Bool.not_eq_true _ ▸ hp)

theorem run_intact {s : State τ φ} {events : List (Event τ φ)}
    (hrun : runFrom step State.init events = some s) : Intact s :=
  runFrom_invariant (fun _ _ _ h hstep => step_intact h hstep) intact_init hrun

/-- In every state that the threads can reach the queued functors are run in the order of the mutex,
none lost and none twice, and a poll with functors pending is or will be woken up. -/
theorem functors_in_order_and_woken {s : State τ φ} {events : List (Event τ φ)}
    (hrun : runFrom step State.init events = some s) :
    s.run ++ s.batch ++ s.pendingFunctors = s.pushed ∧
      (s.pc = .poll → s.pendingFunctors ≠ [] →
        0 < s.wakeupFd ∨ ∃ t, s.thread t = .pushed) := by
  have h := run_intact hrun
  refine ⟨h.order, ?_⟩
  intro hpc hne
  have hpolls : s.pc.pollsFirst = true := by
    rw [hpc]
    rfl
  rcases h.wakes hpolls hne with hfd | hpushed | hpushing
  · exact .inl hfd
  · exact .inr hpushed
  · rcases h.user hpushing with ⟨active, hf⟩ | ⟨functors, hf⟩
    · rw [hpc] at hf
      cases hf
    · rw [hpc] at hf
      cases hf

/-- A foreign thread queues functor 7 while the loop polls, and functor 7 queues functor 8. -/
def sampleRun : List (Event ℕ ℕ) :=
  [.testQuit, .foreignQueue 0 7, .foreignWakes 0, .pollReturns [.wakeup], .handleEvent,
    .doPendingFunctors, .swap, .callFunctor, .queueInLoop 8, .queueInLoopWakes, .functorReturns,
    .batchDone, .testQuit]

theorem sampleRun_in_order_and_woken :
    ∃ s : State ℕ ℕ, runFrom step State.init sampleRun = some s ∧ s.pc = .poll ∧ s.run = [7] ∧
      s.pendingFunctors = [8] ∧ s.run ++ s.batch ++ s.pendingFunctors = s.pushed ∧
        (s.pc = .poll → s.pendingFunctors ≠ [] → 0 < s.wakeupFd ∨ ∃ t, s.thread t = .pushed) := by
  have hrun : ∃ s : State ℕ ℕ, runFrom step State.init sampleRun = some s ∧ s.pc = .poll ∧
      s.run = [7] ∧ s.pendingFunctors = [8] := ⟨_, rfl, rfl, rfl, rfl⟩
  obtain ⟨s, hrun, hpc, hdone, hpending⟩ := hrun
  exact ⟨s, hrun, hpc, hdone, hpending, functors_in_order_and_woken hrun⟩

end

end EventLoop

end Matelib
