import Matelib.EventLoop

/-!
# Quitting an event loop

`loop` tests `quit_` only between two calls of `doPendingFunctors`, and `doPendingFunctors` runs
what it finds in the queue when it swaps. So the functors that are queued before `quit` are run
exactly when the loop thread still has a swap in front of it, or when none of them is in the queue
any more.
-/

namespace Matelib

namespace EventLoop

open Transition

/-- From here the loop thread swaps the queue before it tests `quit_` again. -/
def LoopPc.swapsFirst {φ : Type*} : LoopPc φ → Bool
  | .poll => true
  | .dispatch _ => true
  | .handler _ => true
  | .beforeSwap => true
  | _ => false

variable {τ φ : Type*}

/-- What a step of the loop thread does: it moves on with the batch that it has, or it swaps the
queue. While `quit_` is set, it does not come back to a swap. -/
theorem stepLoop_cases {s t : State τ φ} {e : Event τ φ} (hstep : stepLoop s e = some t) :
    t.pushed = s.pushed ∧ t.quit = s.quit ∧
      ((s.quit = true → t.pc.swapsFirst = s.pc.swapsFirst) ∧
          t.run ++ t.batch = s.run ++ s.batch ∨
        s.pc = .beforeSwap ∧ t.run ++ t.batch = s.run ++ s.pendingFunctors) := by
  cases stepLoop_move hstep with
  | testQuit hpc =>
    refine ⟨rfl, rfl, Or.inl ⟨?_, ?_⟩⟩
    · intro hquit
      simp only [hquit, hpc, if_true]
      rfl
    · simp only [State.batch, hpc]
      split_ifs <;> rfl
  | swap hpc => exact ⟨rfl, rfl, Or.inr ⟨hpc, rfl⟩⟩
  | callFunctor hpc =>
    refine ⟨rfl, rfl, Or.inl ⟨fun _ => by rw [hpc]; rfl, ?_⟩⟩
    simp only [State.batch, hpc, List.append_assoc, List.cons_append, List.nil_append]
  | pollReturns _ hpc | handleWakeup hpc | handleOther hpc | handlerReturns hpc
  | doPendingFunctors hpc | functorReturns hpc | batchDone hpc =>
    exact ⟨rfl, rfl, Or.inl ⟨fun _ => by rw [hpc]; rfl, by simp only [State.batch, hpc]⟩⟩

theorem stepUser_frame {s t : State τ φ} {e : Event τ φ} (hstep : stepUser s e = some t) :
    t.pc = s.pc ∧ t.run = s.run ∧ s.pushed <+: t.pushed ∧ (s.quit = true → t.quit = true) := by
  cases e with
  | queueInLoop func =>
    cases hpc : s.pc <;> simp only [stepUser, hpc, reduceCtorEq, Option.some.injEq] at hstep
    · subst hstep
      exact ⟨hpc, rfl, List.prefix_append _ _, id⟩
    · subst hstep
      exact ⟨hpc, rfl, List.prefix_append _ _, id⟩
  | quit =>
    cases hpc : s.pc <;> simp only [stepUser, hpc, reduceCtorEq, Option.some.injEq] at hstep
    · subst hstep
      exact ⟨rfl, rfl, List.prefix_rfl, fun _ => rfl⟩
    · subst hstep
      exact ⟨rfl, rfl, List.prefix_rfl, fun _ => rfl⟩
  | _ => cases hstep

section

variable [DecidableEq τ]

theorem stepForeign_frame {s t : State τ φ} {e : Event τ φ} (hstep : stepForeign s e = some t) :
    t.pc = s.pc ∧ t.run = s.run ∧ s.pushed <+: t.pushed ∧ (s.quit = true → t.quit = true) := by
  cases e with
  | foreignQueue u func =>
    cases hu : s.thread u <;> simp only [stepForeign, hu, reduceCtorEq, Option.some.injEq] at hstep
    subst hstep
    exact ⟨rfl, rfl, List.prefix_append _ _, id⟩
  | foreignQuit u =>
    cases hu : s.thread u <;> simp only [stepForeign, hu, reduceCtorEq, Option.some.injEq] at hstep
    subst hstep
    exact ⟨rfl, rfl, List.prefix_rfl, fun _ => rfl⟩
  | foreignWakes u =>
    cases hu : s.thread u <;> simp only [stepForeign, hu, reduceCtorEq, Option.some.injEq] at hstep
    all_goals
      subst hstep
      exact ⟨rfl, rfl, List.prefix_rfl, id⟩
  | _ => cases hstep

theorem step_frame {s t : State τ φ} {e : Event τ φ} (hstep : step s e = some t) :
    (t.pc = s.pc ∧ t.run = s.run ∧ s.pushed <+: t.pushed ∧ (s.quit = true → t.quit = true)) ∨
      stepLoop s e = some t := by
  cases e with
  | foreignQueue u func => exact Or.inl (stepForeign_frame (e := .foreignQueue u func) hstep)
  | foreignQuit u => exact Or.inl (stepForeign_frame (e := .foreignQuit u) hstep)
  | foreignWakes u => exact Or.inl (stepForeign_frame (e := .foreignWakes u) hstep)
  | queueInLoopWakes =>
    simp only [step] at hstep
    split_ifs at hstep
    all_goals
      cases hstep
      exact Or.inl ⟨rfl, rfl, List.prefix_rfl, id⟩
  | queueInLoop func =>
    simp only [step] at hstep
    split_ifs at hstep
    exact Or.inl (stepUser_frame hstep)
  | quit =>
    simp only [step] at hstep
    split_ifs at hstep
    exact Or.inl (stepUser_frame hstep)
  | _ =>
    simp only [step] at hstep
    split_ifs at hstep
    exact Or.inr hstep

/-- The functors `pushed` have been taken from the queue, or will be when it is swapped. -/
def Reaches (pushed : List φ) (s : State τ φ) : Prop :=
  s.pc.swapsFirst = true ∨ pushed <+: s.run ++ s.batch

/-- Once `quit_` is set, no step changes whether the loop thread gets hold of the functors that are
in the queue. -/
theorem Intact.reaches_step {s t : State τ φ} {e : Event τ φ} (h : Intact s) (hquit : s.quit = true)
    {pushed : List φ} (hpushed : pushed <+: s.pushed) (hstep : step s e = some t) :
    t.quit = true ∧ pushed <+: t.pushed ∧ (Reaches pushed t ↔ Reaches pushed s) := by
  rcases step_frame hstep with ⟨hpc, hrun, hmore, hkept⟩ | hloop
  · have hbatch : t.batch = s.batch := by rw [State.batch, State.batch, hpc]
    refine ⟨hkept hquit, hpushed.trans hmore, ?_⟩
    rw [Reaches, Reaches, hpc, hrun, hbatch]
  · obtain ⟨hsame, hquit', ⟨hpc, htaken⟩ | ⟨hpc, htaken⟩⟩ := stepLoop_cases hloop
    · refine ⟨hquit'.trans hquit, hsame ▸ hpushed, ?_⟩
      rw [Reaches, Reaches, hpc hquit, htaken]
    · -- the swap takes everything that is in the queue
      have horder := h.order
      simp only [State.batch, hpc, List.append_nil] at horder
      refine ⟨hquit'.trans hquit, hsame ▸ hpushed, iff_of_true (Or.inr ?_) (Or.inl ?_)⟩
      · rw [htaken, horder]
        exact hpushed
      · rw [hpc]
        rfl

/-- When `loop` returns, the functors that were pushed before a call of `quit` have been run exactly
when, at the call, the loop thread still had a swap of the queue in front of it, or the queue was
empty. -/
theorem run_before_return_iff {u : τ} {before after : List (Event τ φ)} {s t : State τ φ}
    (hbefore : runFrom step State.init before = some s)
    (hrun : runFrom step s (.foreignQuit u :: after) = some t) (hreturned : t.pc = .returned) :
    s.pushed <+: t.run ↔ s.pc.swapsFirst = true ∨ s.pendingFunctors = [] := by
  have hs := run_intact hbefore
  obtain ⟨v, hv, hafter⟩ := (runFrom_cons ..).mp hrun
  have hquit : v.quit = true ∧ v.pc = s.pc ∧ v.run = s.run ∧ v.pushed = s.pushed := by
    cases hu : s.thread u <;>
      simp only [step, stepForeign, hu, reduceCtorEq, Option.some.injEq] at hv
    subst hv
    exact ⟨rfl, rfl, rfl, rfl⟩
  obtain ⟨hquit, hpc, hsame, hpushed⟩ := hquit
  have hbatch : v.batch = s.batch := by rw [State.batch, State.batch, hpc]
  have hrest : Intact t ∧ t.quit = true ∧ s.pushed <+: t.pushed ∧
      (Reaches s.pushed t ↔ Reaches s.pushed s) := by
    refine runFrom_invariant (I := fun w => Intact w ∧ w.quit = true ∧ s.pushed <+: w.pushed ∧
      (Reaches s.pushed w ↔ Reaches s.pushed s)) ?_ ?_ hafter
    · rintro w e w' ⟨hw, hwquit, hwpushed, hiff⟩ hstep
      obtain ⟨hwquit', hwpushed', hstep'⟩ := hw.reaches_step hwquit hwpushed hstep
      exact ⟨step_intact hw hstep, hwquit', hwpushed', hstep'.trans hiff⟩
    · refine ⟨step_intact hs hv, hquit, hpushed ▸ List.prefix_rfl, ?_⟩
      rw [Reaches, Reaches, hpc, hsame, hbatch]
  have hend : Reaches s.pushed t ↔ s.pushed <+: t.run := by
    simp only [Reaches, State.batch, hreturned, LoopPc.swapsFirst, Bool.false_eq_true, false_or,
      List.append_nil]
  have hstart : Reaches s.pushed s ↔ s.pc.swapsFirst = true ∨ s.pendingFunctors = [] := by
    rw [Reaches, ← hs.order]
    apply or_congr_right
    constructor
    · intro h
      have hlen := h.length_le
      rw [List.length_append] at hlen
      exact List.length_eq_zero_iff.mp (by omega)
    · intro h
      rw [h, List.append_nil]
  exact hend.symm.trans (hrest.2.2.2.trans hstart)

/-- A foreign thread queues functor 7 while the loop polls. -/
def queuedWhilePolling : List (Event ℕ ℕ) := [.testQuit, .foreignQueue 0 7, .foreignWakes 0]

/-- The loop thread polls, runs one functor and returns. -/
def lastIteration : List (Event ℕ ℕ) :=
  [.foreignWakes 0, .pollReturns [.wakeup], .handleEvent, .doPendingFunctors, .swap, .callFunctor,
    .functorReturns, .batchDone, .testQuit]

theorem queuedWhilePolling_runs : ∃ s t : State ℕ ℕ,
    runFrom step State.init queuedWhilePolling = some s ∧
      runFrom step s (.foreignQuit 0 :: lastIteration) = some t ∧ t.pc = .returned ∧
      (s.pushed <+: t.run ↔ s.pc.swapsFirst = true ∨ s.pendingFunctors = []) := by
  have hruns : ∃ s t : State ℕ ℕ, runFrom step State.init queuedWhilePolling = some s ∧
      runFrom step s (.foreignQuit 0 :: lastIteration) = some t ∧ t.pc = .returned :=
    ⟨_, _, rfl, rfl, rfl⟩
  obtain ⟨s, t, hs, ht, hreturned⟩ := hruns
  exact ⟨s, t, hs, ht, hreturned, run_before_return_iff hs ht hreturned⟩

/-- A foreign thread queues functor 7 when the loop thread has just swapped the queue. -/
def queuedBehindSwap : List (Event ℕ ℕ) :=
  [.testQuit, .pollReturns [], .doPendingFunctors, .swap, .foreignQueue 0 7, .foreignWakes 0]

/-- Functor 7 of `queuedBehindSwap` is never run. -/
theorem queuedBehindSwap_loses : ¬ ∀ (before after : List (Event ℕ ℕ)) (s t : State ℕ ℕ),
    runFrom step State.init before = some s → runFrom step s (.foreignQuit 0 :: after) = some t →
      t.pc = .returned → s.pushed <+: t.run := by
  intro h
  have hrun : [7] <+: ([] : List ℕ) :=
    h queuedBehindSwap [.foreignWakes 0, .batchDone, .testQuit] _ _ rfl rfl rfl
  exact absurd hrun (by decide)

end

end EventLoop

end Matelib
