import Mathlib.Data.Int.Notation
import Matelib.Monitor

/-!
# The count-down latch

`wait` and `countDown` of `CountDownLatch`, a monitor over `count_`. `countDown` notifies the
threads that wait at the count zero only, and counts on below it.
-/

namespace Matelib

namespace CountDownLatch

open Transition Monitor

/-- The loop of `wait` ends behind `count_ > 0`. -/
def latch : Monitor ℤ Unit where
  ready count := ¬ count > 0
  update _ count := count - 1
  wakes _ count := if count = 0 then .everybody else .nobody

variable {θ : Type*}

theorem latch_signals : Signals latch (Set.univ : Set θ) where
  stable _ count h := by
    have hcount : ¬ count > 0 := of_decide_eq_true h
    exact decide_eq_true (p := ¬ count - 1 > 0) (by omega)
  wakes _ count hold hnew := by
    have hup : ¬ ¬ count > 0 := of_decide_eq_false hold
    have hdown : ¬ count - 1 > 0 := of_decide_eq_true hnew
    exact .inl (if_pos (by omega : count - 1 = 0))

variable [Fintype θ] [DecidableEq θ] {n : ℤ} {s s' : State ℤ Unit θ}

theorem step_data {e : Event Unit θ} (hstep : step latch s e = some s') :
    s'.data + (if e.isUpdate then 1 else 0) = s.data := by
  cases step_move hstep with
  | update hpc => exact Int.sub_add_cancel ..
  | wake hpc hwake => exact (Int.add_zero _).trans (wake_woken hwake).data
  | _ => exact Int.add_zero _

theorem run_data {events : List (Event Unit θ)} (hrun : runFrom (step latch) s events = some s') :
    s'.data + events.countP Event.isUpdate = s.data := by
  induction events generalizing s with
  | nil =>
    cases hrun
    exact Int.add_zero _
  | cons e events ih =>
    obtain ⟨s₁, hstep, hrun⟩ := (runFrom_cons ..).mp hrun
    have hfirst := step_data hstep
    have hrest := ih hrun
    rw [List.countP_cons]
    split_ifs at hfirst ⊢ <;> omega

/-- What the latch does in a run from the count `n` with the calls and wake-ups `events`. -/
structure Opens (n : ℤ) (events : List (Event Unit θ)) (s : State ℤ Unit θ) : Prop where
  exclusive : ∀ t t', (s.pc t).holds = true → (s.pc t').holds = true → t = t'
  -- a wait that is behind its loop has seen `n` counts
  passed : ∀ t, s.pc t = .passed → n ≤ events.countP Event.isUpdate
  -- where no thread can go on, the counts are made, and with `n` of them all waits have returned
  counted : Quiet latch s → events.countP Event.isUpdate = events.countP Event.isCall
  opened : Quiet latch s → n ≤ events.countP Event.isCall → ∀ t, s.pc t = .outside
  closed : Quiet latch s → ∀ t, s.pc t = .outside ∨ s.pc t = .asleep
  -- and it comes to that
  ends : events.length ≤ (events.map (Event.gain (Fintype.card θ))).sum

/-- In every order of the steps of all threads, and with threads that wake up for no reason: a
`wait` returns only behind `n` calls of `countDown`, and when there were so many, all of them
return. -/
theorem latch_opens {events : List (Event Unit θ)}
    (hrun : runFrom (step latch) (State.init n) events = some s) : Opens n events s := by
  have hkept : Kept latch Set.univ s :=
    run_kept latch_signals (fun e _ => awaitedBy_univ e) hrun
  have hdata : s.data + events.countP Event.isUpdate = n := run_data hrun
  have hdue := run_due hrun
  have hinit : (State.init n : State ℤ Unit θ).due = 0 := Finset.sum_eq_zero fun _ _ => rfl
  have hcounted (hquiet : Quiet latch s) :
      events.countP Event.isUpdate = events.countP Event.isCall := by
    have hzero := hkept.due_eq_zero hquiet
    omega
  refine ⟨fun t t' => hkept.locked.exclusive, ?_, hcounted, ?_, ?_, ?_⟩
  · intro t ht
    have hready : ¬ s.data > 0 := of_decide_eq_true (hkept.passed t ht)
    omega
  · intro hquiet hn t
    obtain hpc | ⟨-, hready⟩ := hkept.quiet hquiet t
    · exact hpc
    · have hup : ¬ ¬ s.data > 0 := of_decide_eq_false hready
      have hcount := hcounted hquiet
      omega
  · intro hquiet t
    exact (hkept.quiet hquiet t).imp_right And.left
  · have hlength := run_length_le hrun
    have hrank : (State.init n : State ℤ Unit θ).rank = 0 := Finset.sum_eq_zero fun _ _ => rfl
    omega

/-- A thread waits and falls asleep, wakes up for no reason and sleeps again, and the other one
counts down. -/
def sampleRun : List (Event Unit Bool) :=
  [.await true, .lock true, .test true, .spurious true, .lock true, .test true, .call false (),
   .lock false, .update false, .wake false none, .unlock false, .lock true, .test true,
   .unlock true]

theorem sampleRun_latch_opens :
    ∃ s, runFrom (step latch) (State.init 1) sampleRun = some s ∧ s.data = 0 ∧
      Opens 1 sampleRun s :=
  ⟨_, rfl, rfl, latch_opens rfl⟩

end CountDownLatch

end Matelib
