import Mathlib.Algebra.BigOperators.Fin
import Mathlib.Algebra.Order.Group.Multiset
import Matelib.ThreadPool

/-!
# The workers of a thread pool

A pool that has been started, with its workers, any number of threads that call `run`, and one that
calls `stop`. The steps are the atomic actions of the threads: a critical section of the mutex up to
its end or to `wait`, a test of `running` outside of it, and the start and end of a task. A task is
with the queue, with one worker, or executed.
-/

namespace Matelib

namespace ThreadPoolRuns

open Transition

variable {φ : Type*} {n : ℕ}

/-- Where a worker is in `runInThread`: before the test of `running`, before the lock in `take`, in
`wait`, behind it and before the lock, or behind `take` with what it returned. -/
inductive WorkerPc (φ : Type*) where
  | whileTest
  | taking
  | waiting
  | woken
  | holding (task : Option φ)
  | executing (task : φ)
  | finished
  deriving DecidableEq

/-- Where the thread is that calls `stop`: outside, behind the critical section, or back. -/
inductive StopPc where
  | outside
  | joining
  | returned
  deriving DecidableEq

/-- The last lists are histories: the tasks in the order in which `run` put them into the queue,
those that `take` took from it, and those that have been executed. -/
structure State (φ : Type*) (n : ℕ) where
  pool : ThreadPool φ
  worker : Fin n → WorkerPc φ
  stopper : StopPc
  submitted : List φ
  taken : List φ
  executed : List φ

def State.started : State φ n where
  pool := ⟨n, true, [], List.replicate n (some ⟨true⟩)⟩
  worker _ := .whileTest
  stopper := .outside
  submitted := []
  taken := []
  executed := []

theorem start_new :
    (ThreadPool.new n : ThreadPool φ).start = some (State.started : State φ n).pool :=
  ThreadPool.start_of_nil rfl rfl

/-- What an action of a worker leads to, with the tasks that it takes and ends. -/
structure Turn (φ : Type*) where
  pc : WorkerPc φ
  pool : ThreadPool φ
  taken : List φ
  executed : List φ

/-- The critical section of `take`. -/
def takeTurn (pool : ThreadPool φ) : Turn φ :=
  if pool.tasks.isEmpty && pool.running then ⟨.waiting, pool, [], []⟩
  else
    let (task, pool) := pool.take
    ⟨.holding task, pool, task.toList, []⟩

/-- The next action of a worker, which is blocked in `wait`. -/
def turn (pool : ThreadPool φ) : WorkerPc φ → Option (Turn φ)
  | .whileTest => some ⟨if pool.running then .taking else .finished, pool, [], []⟩
  | .taking => some (takeTurn pool)
  | .waiting => none
  | .woken => some (takeTurn pool)
  | .holding none => some ⟨.whileTest, pool, [], []⟩
  | .holding (some task) => some ⟨.executing task, pool, [], []⟩
  | .executing task => some ⟨.whileTest, pool, [], [task]⟩
  | .finished => none

def WorkerPc.waits : WorkerPc φ → Bool
  | .waiting => true
  | _ => false

def WorkerPc.ended : WorkerPc φ → Bool
  | .finished => true
  | _ => false

/-- `run` names the worker that `notify` wakes, if one waits; `wake` is a spurious wakeup. -/
inductive Event (φ : Type*) (n : ℕ) where
  | run (task : φ) (notified : Option (Fin n))
  | turn (w : Fin n)
  | wake (w : Fin n)
  | stop
  | stopReturns

def State.setWorker (s : State φ n) (w : Fin n) (pc : WorkerPc φ) : State φ n :=
  { s with worker := Function.update s.worker w pc }

def State.notify (s : State φ n) : Option (Fin n) → Option (State φ n)
  | none => if ∀ w, (s.worker w).waits = false then some s else none
  | some w => if (s.worker w).waits then some (s.setWorker w .woken) else none

def State.notifyAll (s : State φ n) : State φ n :=
  { s with worker := fun w => if (s.worker w).waits then .woken else s.worker w }

def run (s : State φ n) (task : φ) (notified : Option (Fin n)) : Option (State φ n) :=
  match s.pool.run task with
  | (pool, none) =>
    State.notify { s with pool := pool, submitted := s.submitted ++ [task] } notified
  | (_, some _) => some s

def State.turn (s : State φ n) (w : Fin n) (r : Turn φ) : State φ n :=
  { s with
    pool := r.pool
    worker := Function.update s.worker w r.pc
    taken := s.taken ++ r.taken
    executed := s.executed ++ r.executed }

def step (s : State φ n) : Event φ n → Option (State φ n)
  | .run task notified => run s task notified
  | .turn w => (turn s.pool (s.worker w)).map (s.turn w)
  | .wake w => if (s.worker w).waits then some (s.setWorker w .woken) else none
  | .stop =>
    if s.stopper = .outside then
      some { s.notifyAll with pool := s.pool.stopRunning, stopper := .joining }
    else none
  | .stopReturns =>
    if s.stopper = .joining ∧ ∀ w, (s.worker w).ended = true then
      s.pool.join.map fun pool => { s with pool := pool, stopper := .returned }
    else none

def WorkerPc.held : WorkerPc φ → Multiset φ
  | .holding (some task) => {task}
  | .executing task => {task}
  | _ => 0

/-- A bound for the number of actions until the worker is finished, when the pool is stopped. -/
def WorkerPc.rank : WorkerPc φ → ℕ
  | .finished => 0
  | .whileTest => 1
  | .holding none => 2
  | .executing _ => 2
  | .holding (some _) => 3
  | .taking => 4
  | .woken => 4
  | .waiting => 5

/-- The worker is not blocked: its next action is possible and brings it nearer to its end. -/
def GoesOn (s : State φ n) (w : Fin n) : Prop :=
  ∃ t, step s (.turn w) = some t ∧ (t.worker w).rank < (s.worker w).rank

/-- The tasks are taken in the order of their submission, each of them once; a task that waits has a
worker that does not; behind the critical section of `stop` no worker is blocked; and when `stop`
has returned, which it does when the workers are finished, a prefix of the submitted tasks has been
executed. -/
structure Orderly (s : State φ n) : Prop where
  order : s.taken ++ s.pool.tasks = s.submitted
  once : (s.executed : Multiset φ) + ∑ w, (s.worker w).held = s.taken
  awake : s.stopper = .outside → s.pool.tasks ≠ [] →
    ∃ w, (s.worker w).waits = false ∧ (s.worker w).ended = false
  unblocked : s.stopper ≠ .outside → ∀ w, (s.worker w).ended = false → GoesOn s w
  returns : s.stopper = .joining → (∀ w, (s.worker w).ended = true) → (step s .stopReturns).isSome
  ended : s.stopper = .returned → ∃ k, s.executed.Perm (s.submitted.take k)

/-- An action of a worker loses no task. It waits only while there is nothing to take, and it ends
only when the pool does not run. -/
structure TurnSpec (pool : ThreadPool φ) (pc : WorkerPc φ) (r : Turn φ) : Prop where
  tasks : r.taken ++ r.pool.tasks = pool.tasks
  held : (r.executed : Multiset φ) + r.pc.held = pc.held + r.taken
  running : r.pool.running = pool.running
  threads : r.pool.threads = pool.threads
  waits : r.pc.waits = true → pool.running = true ∧ r.pool.tasks = []
  ended : r.pc.ended = true → pool.running = false

variable {pool : ThreadPool φ} {pc : WorkerPc φ} {r : Turn φ}

theorem takeTurn_cases (pool : ThreadPool φ) :
    (pool.tasks = [] ∧ pool.running = true ∧ takeTurn pool = ⟨.waiting, pool, [], []⟩) ∨
    (pool.tasks = [] ∧ pool.running = false ∧ takeTurn pool = ⟨.holding none, pool, [], []⟩) ∨
    ∃ task tasks, pool.tasks = task :: tasks ∧
      takeTurn pool = ⟨.holding (some task), { pool with tasks := tasks }, [task], []⟩ := by
  cases htasks : pool.tasks with
  | nil =>
    cases hrunning : pool.running with
    | true => exact .inl ⟨rfl, rfl, by rw [takeTurn, htasks, hrunning]; rfl⟩
    | false =>
      exact .inr (.inl ⟨rfl, rfl, by rw [takeTurn, htasks, hrunning, ThreadPool.take, htasks]; rfl⟩)
  | cons task tasks =>
    exact .inr (.inr ⟨task, tasks, rfl, by rw [takeTurn, htasks, ThreadPool.take, htasks]; rfl⟩)

theorem takeTurn_spec (pool : ThreadPool φ) (hheld : pc.held = 0) :
    TurnSpec pool pc (takeTurn pool) := by
  rcases takeTurn_cases pool with ⟨htasks, hrunning, hturn⟩ | ⟨htasks, -, hturn⟩ |
    ⟨task, tasks, htasks, hturn⟩
  · rw [hturn]
    exact ⟨rfl, by rw [hheld]; rfl, rfl, rfl, fun _ => ⟨hrunning, htasks⟩, nofun⟩
  · rw [hturn]
    exact ⟨rfl, by rw [hheld]; rfl, rfl, rfl, nofun, nofun⟩
  · rw [hturn]
    exact ⟨htasks.symm, by rw [hheld]; rfl, rfl, rfl, nofun, nofun⟩

theorem turn_spec (h : turn pool pc = some r) : TurnSpec pool pc r := by
  cases pc with
  | whileTest =>
    cases h
    refine ⟨rfl, ?_, rfl, rfl, ?_, ?_⟩
    · split_ifs <;> rfl
    · split_ifs
      · exact nofun
      · exact nofun
    · split_ifs with hrunning
      · exact nofun
      · exact fun _ => Bool.eq_false_iff.mpr hrunning
  | taking =>
    cases h
    exact takeTurn_spec pool rfl
  | waiting => cases h
  | woken =>
    cases h
    exact takeTurn_spec pool rfl
  | holding task =>
    cases task with
    | none =>
      cases h
      exact ⟨rfl, rfl, rfl, rfl, nofun, nofun⟩
    | some task =>
      cases h
      exact ⟨rfl, (add_comm _ _), rfl, rfl, nofun, nofun⟩
  | executing task =>
    cases h
    exact ⟨rfl, rfl, rfl, rfl, nofun, nofun⟩
  | finished => cases h

theorem turn_rank (hrunning : pool.running = false) (hwaits : pc.waits = false)
    (hended : pc.ended = false) : ∃ r, turn pool pc = some r ∧ r.pc.rank < pc.rank := by
  have htake : (takeTurn pool).pc.rank < 4 := by
    rcases takeTurn_cases pool with ⟨-, htrue, -⟩ | ⟨-, -, hturn⟩ | ⟨task, tasks, -, hturn⟩
    · rw [hrunning] at htrue
      cases htrue
    · rw [hturn]
      exact (by decide : 2 < 4)
    · rw [hturn]
      exact (by decide : 3 < 4)
  cases pc with
  | whileTest =>
    refine ⟨_, rfl, ?_⟩
    rw [hrunning]
    exact Nat.zero_lt_one
  | taking => exact ⟨_, rfl, htake⟩
  | waiting => cases hwaits
  | woken => exact ⟨_, rfl, htake⟩
  | holding task =>
    cases task with
    | none => exact ⟨_, rfl, (by decide : 1 < 2)⟩
    | some task => exact ⟨_, rfl, (by decide : 2 < 3)⟩
  | executing task => exact ⟨_, rfl, (by decide : 1 < 2)⟩
  | finished => cases hended

theorem sum_held_update (worker : Fin n → WorkerPc φ) (w : Fin n) (pc : WorkerPc φ) :
    ∑ v, (Function.update worker w pc v).held + (worker w).held =
      ∑ v, (worker v).held + pc.held := by
  have hcomp : (fun v => (Function.update worker w pc v).held) =
      Function.update (fun v => (worker v).held) w pc.held := by
    funext v
    exact Function.apply_update (fun _ pc => WorkerPc.held pc) worker w pc v
  rw [hcomp, Finset.sum_update_of_mem (Finset.mem_univ w), Finset.sdiff_singleton_eq_erase,
    ← Finset.add_sum_erase Finset.univ (fun v => (worker v).held) (Finset.mem_univ w)]
  rw [add_assoc, add_comm pc.held, add_comm (∑ v ∈ _, _)]

structure Kept (s : State φ n) : Prop where
  order : s.taken ++ s.pool.tasks = s.submitted
  once : (s.executed : Multiset φ) + ∑ w, (s.worker w).held = s.taken
  threads : s.stopper ≠ .returned → s.pool.threads = List.replicate n (some ⟨true⟩)
  running : s.pool.running = true ↔ s.stopper = .outside
  waiting : s.pool.running = false → ∀ w, (s.worker w).waits = false
  live : s.pool.running = true → ∀ w, (s.worker w).ended = false
  joined : s.stopper = .returned → ∀ w, (s.worker w).ended = true

theorem kept_started : Kept (State.started : State φ n) where
  order := rfl
  once := by
    have hnone : ∑ w, ((State.started : State φ n).worker w).held = 0 :=
      Finset.sum_eq_zero fun _ _ => rfl
    rw [hnone]
    rfl
  threads _ := rfl
  running := iff_of_true rfl rfl
  waiting h := nomatch h
  live _ _ := rfl
  joined h := nomatch h

variable {s t : State φ n} {w : Fin n}

theorem held_of_waits (h : pc.waits = true) : pc.held = 0 ∧ pc.ended = false := by
  cases pc with
  | waiting => exact ⟨rfl, rfl⟩
  | _ => cases h

theorem held_of_ended (pool : ThreadPool φ) (h : pc.ended = true) :
    pc.held = 0 ∧ turn pool pc = none := by
  cases pc with
  | finished => exact ⟨rfl, rfl⟩
  | _ => cases h

theorem Kept.wake (h : Kept s) (hwaits : (s.worker w).waits = true) :
    Kept (s.setWorker w .woken) where
  order := h.order
  once := by
    have hsum := sum_held_update s.worker w .woken
    rw [(held_of_waits hwaits).1, show (WorkerPc.woken : WorkerPc φ).held = 0 from rfl, add_zero,
      add_zero] at hsum
    change (s.executed : Multiset φ) + ∑ v, (Function.update s.worker w .woken v).held = _
    rw [hsum]
    exact h.once
  threads := h.threads
  running := h.running
  waiting hrunning := by
    rw [h.waiting hrunning w] at hwaits
    cases hwaits
  live hrunning v := by
    change (Function.update s.worker w .woken v).ended = false
    rw [Function.update_apply]
    split_ifs
    · rfl
    · exact h.live hrunning v
  joined hreturned := by
    have hended := h.joined hreturned w
    rw [(held_of_waits hwaits).2] at hended
    cases hended

theorem Kept.push (h : Kept s) (task : φ) :
    Kept { s with
      pool := { s.pool with tasks := s.pool.tasks ++ [task] }
      submitted := s.submitted ++ [task] } where
  order := by rw [← h.order, List.append_assoc]
  once := h.once
  threads := h.threads
  running := h.running
  waiting := h.waiting
  live := h.live
  joined := h.joined

theorem Kept.turn (h : Kept s) (hr : turn s.pool (s.worker w) = some r) : Kept (s.turn w r) := by
  have hspec := turn_spec hr
  constructor
  · change s.taken ++ r.taken ++ r.pool.tasks = s.submitted
    rw [List.append_assoc, hspec.tasks, h.order]
  · change ((s.executed ++ r.executed : List φ) : Multiset φ) +
      ∑ v, (Function.update s.worker w r.pc v).held = (s.taken ++ r.taken : List φ)
    rw [← Multiset.coe_add, ← Multiset.coe_add, ← h.once]
    apply add_right_cancel (b := (s.worker w).held)
    calc (s.executed : Multiset φ) + r.executed +
          ∑ v, (Function.update s.worker w r.pc v).held + (s.worker w).held
        = s.executed + r.executed + (∑ v, (s.worker v).held + r.pc.held) := by
          rw [add_assoc, sum_held_update]
      _ = s.executed + ∑ v, (s.worker v).held + (r.executed + r.pc.held) := by ac_rfl
      _ = s.executed + ∑ v, (s.worker v).held + ((s.worker w).held + r.taken) := by rw [hspec.held]
      _ = s.executed + ∑ v, (s.worker v).held + r.taken + (s.worker w).held := by ac_rfl
  · intro hreturned
    exact hspec.threads.trans (h.threads hreturned)
  · change r.pool.running = true ↔ _
    rw [hspec.running]
    exact h.running
  · change r.pool.running = false → ∀ v, (Function.update s.worker w r.pc v).waits = false
    rw [hspec.running]
    intro hrunning v
    rw [Function.update_apply]
    split_ifs
    · apply Bool.eq_false_iff.mpr
      intro hwaits
      rw [(hspec.waits hwaits).1] at hrunning
      cases hrunning
    · exact h.waiting hrunning v
  · change r.pool.running = true → ∀ v, (Function.update s.worker w r.pc v).ended = false
    rw [hspec.running]
    intro hrunning v
    rw [Function.update_apply]
    split_ifs
    · apply Bool.eq_false_iff.mpr
      intro hended
      rw [hspec.ended hended] at hrunning
      cases hrunning
    · exact h.live hrunning v
  · intro hreturned
    have hnone := (held_of_ended s.pool (h.joined hreturned w)).2
    cases hnone.symm.trans hr

theorem Kept.stop (h : Kept s) (hstopper : s.stopper = .outside) :
    Kept { s.notifyAll with pool := s.pool.stopRunning, stopper := .joining } where
  order := h.order
  once := by
    have hsame : ∀ v, (s.notifyAll.worker v).held = (s.worker v).held := by
      intro v
      change (if (s.worker v).waits then WorkerPc.woken else s.worker v).held = _
      split_ifs with hwaits
      · exact (held_of_waits hwaits).1.symm
      · rfl
    change (s.executed : Multiset φ) + ∑ v, (s.notifyAll.worker v).held = _
    rw [Finset.sum_congr rfl fun v _ => hsame v]
    exact h.once
  threads _ := h.threads (by rw [hstopper]; exact nofun)
  running := iff_of_false nofun nofun
  waiting _ v := by
    change (if (s.worker v).waits then WorkerPc.woken else s.worker v).waits = false
    split_ifs with hwaits
    · rfl
    · exact Bool.eq_false_iff.mpr hwaits
  live hrunning := nomatch hrunning
  joined hreturned := nomatch hreturned

theorem Kept.stopReturns (h : Kept s) (hstopper : s.stopper = .joining)
    (hended : ∀ w, (s.worker w).ended = true) :
    ∃ t, step s .stopReturns = some t ∧ Kept t ∧ t.worker = s.worker := by
  have hthreads := h.threads (by rw [hstopper]; exact nofun)
  have hjoin := ThreadPool.join_of_started hthreads
  refine ⟨{ s with
    pool := { s.pool with threads := List.replicate n none }
    stopper := .returned }, ?_, ?_, rfl⟩
  · rw [step, if_pos ⟨hstopper, hended⟩, hjoin, Option.map_some]
  constructor
  · exact h.order
  · exact h.once
  · intro hf
    exact absurd rfl hf
  · refine iff_of_false ?_ nofun
    change s.pool.running ≠ true
    rw [ne_eq, h.running, hstopper]
    exact nofun
  · exact h.waiting
  · exact h.live
  · intro _
    exact hended

/-- A task that waits has a worker that does not. -/
def Awake (s : State φ n) : Prop := s.pool.tasks ≠ [] → ∃ w, (s.worker w).waits = false

theorem awake_setWorker (hwaits : pc.waits = false) : Awake (s.setWorker w pc) := by
  intro _
  refine ⟨w, ?_⟩
  change (Function.update s.worker w pc w).waits = false
  rw [Function.update_self, hwaits]

theorem awake_turn (hr : turn s.pool (s.worker w) = some r) :
    Awake (s.turn w r) := by
  intro htasks
  have hspec := turn_spec hr
  refine ⟨w, ?_⟩
  change (Function.update s.worker w r.pc w).waits = false
  rw [Function.update_self]
  apply Bool.eq_false_iff.mpr
  intro hwaits
  exact htasks (hspec.waits hwaits).2

theorem Kept.notify {notified : Option (Fin n)} (h : Kept s) (hn : 0 < n)
    (hstep : s.notify notified = some t) : Kept t ∧ Awake t := by
  cases notified with
  | none =>
    obtain ⟨hwaits, rfl⟩ := of_guard hstep
    exact ⟨h, fun _ => ⟨⟨0, hn⟩, hwaits _⟩⟩
  | some w =>
    obtain ⟨hwaits, rfl⟩ := of_guard hstep
    exact ⟨h.wake hwaits, awake_setWorker rfl⟩

theorem step_inv (hn : 0 < n) (h : Kept s ∧ Awake s) {e : Event φ n} (hstep : step s e = some t) :
    Kept t ∧ Awake t := by
  cases e with
  | run task notified =>
    rw [step, run] at hstep
    rcases s.pool.run_cases task with hrun | hrun
    · rw [hrun] at hstep
      cases hstep
      exact h
    · rw [hrun] at hstep
      exact (h.1.push task).notify hn hstep
  | turn w =>
    obtain ⟨r, hr, rfl⟩ := Option.map_eq_some_iff.mp hstep
    exact ⟨h.1.turn hr, awake_turn hr⟩
  | wake w =>
    obtain ⟨hwaits, rfl⟩ := of_guard hstep
    exact ⟨h.1.wake hwaits, awake_setWorker rfl⟩
  | stop =>
    obtain ⟨hstopper, rfl⟩ := of_guard hstep
    have hkept := h.1.stop hstopper
    exact ⟨hkept, fun _ => ⟨⟨0, hn⟩, hkept.waiting rfl _⟩⟩
  | stopReturns =>
    have hcond : s.stopper = .joining ∧ ∀ w, (s.worker w).ended = true := by
      by_contra hf
      rw [step, if_neg hf] at hstep
      cases hstep
    obtain ⟨t', ht', hkept, hworker⟩ := h.1.stopReturns hcond.1 hcond.2
    cases hstep.symm.trans ht'
    refine ⟨hkept, ?_⟩
    intro _
    refine ⟨⟨0, hn⟩, ?_⟩
    rw [hworker]
    apply Bool.eq_false_iff.mpr
    intro hwaits
    have hended := (held_of_waits hwaits).2
    rw [hcond.2] at hended
    cases hended

theorem Kept.orderly (h : Kept s) (hawake : Awake s) : Orderly s where
  order := h.order
  once := h.once
  awake hstopper htasks := by
    obtain ⟨w, hw⟩ := hawake htasks
    exact ⟨w, hw, h.live (h.running.mpr hstopper) w⟩
  unblocked hstopper w hended := by
    have hrunning : s.pool.running = false :=
      Bool.eq_false_iff.mpr fun hf => hstopper (h.running.mp hf)
    obtain ⟨r, hr, hrank⟩ := turn_rank hrunning (h.waiting hrunning w) hended
    refine ⟨s.turn w r, by rw [step, hr]; rfl, ?_⟩
    change (Function.update s.worker w r.pc w).rank < _
    rwa [Function.update_self]
  returns hstopper hended := by
    obtain ⟨t, ht, -⟩ := h.stopReturns hstopper hended
    rw [ht]
    rfl
  ended hreturned := by
    have hnone : ∑ w, (s.worker w).held = 0 :=
      Finset.sum_eq_zero fun w _ => (held_of_ended s.pool (h.joined hreturned w)).1
    have honce := h.once
    rw [hnone, add_zero] at honce
    refine ⟨s.taken.length, ?_⟩
    rw [← h.order, List.take_left]
    exact Multiset.coe_eq_coe.mp honce

/-- In every interleaving of the workers with any calls of `run` and one of `stop`, the tasks are
taken in order and executed once, and `stop` waits for nothing but tasks that were taken. -/
theorem workers_orderly (hn : 0 < n) {events : List (Event φ n)} {s : State φ n}
    (hrun : runFrom step State.started events = some s) : Orderly s := by
  have hinv : Kept s ∧ Awake s := by
    apply runFrom_invariant (I := fun s => Kept s ∧ Awake s) _ _ hrun
    · intro s e t h hstep
      exact step_inv hn h hstep
    · exact ⟨kept_started, fun hf => absurd rfl hf⟩
  exact hinv.1.orderly hinv.2

/-- When the pool is stopped, one worker waits for a task, another holds one and a third has not
begun; a task that is run then stays in the queue. -/
def stoppedRun : List (Event ℕ 3) :=
  [.turn 0, .turn 0, .run 5 (some 0), .turn 0, .turn 0, .turn 1, .run 6 none, .turn 1, .turn 0,
    .turn 0, .turn 0, .stop, .turn 1, .turn 1, .turn 1, .turn 0, .turn 0, .run 7 none, .turn 0,
    .turn 2, .stopReturns]

theorem stoppedRun_orderly :
    ∃ s, runFrom step State.started stoppedRun = some s ∧ s.stopper = .returned ∧ Orderly s := by
  have hrun : (runFrom step State.started stoppedRun).any (fun s => s.stopper = .returned) =
      true := by
    decide +kernel
  obtain ⟨s, hs, hreturned⟩ := (Option.any_eq_true _ _).mp hrun
  exact ⟨s, hs, of_decide_eq_true hreturned, workers_orderly (by decide) hs⟩

end ThreadPoolRuns

end Matelib
