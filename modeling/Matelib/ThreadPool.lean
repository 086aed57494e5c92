import Mathlib.Data.Int.Notation
import Mathlib.Data.List.Basic
import Matelib.Transition

/-!
# The life of a thread pool

`start`, `stop` and `run` of `ThreadPool`, called one after another. `run` takes the pool for
stopped when `threads_` is empty, but `stop` only releases the threads and leaves their pointers in
the vector. The main result is about every sequence of calls.
-/

namespace Matelib

/-- The flag of a `Thread` that its assertions test. -/
structure Thread where
  started : Bool
  deriving DecidableEq

namespace Thread

def new : Thread := ⟨false⟩

/-- It is assumed that `pthread_create` succeeds, and that the thread id is below 100000: other
assertions demand both. -/
def start (t : Thread) : Option Thread := if t.started then none else some ⟨true⟩

def join (t : Thread) : Option Thread := if t.started then some t else none

end Thread

/-- An element of `threads` is `none` when its thread was released. Tasks are functions that can be
called. -/
structure ThreadPool (φ : Type*) where
  threadNum : ℤ
  running : Bool
  tasks : List φ
  threads : List (Option Thread)
  deriving DecidableEq

namespace ThreadPool

open Transition

variable {φ : Type*}

def new (threadNum : ℤ) : ThreadPool φ := ⟨threadNum, false, [], []⟩

/-- `t->start()` for an element of `threads`. -/
def startThread (t : Option Thread) : Option Thread := t.bind Thread.start

def joinThread (t : Option Thread) : Option Thread := t.bind Thread.join

/-- `none` when an assertion fails or a released thread is used. -/
def start (pool : ThreadPool φ) : Option (ThreadPool φ) :=
  if pool.running then none
  else
    let threads := pool.threads ++ List.replicate pool.threadNum.toNat (some Thread.new)
    (threads.mapM startThread).map fun threads =>
      { pool with running := true, threads := threads.map some }

/-- The critical section of `stop`. -/
def stopRunning (pool : ThreadPool φ) : ThreadPool φ := { pool with running := false }

/-- The rest of `stop`, which waits for the threads and releases them. -/
def join (pool : ThreadPool φ) : Option (ThreadPool φ) :=
  (pool.threads.mapM joinThread).map fun threads =>
    { pool with threads := threads.map fun _ => none }

def stop (pool : ThreadPool φ) : Option (ThreadPool φ) := pool.stopRunning.join

/-- `run`, with the task that the caller executes before it returns. -/
def run (pool : ThreadPool φ) (task : φ) : ThreadPool φ × Option φ :=
  if pool.threads.isEmpty then (pool, some task)
  else ({ pool with tasks := pool.tasks ++ [task] }, none)

/-- `take` behind its loop. -/
def take (pool : ThreadPool φ) : Option φ × ThreadPool φ :=
  match pool.tasks with
  | [] => (none, pool)
  | task :: tasks => (some task, { pool with tasks := tasks })

/-- The calls of the user, and a worker that takes a task. -/
inductive Call (φ : Type*) where
  | start
  | stop
  | run (task : φ)
  | take

def step (pool : ThreadPool φ) : Call φ → Option (ThreadPool φ)
  | .start => pool.start
  | .stop => pool.stop
  | .run task => some (pool.run task).1
  | .take => some pool.take.2

/-- The pool is started when it is not running, and stopped when it is. -/
def Respects (pool : ThreadPool φ) : Call φ → Prop
  | .start => pool.running = false
  | .stop => pool.running = true
  | _ => True

def workers (pool : ThreadPool φ) : ℕ := pool.threads.countP (· = some ⟨true⟩)

/-- What a user expects: `start` starts its threads, `stop` returns, and `run` executes the task
itself when the pool is not running. -/
def Serves (pool : ThreadPool φ) : Call φ → Prop
  | .start => ∃ pool' ∈ pool.start, pool'.workers = pool.threadNum.toNat
  | .stop => pool.stop.isSome
  | .run task => pool.running = false → (pool.run task).2 = some task
  | .take => True

instance (pool : ThreadPool φ) : ∀ c, Decidable (pool.Respects c)
  | .start => inferInstanceAs (Decidable (_ = _))
  | .stop => inferInstanceAs (Decidable (_ = _))
  | .run _ => inferInstanceAs (Decidable True)
  | .take => inferInstanceAs (Decidable True)

instance [DecidableEq φ] (pool : ThreadPool φ) : ∀ c, Decidable (pool.Serves c)
  | .start => inferInstanceAs (Decidable (∃ pool' ∈ pool.start, _))
  | .stop => inferInstanceAs (Decidable (_ = true))
  | .run _ => inferInstanceAs (Decidable (_ → _))
  | .take => inferInstanceAs (Decidable True)

/-- The calls that a stopped pool should serve like a new one. -/
def Call.isUse : Call φ → Bool
  | .start => true
  | .run _ => true
  | _ => false

/-- No call but those of the workers comes after `stop`. -/
def StopsLast : List (Call φ) → Prop
  | [] => True
  | .stop :: calls => ∀ c ∈ calls, c.isUse = false
  | _ :: calls => StopsLast calls

/-- The pool has not been stopped yet: it is new, or it runs with all its threads. -/
structure Whole (threadNum : ℤ) (pool : ThreadPool φ) : Prop where
  num : pool.threadNum = threadNum
  idle : pool.running = false → pool.threads = []
  busy : pool.running = true → pool.threads = List.replicate threadNum.toNat (some ⟨true⟩)

/-- The pool has been stopped. Its threads are released. -/
structure Stopped (threadNum : ℤ) (pool : ThreadPool φ) : Prop where
  num : pool.threadNum = threadNum
  running : pool.running = false
  threads : pool.threads = List.replicate threadNum.toNat none

variable {threadNum : ℤ} {pool : ThreadPool φ}

theorem whole_new (threadNum : ℤ) : Whole threadNum (new threadNum : ThreadPool φ) where
  num := rfl
  idle _ := rfl
  busy h := nomatch h

theorem mapM_replicate {α β : Type*} {f : α → Option β} {a : α} {b : β} (h : f a = some b) (n : ℕ) :
    (List.replicate n a).mapM f = some (List.replicate n b) := by
  induction n with
  | zero => rfl
  | succ n ih => rw [List.replicate_succ, List.mapM_cons, h, ih]; rfl

theorem start_of_nil (hrunning : pool.running = false) (hthreads : pool.threads = []) :
    pool.start = some { pool with
      running := true
      threads := List.replicate pool.threadNum.toNat (some ⟨true⟩) } := by
  have hmap := mapM_replicate (show startThread (some Thread.new) = some ⟨true⟩ from rfl)
    pool.threadNum.toNat
  rw [start, hrunning, hthreads, List.nil_append]
  simp only [Bool.false_eq_true, if_false, hmap, Option.map_some, List.map_replicate]

theorem start_of_released {threads : List (Option Thread)}
    (hthreads : pool.threads = none :: threads) : pool.start = none := by
  rw [start]
  split_ifs
  · rfl
  · simp only [hthreads, List.cons_append, List.mapM_cons]
    rfl

theorem join_of_started {n : ℕ} (hthreads : pool.threads = List.replicate n (some ⟨true⟩)) :
    pool.join = some { pool with threads := List.replicate n none } := by
  have hmap := mapM_replicate (show joinThread (some ⟨true⟩) = some ⟨true⟩ from rfl) n
  simp only [join, hthreads, hmap, Option.map_some, List.map_replicate]

theorem run_cases (pool : ThreadPool φ) (task : φ) :
    pool.run task = (pool, some task) ∨
      pool.run task = ({ pool with tasks := pool.tasks ++ [task] }, none) := by
  rw [run]
  split_ifs
  · exact .inl rfl
  · exact .inr rfl

theorem run_same (pool : ThreadPool φ) (task : φ) :
    (pool.run task).1.threadNum = pool.threadNum ∧ (pool.run task).1.running = pool.running ∧
      (pool.run task).1.threads = pool.threads := by
  rcases pool.run_cases task with hrun | hrun
  · rw [hrun]
    exact ⟨rfl, rfl, rfl⟩
  · rw [hrun]
    exact ⟨rfl, rfl, rfl⟩

theorem take_same (pool : ThreadPool φ) :
    pool.take.2.threadNum = pool.threadNum ∧ pool.take.2.running = pool.running ∧
      pool.take.2.threads = pool.threads := by
  rw [take]
  split
  · exact ⟨rfl, rfl, rfl⟩
  · exact ⟨rfl, rfl, rfl⟩

variable {pool' : ThreadPool φ}

theorem Whole.of_same (h : Whole threadNum pool) (hsame : pool'.threadNum = pool.threadNum ∧
    pool'.running = pool.running ∧ pool'.threads = pool.threads) : Whole threadNum pool' := by
  obtain ⟨hnum, hrunning, hthreads⟩ := hsame
  constructor
  · rw [hnum, h.num]
  · rw [hrunning, hthreads]
    exact h.idle
  · rw [hrunning, hthreads]
    exact h.busy

theorem Whole.start (h : Whole threadNum pool) (hidle : pool.running = false) :
    ∃ pool', pool.start = some pool' ∧ pool'.workers = pool.threadNum.toNat ∧
      Whole threadNum pool' := by
  refine ⟨_, start_of_nil hidle (h.idle hidle), List.countP_replicate, h.num, nofun, ?_⟩
  intro _
  rw [h.num]

theorem Whole.stop (h : Whole threadNum pool) (hbusy : pool.running = true) :
    ∃ pool', pool.stop = some pool' ∧ Stopped threadNum pool' :=
  ⟨_, join_of_started (h.busy hbusy), h.num, rfl, rfl⟩

theorem Stopped.whole (h : Stopped threadNum pool) (hnum : threadNum ≤ 0) :
    Whole threadNum pool where
  num := h.num
  idle _ := by rw [h.threads, Int.toNat_of_nonpos hnum, List.replicate_zero]
  busy hbusy := by
    rw [h.running] at hbusy
    cases hbusy

theorem Stopped.of_same (h : Stopped threadNum pool) (hsame : pool'.threadNum = pool.threadNum ∧
    pool'.running = pool.running ∧ pool'.threads = pool.threads) : Stopped threadNum pool' where
  num := by rw [hsame.1, h.num]
  running := by rw [hsame.2.1, h.running]
  threads := by rw [hsame.2.2, h.threads]

theorem Whole.serves (h : Whole threadNum pool) {c : Call φ} (hc : pool.Respects c) :
    pool.Serves c := by
  cases c with
  | start =>
    obtain ⟨pool', hstart, hworkers, -⟩ := h.start hc
    exact ⟨pool', hstart, hworkers⟩
  | stop =>
    obtain ⟨pool', hstop, -⟩ := h.stop hc
    rw [Serves, hstop]
    rfl
  | run task =>
    intro hidle
    rw [run, h.idle hidle]
    rfl
  | take => trivial

/-- Of the calls, a stopped pool with threads serves only those of the workers. -/
theorem Stopped.serves_iff (h : Stopped threadNum pool) (hnum : 0 < threadNum) {c : Call φ}
    (hc : pool.Respects c) : pool.Serves c ↔ c.isUse = false := by
  obtain ⟨n, hn⟩ : ∃ n, threadNum.toNat = n + 1 := Nat.exists_eq_succ_of_ne_zero (by omega)
  have hthreads : pool.threads = none :: List.replicate n none := by
    rw [h.threads, hn, List.replicate_succ]
  cases c with
  | start =>
    refine iff_of_false ?_ nofun
    rintro ⟨pool', hpool', -⟩
    rw [start_of_released hthreads] at hpool'
    cases hpool'
  | stop =>
    rw [Respects, h.running] at hc
    cases hc
  | run task =>
    refine iff_of_false ?_ nofun
    intro hserves
    have hrun := hserves h.running
    rw [run, hthreads] at hrun
    cases hrun
  | take => exact iff_of_true trivial rfl

theorem along_stopped (hnum : 0 < threadNum) (h : Stopped threadNum pool) {calls : List (Call φ)}
    (hcalls : Along step Respects pool calls) :
    Along step Serves pool calls ↔ ∀ c ∈ calls, c.isUse = false := by
  induction calls generalizing pool with
  | nil => exact iff_of_true trivial (List.forall_mem_nil _)
  | cons c calls ih =>
    rw [Along, List.forall_mem_cons, h.serves_iff hnum hcalls.1]
    apply and_congr_right
    intro huse
    cases c with
    | start => cases huse
    | stop =>
      have hc := hcalls.1
      rw [Respects, h.running] at hc
      cases hc
    | run task => cases huse
    | take =>
      have hrest := ih (h.of_same pool.take_same) (hcalls.2 _ rfl)
      constructor
      · intro halong
        exact hrest.mp (halong _ rfl)
      · rintro huses pool' ⟨⟩
        exact hrest.mpr huses

theorem along_whole (hnum : 0 < threadNum) (h : Whole threadNum pool) {calls : List (Call φ)}
    (hcalls : Along step Respects pool calls) :
    Along step Serves pool calls ↔ StopsLast calls := by
  induction calls generalizing pool with
  | nil => exact Iff.rfl
  | cons c calls ih =>
    -- the call is served, so it is about the calls after it
    have htail : ∀ {pool' : ThreadPool φ} {Q : Prop}, pool.step c = some pool' →
        (Along step Serves pool' calls ↔ Q) → (Along step Serves pool (c :: calls) ↔ Q) := by
      intro pool' Q hstep hQ
      rw [← hQ]
      constructor
      · intro halong
        exact halong.2 pool' hstep
      · exact along_cons (h.serves hcalls.1) hstep
    cases c with
    | start =>
      obtain ⟨pool', hstart, -, hwhole⟩ := h.start hcalls.1
      exact htail hstart (ih hwhole (hcalls.2 pool' hstart))
    | stop =>
      obtain ⟨pool', hstop, hstopped⟩ := h.stop hcalls.1
      exact htail hstop (along_stopped hnum hstopped (hcalls.2 pool' hstop))
    | run task => exact htail rfl (ih (h.of_same (pool.run_same task)) (hcalls.2 _ rfl))
    | take => exact htail rfl (ih (h.of_same pool.take_same) (hcalls.2 _ rfl))

theorem Whole.step_of_nonpos (hnum : threadNum ≤ 0) (h : Whole threadNum pool) {c : Call φ}
    (hc : pool.Respects c) (hstep : pool.step c = some pool') : Whole threadNum pool' := by
  cases c with
  | start =>
    obtain ⟨pool'', hstart, -, hwhole⟩ := h.start hc
    cases hstep.symm.trans hstart
    exact hwhole
  | stop =>
    obtain ⟨pool'', hstop, hstopped⟩ := h.stop hc
    cases hstep.symm.trans hstop
    exact hstopped.whole hnum
  | run task =>
    cases hstep
    exact h.of_same (pool.run_same task)
  | take =>
    cases hstep
    exact h.of_same pool.take_same

/-- Every `start` starts the threads, and every `run` on a pool that is not running executes its
task itself, exactly if the pool has no threads or nothing is called after `stop`. -/
theorem serves_iff_stops_last (threadNum : ℤ) {calls : List (Call φ)}
    (hcalls : Along step Respects (new threadNum) calls) :
    Along step Serves (new threadNum) calls ↔ threadNum ≤ 0 ∨ StopsLast calls := by
  by_cases hnum : threadNum ≤ 0
  · refine iff_of_true ?_ (.inl hnum)
    exact along_of_invariant (I := Whole threadNum) (fun _ _ h hc => h.serves hc)
      (fun _ _ _ h hc hstep => h.step_of_nonpos hnum hc hstep) (whole_new threadNum) hcalls
  · rw [along_whole (Int.not_le.mp hnum) (whole_new threadNum) hcalls]
    exact (or_iff_right hnum).symm

/-- A pool as in a program that starts it once. -/
theorem startedOnce_serves :
    Along step Serves (new 2 : ThreadPool ℕ) [.run 1, .start, .run 2, .run 3, .take, .stop] ↔
      (2 : ℤ) ≤ 0 ∨ StopsLast ([.run 1, .start, .run 2, .run 3, .take, .stop] : List (Call ℕ)) :=
  serves_iff_stops_last 2 (by decide)

/-- After `stop`, `start` uses a released thread, and `run` puts its task into the queue. -/
theorem stopped_not_serves :
    (Along step Respects (new 1 : ThreadPool ℕ) [.start, .stop, .start] ∧
      ¬Along step Serves (new 1 : ThreadPool ℕ) [.start, .stop, .start]) ∧
    (Along step Respects (new 1 : ThreadPool ℕ) [.start, .stop, .run 7] ∧
      ¬Along step Serves (new 1 : ThreadPool ℕ) [.start, .stop, .run 7]) := by
  decide

end ThreadPool

end Matelib
