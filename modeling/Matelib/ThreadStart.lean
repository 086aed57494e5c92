import Mathlib.Data.Fintype.Basic
import Matelib.CountDownLatch
import Matelib.EventLoopThread

/-!
# The start of a thread with an event loop

`EventLoopThread::start` meets the new thread twice. `Thread::start` creates it and waits on
`latch_`, which `runInThread` counts down when the thread has its number and its name. Then the
owner waits on `cond_` until `threadFunc` has stored `loop_`. Both meetings are monitors, and here
the two threads take the steps of the monitors one by one. In `EventLoopThread` the store and the
return of `start` are one step each. The main results say that this is what the steps come to, and
that `start` returns.
-/

namespace Matelib.ThreadStart

open Transition Monitor

inductive Side where
  | owner
  | thread
  deriving DecidableEq

instance : Fintype Side := ⟨{.owner, .thread}, fun side => by cases side <;> simp⟩

/-- Where the owner is in `start`: before it, behind `pthread_create`, in `latch_.wait()`, behind
`thread_.start()`, in the block that waits for `loop_`, or behind it. -/
inductive StarterPc where
  | before
  | created
  | latching
  | latched
  | waiting
  | returned
  deriving DecidableEq

/-- Where the thread is: in `runInThread` up to `latch_.countDown()`, and behind it in `threadFunc`
outside of its critical section, in it, or behind it. -/
inductive RunnerPc where
  | absent
  | entering
  | named
  | counting
  | inFunc
  | publishing
  | looping
  deriving DecidableEq

/-- `loop_` behind `mutex_`, whether it is not null. `cond_.notify()` wakes one thread. -/
def loopSet : Monitor Bool Unit where
  ready loop := loop
  update _ _ := true
  wakes _ _ := .one

/-- `thread` is what the atomic model has: the object and the loop on the stack of the thread. -/
structure State (τ φ : Type*) where
  thread : EventLoopThread.State τ φ
  tid : ℕ
  name : String
  latch : Monitor.State ℤ Unit Side
  cond : Monitor.State Bool Unit Side
  starter : StarterPc
  runner : RunnerPc

inductive Event (τ φ : Type*) where
  -- `pthread_create`, and the first part of `runInThread`
  | create
  | enter (tid : ℕ)
  | latch (e : Monitor.Event Unit Side)
  | cond (e : Monitor.Event Unit Side)
  -- everything else
  | thread (e : EventLoopThread.Event τ φ)

variable {τ φ : Type*}

def State.init (initCallBack : Bool) (name : String) : State τ φ :=
  ⟨.init initCallBack, 0, name, .init 1, .init false, .before, .absent⟩

/-- A call on `latch_` is made where the code has it, and behind it the code goes on. -/
def enterLatch (s : State τ φ) : Monitor.Event Unit Side → Option (State τ φ)
  | .await .owner => if s.starter = .created then some { s with starter := .latching } else none
  | .call .thread _ => if s.runner = .named then some { s with runner := .counting } else none
  | .await .thread | .call .owner _ => none
  | .unlock .owner => some { s with starter := .latched }
  | .unlock .thread => some { s with runner := .inFunc }
  | _ => some s

/-- The same for the two blocks under `mutex_`. -/
def enterCond (s : State τ φ) : Monitor.Event Unit Side → Option (State τ φ)
  | .await .owner => if s.starter = .latched then some { s with starter := .waiting } else none
  | .call .thread _ =>
    if s.runner = .inFunc ∧ s.thread.func = .publishing then
      some { s with runner := .publishing }
    else none
  | .await .thread | .call .owner _ => none
  | .update _ => some { s with thread := { s.thread with published := true, func := .looping } }
  | .unlock .owner =>
    some { s with starter := .returned, thread := { s.thread with owner := .started } }
  | .unlock .thread => some { s with runner := .looping }
  | _ => some s

/-- Where the thread that takes a step of the atomic model can take it. -/
def mayStep (s : State τ φ) : EventLoopThread.Event τ φ → Bool
  | .threadStart | .publish | .startReturns => false
  | .constructLoop | .initQuits | .initQueues _ | .initReturns => s.runner = .inFunc
  | .loop (.foreignQueue ..) | .loop (.foreignQuit _) | .loop (.foreignWakes _) => true
  | .loop _ | .threadReturns => s.runner = .looping
  | .destroy | .destructorQuits | .destructorTests | .destructorWakes | .join => true

def step [DecidableEq τ] (s : State τ φ) : Event τ φ → Option (State τ φ)
  | .create =>
    if s.starter = .before then
      some { s with
        thread := { s.thread with owner := .starting, func := .constructing },
        starter := .created, runner := .entering }
    else none
  | .enter tid =>
    -- `cachedId` asserts that the number has five digits at most
    if s.runner = .entering ∧ 0 < tid ∧ tid < 100000 then
      some { s with
        tid := tid, name := if s.name = "" then "thread" ++ toString tid else s.name,
        runner := .named }
    else none
  | .latch e =>
    (enterLatch s e).bind fun s =>
      (Monitor.step CountDownLatch.latch s.latch e).map fun latch => { s with latch := latch }
  | .cond e =>
    (enterCond s e).bind fun s =>
      (Monitor.step loopSet s.cond e).map fun cond => { s with cond := cond }
  | .thread e =>
    if mayStep s e then
      (EventLoopThread.step s.thread e).map fun thread => { s with thread := thread }
    else none

/-- The step of the atomic model that a step stands for, if any. -/
def Event.emit : Event τ φ → List (EventLoopThread.Event τ φ)
  | .create => [.threadStart]
  | .cond (.update _) => [.publish]
  | .cond (.unlock .owner) => [.startReturns]
  | .thread e => [e]
  | _ => []

theorem loopSet_signals : Signals loopSet {Side.owner} where
  stable _ _ _ := rfl
  wakes _ _ _ _ := .inr ⟨rfl, Set.subsingleton_singleton⟩

/-- `latch_` has still to be counted down by a call that the thread has not made. -/
def RunnerPc.owes : RunnerPc → Bool
  | .absent | .entering | .named => true
  | _ => false

/-- The calls on the monitors are made where the places say. -/
structure Placed (latch : Monitor.State ℤ Unit Side) (cond : Monitor.State Bool Unit Side)
    (starter : StarterPc) (runner : RunnerPc) : Prop where
  latchOwner : (latch.pc .owner).kind = if starter = .latching then .awaiting else .outside
  latchThread : (latch.pc .thread).kind = if runner = .counting then .updating else .outside
  condOwner : (cond.pc .owner).kind = if starter = .waiting then .awaiting else .outside
  condThread : (cond.pc .thread).kind = if runner = .publishing then .updating else .outside

/-- The place of the owner in the atomic model. -/
def OwnerAgrees (starter : StarterPc) (owner : EventLoopThread.OwnerPc) : Prop :=
  match starter with
  | .before => owner = .constructed
  | .returned => owner ≠ .constructed ∧ owner ≠ .starting
  | _ => owner = .starting

/-- The place of the thread in the atomic model, which is behind the store of `loop_` as soon as
the store is made. -/
def FuncAgrees (runner : RunnerPc) (due : ℕ) (func : EventLoopThread.FuncPc) : Prop :=
  match runner with
  | .absent => func = .unstarted
  | .entering | .named | .counting => func = .constructing
  | .inFunc => func = .constructing ∨ func = .initializing ∨ func = .publishing
  | .publishing => func = if due = 0 then .looping else .publishing
  | .looping => func = .looping ∨ func = .returned

structure Kept (s : State τ φ) : Prop where
  latch : Monitor.Kept CountDownLatch.latch Set.univ s.latch
  cond : Monitor.Kept loopSet {Side.owner} s.cond
  thread : EventLoopThread.Intact s.thread
  placed : Placed s.latch s.cond s.starter s.runner
  owner : OwnerAgrees s.starter s.thread.owner
  func : FuncAgrees s.runner s.cond.due s.thread.func
  -- the thread exists from `pthread_create` on
  begun : s.runner = .absent ↔ s.starter = .before
  counted : s.latch.data = (s.runner.owes.toNat + s.latch.due : ℕ)
  loop : s.cond.data = s.thread.published
  identified : s.runner = .absent ∨ s.runner = .entering ∨ 0 < s.tid ∧ s.name ≠ ""
  latched : s.starter = .latched ∨ s.starter = .waiting ∨ s.starter = .returned →
    s.latch.data ≤ 0
  returned : s.starter = .returned → s.thread.published = true

theorem kept_init (initCallBack : Bool) (name : String) :
    Kept (State.init initCallBack name : State τ φ) where
  latch := Monitor.kept_init 1
  cond := Monitor.kept_init false
  thread := EventLoopThread.intact_init initCallBack
  placed := ⟨rfl, rfl, rfl, rfl⟩
  owner := rfl
  func := rfl
  begun := iff_of_true rfl rfl
  counted := rfl
  loop := rfl
  identified := Or.inl rfl
  latched h := by simp [State.init] at h
  returned h := by cases h

theorem isCall_of_inner {e : Monitor.Event Unit Side} (he : e.enters = none) :
    e.isCall = false := by
  cases e with
  | call t u => cases he
  | _ => rfl

theorem kind_of_inner {e : Monitor.Event Unit Side} (he : e.enters = none) (side : Side)
    (kind : Kind) : e.kind side kind = kind := by
  rw [Monitor.Event.kind, he]

theorem Kept.create [DecidableEq τ] {s : State τ φ} (h : Kept s) (hstarter : s.starter = .before) :
    EventLoopThread.step s.thread .threadStart =
        some { s.thread with owner := .starting, func := .constructing } ∧
      Kept { s with
        thread := { s.thread with owner := .starting, func := .constructing },
        starter := .created, runner := .entering } := by
  have howner := h.owner
  rw [hstarter] at howner
  have hrunner := h.begun.mpr hstarter
  have hstart : EventLoopThread.step s.thread .threadStart =
      some { s.thread with owner := .starting, func := .constructing } := if_pos howner
  have hplaced := h.placed
  have hcounted := h.counted
  rw [hrunner, hstarter] at hplaced
  rw [hrunner] at hcounted
  exact ⟨hstart, { h with
    thread := EventLoopThread.step_intact h.thread hstart
    placed := ⟨hplaced.latchOwner, hplaced.latchThread, hplaced.condOwner, hplaced.condThread⟩
    owner := rfl
    func := rfl
    begun := iff_of_false nofun nofun
    counted := hcounted
    identified := .inr (.inl rfl)
    latched := by rintro (h | h | h) <;> cases h
    returned := nofun }⟩

theorem Kept.enter {s : State τ φ} {tid : ℕ} (h : Kept s) (hrunner : s.runner = .entering)
    (htid : 0 < tid) :
    Kept { s with
      tid := tid, name := if s.name = "" then "thread" ++ toString tid else s.name,
      runner := .named } := by
  have hplaced := h.placed
  have hcounted := h.counted
  have hfunc := h.func
  have hbegun := h.begun
  rw [hrunner] at hplaced hcounted hfunc hbegun
  exact { h with
    placed := ⟨hplaced.latchOwner, hplaced.latchThread, hplaced.condOwner, hplaced.condThread⟩
    func := hfunc
    begun := (iff_of_false nofun nofun).trans hbegun
    counted := hcounted
    identified := by
      refine .inr (.inr ⟨htid, ?_⟩)
      simp only
      split_ifs with hname
      · intro hempty
        exact absurd (String.append_eq_empty_iff.mp hempty).1 (by decide)
      · exact hname }

theorem Kept.latchInner {s : State τ φ} {e : Monitor.Event Unit Side}
    {latch : Monitor.State ℤ Unit Side} (h : Kept s) (he : e.enters = none)
    (hstep : Monitor.step CountDownLatch.latch s.latch e = some latch) :
    Kept { s with latch := latch } := by
  have hdata := CountDownLatch.step_data hstep
  have hdue := step_due hstep
  have hcounted := h.counted
  rw [isCall_of_inner he] at hdue
  have hkind (side : Side) : (latch.pc side).kind = (s.latch.pc side).kind :=
    (step_kind hstep side).trans (kind_of_inner he ..)
  exact { h with
    latch := step_kept CountDownLatch.latch_signals h.latch (awaitedBy_univ e) hstep
    placed := ⟨(hkind .owner).trans h.placed.latchOwner, (hkind .thread).trans h.placed.latchThread,
      h.placed.condOwner, h.placed.condThread⟩
    counted := by
      simp only [Bool.false_eq_true, if_false] at hdue
      simp only
      split_ifs at hdata hdue <;> omega
    latched := by
      intro hstarter
      have hopen := h.latched hstarter
      simp only
      split_ifs at hdata <;> omega }

theorem Kept.latchAwait {s : State τ φ} {latch : Monitor.State ℤ Unit Side} (h : Kept s)
    (hstarter : s.starter = .created)
    (hstep : Monitor.step CountDownLatch.latch s.latch (.await .owner) = some latch) :
    Kept { s with starter := .latching, latch := latch } := by
  have hdata : latch.data + 0 = s.latch.data := CountDownLatch.step_data hstep
  have hdue : latch.due + 0 = s.latch.due + 0 := step_due hstep
  have hcounted := h.counted
  have howner := h.owner
  have hbegun := h.begun
  have hcond := h.placed.condOwner
  rw [hstarter] at howner hbegun hcond
  exact { h with
    latch := step_kept CountDownLatch.latch_signals h.latch (awaitedBy_univ _) hstep
    placed := ⟨step_kind hstep .owner, (step_kind hstep .thread).trans h.placed.latchThread,
      hcond, h.placed.condThread⟩
    owner := howner
    begun := hbegun.trans (iff_of_false nofun nofun)
    counted := by simp only; omega
    latched := by rintro (h | h | h) <;> cases h
    returned := nofun }

theorem Kept.latchCall {s : State τ φ} {latch : Monitor.State ℤ Unit Side} {u : Unit} (h : Kept s)
    (hrunner : s.runner = .named)
    (hstep : Monitor.step CountDownLatch.latch s.latch (.call .thread u) = some latch) :
    Kept { s with runner := .counting, latch := latch } := by
  have hdata : latch.data + 0 = s.latch.data := CountDownLatch.step_data hstep
  have hdue : latch.due + 0 = s.latch.due + 1 := step_due hstep
  have hcounted := h.counted
  have hbegun := h.begun
  have hidentified := h.identified
  have hfunc := h.func
  have hcond := h.placed.condThread
  rw [hrunner] at hcounted hbegun hidentified hfunc hcond
  exact { h with
    latch := step_kept CountDownLatch.latch_signals h.latch (awaitedBy_univ _) hstep
    placed := ⟨(step_kind hstep .owner).trans h.placed.latchOwner, step_kind hstep .thread,
      h.placed.condOwner, hcond⟩
    func := hfunc
    begun := (iff_of_false nofun nofun).trans hbegun
    counted := by
      simp only [RunnerPc.owes, Bool.toNat_true, Bool.toNat_false] at hcounted ⊢
      omega
    identified := by simpa using hidentified
    latched := by
      intro hstarter
      have hopen := h.latched hstarter
      simp only
      omega }

theorem place_of_kind {p : Prop} [Decidable p] {kind call : Kind}
    (hplaced : kind = if p then call else .outside) (hkind : kind ≠ .outside) :
    p ∧ kind = call := by
  split_ifs at hplaced with hp
  · exact ⟨hp, hplaced⟩
  · exact absurd hplaced hkind

theorem Kept.latchReturns {s : State τ φ} {latch : Monitor.State ℤ Unit Side} (h : Kept s)
    (hstep : Monitor.step CountDownLatch.latch s.latch (.unlock .owner) = some latch) :
    Kept { s with starter := .latched, latch := latch } := by
  have hdata : latch.data + 0 = s.latch.data := CountDownLatch.step_data hstep
  have hdue : latch.due + 0 = s.latch.due + 0 := step_due hstep
  have hcounted := h.counted
  obtain ⟨hstarter, hkind⟩ := place_of_kind h.placed.latchOwner (kind_of_unlock hstep)
  have hopen : ¬ s.latch.data > 0 :=
    of_decide_eq_true (h.latch.passed .owner (passed_of_unlock hstep hkind))
  have howner := h.owner
  have hbegun := h.begun
  have hcond := h.placed.condOwner
  rw [hstarter] at howner hbegun hcond
  exact { h with
    latch := step_kept CountDownLatch.latch_signals h.latch (awaitedBy_univ _) hstep
    placed := ⟨step_kind hstep .owner, (step_kind hstep .thread).trans h.placed.latchThread,
      hcond, h.placed.condThread⟩
    owner := howner
    begun := hbegun.trans (iff_of_false nofun nofun)
    counted := by simp only; omega
    latched := by
      intro _
      simp only
      omega
    returned := nofun }

theorem Kept.latchCounted {s : State τ φ} {latch : Monitor.State ℤ Unit Side} (h : Kept s)
    (hstep : Monitor.step CountDownLatch.latch s.latch (.unlock .thread) = some latch) :
    Kept { s with runner := .inFunc, latch := latch } := by
  have hdata : latch.data + 0 = s.latch.data := CountDownLatch.step_data hstep
  have hdue : latch.due + 0 = s.latch.due + 0 := step_due hstep
  obtain ⟨hrunner, -⟩ := place_of_kind h.placed.latchThread (kind_of_unlock hstep)
  have hcounted := h.counted
  have hbegun := h.begun
  have hidentified := h.identified
  have hfunc := h.func
  have hcond := h.placed.condThread
  rw [hrunner] at hcounted hbegun hidentified hfunc hcond
  exact { h with
    latch := step_kept CountDownLatch.latch_signals h.latch (awaitedBy_univ _) hstep
    placed := ⟨(step_kind hstep .owner).trans h.placed.latchOwner, step_kind hstep .thread,
      h.placed.condOwner, hcond⟩
    func := .inl hfunc
    begun := (iff_of_false nofun nofun).trans hbegun
    counted := by
      simp only [RunnerPc.owes] at hcounted ⊢
      omega
    identified := by simpa using hidentified
    latched := by
      intro hstarter
      have hopen := h.latched hstarter
      simp only
      omega }

theorem due_side {σ : Type*} (s : Monitor.State σ Unit Side) :
    s.due = (s.pc .owner).due + (s.pc .thread).due :=
  Finset.sum_pair (f := fun side => (s.pc side).due) (nofun : Side.owner ≠ .thread)

theorem Kept.due_eq {s : State τ φ} (h : Kept s) : s.cond.due = (s.cond.pc .thread).due := by
  rw [due_side, due_of_kind, Nat.zero_add]
  rw [h.placed.condOwner]
  split_ifs <;> nofun

theorem Kept.condKept {s : State τ φ} {e : Monitor.Event Unit Side}
    {cond : Monitor.State Bool Unit Side} (h : Kept s)
    (hstep : Monitor.step loopSet s.cond e = some cond) (he : e ≠ .await .thread) :
    Monitor.Kept loopSet {Side.owner} cond := by
  refine step_kept loopSet_signals h.cond ?_ hstep
  cases e with
  | await side =>
    cases side with
    | owner => rfl
    | thread => exact absurd rfl he
  | _ => trivial

theorem Kept.condInner {s : State τ φ} {e : Monitor.Event Unit Side}
    {cond : Monitor.State Bool Unit Side} (h : Kept s) (he : e.enters = none)
    (hupdate : e.isUpdate = false) (hstep : Monitor.step loopSet s.cond e = some cond) :
    Kept { s with cond := cond } := by
  have hdue := step_due hstep
  rw [isCall_of_inner he, hupdate] at hdue
  have hkind (side : Side) : (cond.pc side).kind = (s.cond.pc side).kind :=
    (step_kind hstep side).trans (kind_of_inner he ..)
  have hawait : e ≠ .await .thread := by
    rintro rfl
    cases he
  exact { h with
    cond := h.condKept hstep hawait
    placed := ⟨h.placed.latchOwner, h.placed.latchThread, (hkind .owner).trans h.placed.condOwner,
      (hkind .thread).trans h.placed.condThread⟩
    func := by
      have hfunc := h.func
      rwa [← show cond.due = s.cond.due from hdue] at hfunc
    loop := (data_of_step hupdate hstep).trans h.loop }

theorem Kept.condAwait {s : State τ φ} {cond : Monitor.State Bool Unit Side} (h : Kept s)
    (hstarter : s.starter = .latched)
    (hstep : Monitor.step loopSet s.cond (.await .owner) = some cond) :
    Kept { s with starter := .waiting, cond := cond } := by
  have hdue : cond.due + 0 = s.cond.due + 0 := step_due hstep
  have howner := h.owner
  have hbegun := h.begun
  have hlatch := h.placed.latchOwner
  rw [hstarter] at howner hbegun hlatch
  exact { h with
    cond := h.condKept hstep nofun
    placed := ⟨hlatch, h.placed.latchThread, step_kind hstep .owner,
      (step_kind hstep .thread).trans h.placed.condThread⟩
    owner := howner
    func := by
      have hfunc := h.func
      rwa [← show cond.due = s.cond.due from hdue] at hfunc
    begun := hbegun.trans (iff_of_false nofun nofun)
    loop := (data_of_step rfl hstep).trans h.loop
    latched := fun _ => h.latched (.inl hstarter)
    returned := nofun }

theorem Kept.condCall {s : State τ φ} {cond : Monitor.State Bool Unit Side} {u : Unit} (h : Kept s)
    (hrunner : s.runner = .inFunc) (hpublishing : s.thread.func = .publishing)
    (hstep : Monitor.step loopSet s.cond (.call .thread u) = some cond) :
    Kept { s with runner := .publishing, cond := cond } := by
  have hdue : cond.due + 0 = s.cond.due + 1 := step_due hstep
  have hcounted := h.counted
  have hbegun := h.begun
  have hidentified := h.identified
  have hlatch := h.placed.latchThread
  rw [hrunner] at hcounted hbegun hidentified hlatch
  exact { h with
    cond := h.condKept hstep nofun
    placed := ⟨h.placed.latchOwner, hlatch, (step_kind hstep .owner).trans h.placed.condOwner,
      step_kind hstep .thread⟩
    func := hpublishing.trans (if_neg (by simp only; omega)).symm
    begun := (iff_of_false nofun nofun).trans hbegun
    counted := hcounted
    loop := (data_of_step rfl hstep).trans h.loop
    identified := by simpa using hidentified }

theorem Kept.condPublished {s : State τ φ} {cond : Monitor.State Bool Unit Side} (h : Kept s)
    (hstep : Monitor.step loopSet s.cond (.unlock .thread) = some cond) :
    Kept { s with runner := .looping, cond := cond } := by
  obtain ⟨hrunner, hkind⟩ := place_of_kind h.placed.condThread (kind_of_unlock hstep)
  have hdue : cond.due + 0 = s.cond.due + 0 := step_due hstep
  have hcounted := h.counted
  have hbegun := h.begun
  have hidentified := h.identified
  have hlatch := h.placed.latchThread
  have hfunc := h.func
  have hzero : s.cond.due = 0 := by
    rw [h.due_eq, leaving_of_unlock hstep hkind]
    rfl
  rw [hrunner] at hcounted hbegun hidentified hlatch hfunc
  rw [hzero] at hfunc
  exact { h with
    cond := h.condKept hstep nofun
    placed := ⟨h.placed.latchOwner, hlatch, (step_kind hstep .owner).trans h.placed.condOwner,
      step_kind hstep .thread⟩
    func := .inl hfunc
    begun := (iff_of_false nofun nofun).trans hbegun
    counted := hcounted
    loop := (data_of_step rfl hstep).trans h.loop
    identified := by simpa using hidentified }

section Atomic

variable [DecidableEq τ]

theorem Kept.store_publishes {s : State τ φ} {side : Side} {cond : Monitor.State Bool Unit Side}
    (h : Kept s) (hstep : Monitor.step loopSet s.cond (.update side) = some cond) :
    s.runner = .publishing ∧ s.cond.due = 1 ∧
      EventLoopThread.step s.thread .publish =
        some { s.thread with published := true, func := .looping } := by
  obtain ⟨u, hpc⟩ := updating_of_update hstep
  have hkind : (s.cond.pc side).kind = .updating := by rw [hpc]; rfl
  have hside : side = .thread := by
    cases side with
    | thread => rfl
    | owner =>
      rw [h.placed.condOwner] at hkind
      split_ifs at hkind
  subst hside
  obtain ⟨hrunner, -⟩ := place_of_kind h.placed.condThread (by rw [hkind]; nofun)
  have hdue : s.cond.due = 1 := by
    rw [h.due_eq, hpc]
    rfl
  have hfunc := h.func
  rw [hrunner, hdue] at hfunc
  exact ⟨hrunner, hdue, if_pos hfunc⟩

theorem Kept.condStore {s : State τ φ} {side : Side} {cond : Monitor.State Bool Unit Side}
    (h : Kept s) (hstep : Monitor.step loopSet s.cond (.update side) = some cond) :
    Kept { s with
      thread := { s.thread with published := true, func := .looping }, cond := cond } := by
  obtain ⟨hrunner, hone, hpublish⟩ := h.store_publishes hstep
  have hdue : cond.due + 1 = s.cond.due + 0 := step_due hstep
  have hkind (t : Side) : (cond.pc t).kind = (s.cond.pc t).kind :=
    (step_kind hstep t).trans (kind_of_inner rfl ..)
  exact { h with
    cond := h.condKept hstep nofun
    thread := EventLoopThread.step_intact h.thread hpublish
    placed := ⟨h.placed.latchOwner, h.placed.latchThread, (hkind .owner).trans h.placed.condOwner,
      (hkind .thread).trans h.placed.condThread⟩
    func := by
      simp only [hrunner]
      exact (if_pos (by omega)).symm
    loop := by
      cases step_move hstep with
      | update hpc => rfl
    returned := fun _ => rfl }

theorem Kept.start_returns {s : State τ φ} {cond : Monitor.State Bool Unit Side} (h : Kept s)
    (hstep : Monitor.step loopSet s.cond (.unlock .owner) = some cond) :
    s.starter = .waiting ∧ s.thread.published = true ∧
      EventLoopThread.step s.thread .startReturns = some { s.thread with owner := .started } := by
  obtain ⟨hstarter, hkind⟩ := place_of_kind h.placed.condOwner (kind_of_unlock hstep)
  have hset : s.cond.data = true := h.cond.passed .owner (passed_of_unlock hstep hkind)
  have hpublished : s.thread.published = true := h.loop.symm.trans hset
  have howner := h.owner
  rw [hstarter] at howner
  exact ⟨hstarter, hpublished, if_pos ⟨howner, hpublished⟩⟩

theorem Kept.condReturns {s : State τ φ} {cond : Monitor.State Bool Unit Side} (h : Kept s)
    (hstep : Monitor.step loopSet s.cond (.unlock .owner) = some cond) :
    Kept { s with starter := .returned, thread := { s.thread with owner := .started },
                  cond := cond } := by
  obtain ⟨hstarter, hpublished, hreturns⟩ := h.start_returns hstep
  have hdue : cond.due + 0 = s.cond.due + 0 := step_due hstep
  have hbegun := h.begun
  have hlatch := h.placed.latchOwner
  rw [hstarter] at hbegun hlatch
  exact { h with
    cond := h.condKept hstep nofun
    thread := EventLoopThread.step_intact h.thread hreturns
    placed := ⟨hlatch, h.placed.latchThread, step_kind hstep .owner,
      (step_kind hstep .thread).trans h.placed.condThread⟩
    owner := ⟨nofun, nofun⟩
    func := by
      have hfunc := h.func
      rwa [← show cond.due = s.cond.due from hdue] at hfunc
    begun := hbegun.trans (iff_of_false nofun nofun)
    loop := (data_of_step rfl hstep).trans h.loop
    latched := fun _ => h.latched (.inr (.inl hstarter))
    returned := fun _ => hpublished }

theorem Kept.threadStep {s : State τ φ} {e : EventLoopThread.Event τ φ}
    {thread : EventLoopThread.State τ φ} (h : Kept s) (hmay : mayStep s e = true)
    (hstep : EventLoopThread.step s.thread e = some thread) : Kept { s with thread := thread } := by
  have hintact := EventLoopThread.step_intact h.thread hstep
  have hback {owner : EventLoopThread.OwnerPc} (hold : s.thread.owner = owner)
      (howner : owner ≠ .constructed ∧ owner ≠ .starting) : s.starter = .returned := by
    have hagrees := h.owner
    cases hstarter : s.starter <;> rw [hold, hstarter] at hagrees
    case before => exact absurd hagrees howner.1
    all_goals exact absurd hagrees howner.2
  have hgone {t : EventLoopThread.State τ φ} (hstarter : s.starter = .returned)
      (howner : t.owner ≠ .constructed ∧ t.owner ≠ .starting) :
      OwnerAgrees s.starter t.owner := by
    rw [hstarter]
    exact howner
  cases EventLoopThread.step_move hstep with
  | threadStart howner => cases hmay
  | publish hfunc => cases hmay
  | startReturns howner hpublished => cases hmay
  | constructLoop hfunc hnext =>
    have hrunner : s.runner = .inFunc := of_decide_eq_true hmay
    refine { h with thread := hintact, func := ?_ }
    simp only [hrunner]
    exact .inr hnext
  | initReturns hfunc =>
    have hrunner : s.runner = .inFunc := of_decide_eq_true hmay
    refine { h with thread := hintact, func := ?_ }
    simp only [hrunner]
    exact .inr (.inr rfl)
  | threadReturns hfunc hleft =>
    have hrunner : s.runner = .looping := of_decide_eq_true hmay
    refine { h with thread := hintact, func := ?_ }
    simp only [hrunner]
    exact .inr rfl
  | initCall hcall hsame => exact { h with thread := hintact }
  | loop hloop hstep => exact { h with thread := hintact }
  | destroy howner =>
    exact { h with thread := hintact, owner := hgone (hback howner ⟨nofun, nofun⟩) ⟨nofun, nofun⟩ }
  | destructorQuits howner hsame =>
    exact { h with thread := hintact, owner := hgone (hback howner ⟨nofun, nofun⟩) ⟨nofun, nofun⟩ }
  | destructorTests howner =>
    exact { h with thread := hintact, owner := hgone (hback howner ⟨nofun, nofun⟩) ⟨nofun, nofun⟩ }
  | destructorWakes howner hsame =>
    exact { h with thread := hintact, owner := hgone (hback howner ⟨nofun, nofun⟩) ⟨nofun, nofun⟩ }
  | join howner =>
    exact { h with thread := hintact, owner := hgone (hback howner ⟨nofun, nofun⟩) ⟨nofun, nofun⟩ }

/-- Every step keeps the invariant and is no step, or one, of the atomic model. -/
theorem step_simulates {s t : State τ φ} {e : Event τ φ} (h : Kept s) (hstep : step s e = some t) :
    Kept t ∧ runFrom EventLoopThread.step s.thread e.emit = some t.thread := by
  cases e with
  | create =>
    obtain ⟨hstarter, rfl⟩ := of_guard hstep
    obtain ⟨hstart, hkept⟩ := h.create hstarter
    exact ⟨hkept, (runFrom_cons ..).mpr ⟨_, hstart, rfl⟩⟩
  | enter tid =>
    obtain ⟨⟨hrunner, htid, -⟩, rfl⟩ := of_guard hstep
    exact ⟨h.enter hrunner htid, rfl⟩
  | thread e =>
    obtain ⟨hmay, hmap⟩ := Option.ite_none_right_eq_some.mp hstep
    obtain ⟨thread, hthread, rfl⟩ := Option.map_eq_some_iff.mp hmap
    exact ⟨h.threadStep hmay hthread, (runFrom_cons ..).mpr ⟨thread, hthread, rfl⟩⟩
  | latch e =>
    obtain ⟨s₁, henter, hmap⟩ := Option.bind_eq_some_iff.mp hstep
    obtain ⟨latch, hlatch, rfl⟩ := Option.map_eq_some_iff.mp hmap
    cases e with
    | await side =>
      cases side with
      | thread => cases henter
      | owner =>
        obtain ⟨hstarter, rfl⟩ := of_guard henter
        exact ⟨h.latchAwait hstarter hlatch, rfl⟩
    | call side u =>
      cases side with
      | owner => cases henter
      | thread =>
        obtain ⟨hrunner, rfl⟩ := of_guard henter
        exact ⟨h.latchCall hrunner hlatch, rfl⟩
    | unlock side =>
      cases side with
      | owner =>
        cases henter
        exact ⟨h.latchReturns hlatch, rfl⟩
      | thread =>
        cases henter
        exact ⟨h.latchCounted hlatch, rfl⟩
    | _ =>
      cases henter
      exact ⟨h.latchInner rfl hlatch, rfl⟩
  | cond e =>
    obtain ⟨s₁, henter, hmap⟩ := Option.bind_eq_some_iff.mp hstep
    obtain ⟨cond, hcond, rfl⟩ := Option.map_eq_some_iff.mp hmap
    cases e with
    | await side =>
      cases side with
      | thread => cases henter
      | owner =>
        obtain ⟨hstarter, rfl⟩ := of_guard henter
        exact ⟨h.condAwait hstarter hcond, rfl⟩
    | call side u =>
      cases side with
      | owner => cases henter
      | thread =>
        obtain ⟨⟨hrunner, hfunc⟩, rfl⟩ := of_guard henter
        exact ⟨h.condCall hrunner hfunc hcond, rfl⟩
    | update side =>
      cases henter
      obtain ⟨-, -, hpublish⟩ := h.store_publishes hcond
      exact ⟨h.condStore hcond, (runFrom_cons ..).mpr ⟨_, hpublish, rfl⟩⟩
    | unlock side =>
      cases side with
      | owner =>
        cases henter
        obtain ⟨-, -, hreturns⟩ := h.start_returns hcond
        exact ⟨h.condReturns hcond, (runFrom_cons ..).mpr ⟨_, hreturns, rfl⟩⟩
      | thread =>
        cases henter
        exact ⟨h.condPublished hcond, rfl⟩
    | _ =>
      cases henter
      exact ⟨h.condInner rfl rfl hcond, rfl⟩

/-- Neither the owner nor the thread can go on with the start. Wake-ups for no reason are not
counted on. -/
structure Stuck (s : State τ φ) : Prop where
  enter : ∀ tid, step s (.enter tid) = none
  latch : ∀ e, e.isSpurious = false → step s (.latch e) = none
  cond : ∀ e, e.isSpurious = false → step s (.cond e) = none
  constructLoop : step s (.thread .constructLoop) = none
  initReturns : step s (.thread .initReturns) = none

theorem pc_of_kind {pc : Pc Unit} (hkind : pc.kind = .outside) : pc = .outside := by
  cases pc <;> first | rfl | cases hkind

theorem Stuck.latchQuiet {s : State τ φ} (h : Stuck s) :
    Quiet CountDownLatch.latch s.latch := by
  intro e he
  have hnone := h.latch e (isSpurious_of_isOwn he)
  cases e with
  | await side => cases he
  | call side u => cases he
  | spurious side => cases he
  | unlock side => cases side <;> exact Option.map_eq_none_iff.mp hnone
  | _ => exact Option.map_eq_none_iff.mp hnone

theorem Stuck.condQuiet {s : State τ φ} (h : Stuck s) : Quiet loopSet s.cond := by
  intro e he
  have hnone := h.cond e (isSpurious_of_isOwn he)
  cases e with
  | await side => cases he
  | call side u => cases he
  | spurious side => cases he
  | unlock side => cases side <;> exact Option.map_eq_none_iff.mp hnone
  | _ => exact Option.map_eq_none_iff.mp hnone

theorem not_updating {σ : Type*} {m : Monitor σ Unit} {W : Set Side} {s : Monitor.State σ Unit Side}
    (h : Monitor.Kept m W s) (hquiet : Quiet m s) (side : Side) : (s.pc side).kind ≠ .updating := by
  obtain hpc | ⟨hpc, -⟩ := h.quiet hquiet side
  · rw [hpc]
    nofun
  · rw [hpc]
    nofun

theorem Kept.latch_open_of_stuck {s : State τ φ} (h : Kept s) (hstuck : Stuck s)
    (hstarter : s.starter ≠ .before) : s.latch.data ≤ 0 := by
  have hcounted := h.counted
  rw [h.latch.due_eq_zero hstuck.latchQuiet] at hcounted
  cases hrunner : s.runner with
  | absent => exact absurd (h.begun.mp hrunner) hstarter
  | entering =>
    have henter := hstuck.enter 1
    simp [step, hrunner] at henter
  | named =>
    have hplaced := h.placed.latchThread
    rw [hrunner] at hplaced
    have hcall := hstuck.latch (.call .thread ()) rfl
    simp [step, enterLatch, hrunner, Monitor.step, pc_of_kind hplaced] at hcall
  | _ =>
    rw [hrunner] at hcounted
    exact hcounted.le

theorem Kept.published_of_stuck {s : State τ φ} (h : Kept s) (hstuck : Stuck s)
    (hopen : s.latch.data ≤ 0) : s.thread.published = true := by
  have hcounted := h.counted
  have hplaced := h.placed
  have hfunc := h.func
  rw [h.thread.published]
  cases hrunner : s.runner <;> rw [hrunner] at hcounted hplaced hfunc
  case looping => exact hfunc
  case counting => exact absurd hplaced.latchThread (not_updating h.latch hstuck.latchQuiet .thread)
  case publishing => exact absurd hplaced.condThread (not_updating h.cond hstuck.condQuiet .thread)
  case inFunc =>
    obtain hconstructing | hinitializing | hpublishing := hfunc
    · have hloop := hstuck.constructLoop
      simp [step, mayStep, hrunner, EventLoopThread.step, EventLoopThread.stepThread,
        hconstructing] at hloop
    · have hreturns := hstuck.initReturns
      simp [step, mayStep, hrunner, EventLoopThread.step, EventLoopThread.stepThread,
        hinitializing] at hreturns
    · have hcall := hstuck.cond (.call .thread ()) rfl
      simp [step, enterCond, hrunner, hpublishing, Monitor.step,
        pc_of_kind hplaced.condThread] at hcall
  all_goals
    simp only [RunnerPc.owes, Bool.toNat_true] at hcounted
    omega

theorem Kept.stuck {s : State τ φ} (h : Kept s) (hstuck : Stuck s) :
    s.starter = .before ∨ s.starter = .returned := by
  have hplaced := h.placed
  cases hstarter : s.starter <;> rw [hstarter] at hplaced
  case before => exact .inl rfl
  case returned => exact .inr rfl
  all_goals
    exfalso
    have hopen := h.latch_open_of_stuck hstuck (by rw [hstarter]; nofun)
  case created =>
    have hawait := hstuck.latch (.await .owner) rfl
    simp [step, enterLatch, hstarter, Monitor.step, pc_of_kind hplaced.latchOwner] at hawait
  case latched =>
    have hawait := hstuck.cond (.await .owner) rfl
    simp [step, enterCond, hstarter, Monitor.step, pc_of_kind hplaced.condOwner] at hawait
  case latching =>
    obtain hpc | ⟨-, hclosed⟩ := h.latch.quiet hstuck.latchQuiet .owner
    · have hkind := hplaced.latchOwner
      rw [hpc] at hkind
      cases hkind
    · exact of_decide_eq_false hclosed (Int.not_lt.mpr hopen)
  case waiting =>
    obtain hpc | ⟨-, hnull⟩ := h.cond.quiet hstuck.condQuiet .owner
    · have hkind := hplaced.condOwner
      rw [hpc] at hkind
      cases hkind
    · have hset : s.cond.data = true := h.loop.trans (h.published_of_stuck hstuck hopen)
      cases hset.symm.trans hnull

/-- A step of `start` or of its counterpart in the thread. -/
def Event.meets : Event τ φ → Bool
  | .thread _ => false
  | _ => true

def Event.isSpurious : Event τ φ → Bool
  | .latch e | .cond e => e.isSpurious
  | _ => false

/-- What the calls to come pay for. -/
def StarterPc.credit : StarterPc → ℕ
  | .before => 9
  | .created => 8
  | .latching | .latched => 4
  | .waiting | .returned => 0

def RunnerPc.credit : RunnerPc → ℕ
  | .absent | .entering => 23
  | .named => 22
  | .counting | .inFunc => 11
  | .publishing | .looping => 0

def State.credit (s : State τ φ) : ℕ := s.starter.credit + s.runner.credit

def State.potential (s : State τ φ) : ℕ := s.latch.rank + s.cond.rank + s.credit

omit [DecidableEq τ] in
theorem Kept.latchCredit {s s₁ : State τ φ} {e : Monitor.Event Unit Side}
    {latch : Monitor.State ℤ Unit Side} (h : Kept s) (henter : enterLatch s e = some s₁)
    (hstep : Monitor.step CountDownLatch.latch s₁.latch e = some latch) :
    s₁.latch = s.latch ∧ s₁.cond = s.cond ∧
      s₁.credit + e.gain 2 ≤ s.credit + 4 * (Event.latch e : Event τ φ).isSpurious.toNat := by
  cases e with
  | await side =>
    cases side with
    | thread => cases henter
    | owner =>
      obtain ⟨hstarter, rfl⟩ := of_guard henter
      refine ⟨rfl, rfl, ?_⟩
      simp only [State.credit, hstarter, StarterPc.credit, Event.gain]
      omega
  | call side u =>
    cases side with
    | owner => cases henter
    | thread =>
      obtain ⟨hrunner, rfl⟩ := of_guard henter
      refine ⟨rfl, rfl, ?_⟩
      simp only [State.credit, hrunner, RunnerPc.credit, Event.gain]
      omega
  | unlock side =>
    cases side with
    | owner =>
      cases henter
      obtain ⟨hstarter, -⟩ := place_of_kind h.placed.latchOwner (kind_of_unlock hstep)
      refine ⟨rfl, rfl, ?_⟩
      simp only [State.credit, hstarter, StarterPc.credit, Event.gain]
      omega
    | thread =>
      cases henter
      obtain ⟨hrunner, -⟩ := place_of_kind h.placed.latchThread (kind_of_unlock hstep)
      refine ⟨rfl, rfl, ?_⟩
      simp only [State.credit, hrunner, RunnerPc.credit, Event.gain]
      omega
  | _ =>
    cases henter
    exact ⟨rfl, rfl, Nat.le_refl _⟩

omit [DecidableEq τ] in
theorem condCredit {s s₁ : State τ φ} {e : Monitor.Event Unit Side}
    (henter : enterCond s e = some s₁) :
    s₁.latch = s.latch ∧ s₁.cond = s.cond ∧
      s₁.credit + e.gain 2 ≤ s.credit + 4 * (Event.cond e : Event τ φ).isSpurious.toNat := by
  cases e with
  | await side =>
    cases side with
    | thread => cases henter
    | owner =>
      obtain ⟨hstarter, rfl⟩ := of_guard henter
      refine ⟨rfl, rfl, ?_⟩
      simp only [State.credit, hstarter, StarterPc.credit, Event.gain]
      omega
  | call side u =>
    cases side with
    | owner => cases henter
    | thread =>
      obtain ⟨⟨hrunner, -⟩, rfl⟩ := of_guard henter
      refine ⟨rfl, rfl, ?_⟩
      simp only [State.credit, hrunner, RunnerPc.credit, Event.gain]
      omega
  | unlock side =>
    cases side with
    | owner =>
      cases henter
      refine ⟨rfl, rfl, ?_⟩
      simp only [State.credit, StarterPc.credit, Event.gain]
      omega
    | thread =>
      cases henter
      refine ⟨rfl, rfl, ?_⟩
      simp only [State.credit, RunnerPc.credit, Event.gain]
      omega
  | _ =>
    cases henter
    exact ⟨rfl, rfl, Nat.le_refl _⟩

theorem Kept.pays {s t : State τ φ} {e : Event τ φ} (h : Kept s) (hstep : step s e = some t) :
    t.potential + e.meets.toNat ≤ s.potential + 4 * e.isSpurious.toNat := by
  cases e with
  | create =>
    obtain ⟨hstarter, rfl⟩ := of_guard hstep
    simp only [State.potential, State.credit, hstarter, h.begun.mpr hstarter, StarterPc.credit,
      RunnerPc.credit, Event.meets, Event.isSpurious, Bool.toNat_true, Bool.toNat_false]
    omega
  | enter tid =>
    obtain ⟨⟨hrunner, -⟩, rfl⟩ := of_guard hstep
    simp only [State.potential, State.credit, hrunner, RunnerPc.credit, Event.meets,
      Event.isSpurious, Bool.toNat_true, Bool.toNat_false]
    omega
  | thread e =>
    obtain ⟨hmay, hmap⟩ := Option.ite_none_right_eq_some.mp hstep
    obtain ⟨thread, hthread, rfl⟩ := Option.map_eq_some_iff.mp hmap
    exact Nat.le_refl _
  | latch e =>
    obtain ⟨s₁, henter, hmap⟩ := Option.bind_eq_some_iff.mp hstep
    obtain ⟨latch, hlatch, rfl⟩ := Option.map_eq_some_iff.mp hmap
    obtain ⟨hsame, hother, hcredit⟩ := h.latchCredit henter hlatch
    have hpays : latch.rank + 1 ≤ s₁.latch.rank + e.gain 2 := step_pays hlatch
    rw [hsame] at hpays
    simp only [State.potential, hother, Event.meets, Bool.toNat_true]
    change latch.rank + s.cond.rank + s₁.credit + 1 ≤ _
    omega
  | cond e =>
    obtain ⟨s₁, henter, hmap⟩ := Option.bind_eq_some_iff.mp hstep
    obtain ⟨cond, hcond, rfl⟩ := Option.map_eq_some_iff.mp hmap
    obtain ⟨hother, hsame, hcredit⟩ := condCredit henter
    have hpays : cond.rank + 1 ≤ s₁.cond.rank + e.gain 2 := step_pays hcond
    rw [hsame] at hpays
    simp only [State.potential, hother, Event.meets, Bool.toNat_true]
    change s.latch.rank + cond.rank + s₁.credit + 1 ≤ _
    omega

theorem run_kept {initCallBack : Bool} {name : String} {events : List (Event τ φ)} {s : State τ φ}
    (hrun : runFrom step (State.init initCallBack name) events = some s) : Kept s :=
  runFrom_invariant (fun _ _ _ h hstep => (step_simulates h hstep).1) (kept_init ..) hrun

/-- In every order of the steps of the owner and of the thread: the run is one of the model in which
`loop_` is stored and `start` returns in one step each. When `start` has returned, the thread has
its number and its name, and `loop_` is set. Nothing stops before that, and the two meetings take
at most 32 steps, and four more for each wake-up for no reason. -/
theorem start_meets {initCallBack : Bool} {name : String} {events : List (Event τ φ)}
    {s : State τ φ} (hrun : runFrom step (State.init initCallBack name) events = some s) :
    runFrom EventLoopThread.step (.init initCallBack) (events.flatMap Event.emit) = some s.thread ∧
      (s.starter = .returned → s.thread.published = true ∧ 0 < s.tid ∧ s.name ≠ "") ∧
      (Stuck s → s.starter = .before ∨ s.starter = .returned) ∧
      events.countP Event.meets ≤ 32 + 4 * events.countP Event.isSpurious := by
  have hkept := run_kept hrun
  refine ⟨?_, ?_, hkept.stuck, ?_⟩
  · have hsimulates : ∀ (s : State τ φ) (e : Event τ φ) (t : State τ φ), Kept s → True →
        step s e = some t →
          Kept t ∧ runFrom EventLoopThread.step s.thread e.emit = some t.thread :=
      fun _ _ _ h _ hstep => step_simulates h hstep
    exact runFrom_simulates hsimulates (kept_init initCallBack name) (along_true ..) hrun
  · intro hstarter
    have hopen := hkept.latched (.inr (.inr hstarter))
    have hcounted := hkept.counted
    refine ⟨hkept.returned hstarter, ?_⟩
    obtain hrunner | hrunner | hidentified := hkept.identified
    · rw [hrunner] at hcounted
      simp only [RunnerPc.owes, Bool.toNat_true] at hcounted
      omega
    · rw [hrunner] at hcounted
      simp only [RunnerPc.owes, Bool.toNat_true] at hcounted
      omega
    · exact hidentified
  · have hpays : ∀ (s : State τ φ) (e : Event τ φ) (t : State τ φ), Kept s → True →
        step s e = some t → t.potential + e.meets.toNat ≤ s.potential + 4 * e.isSpurious.toNat :=
      fun _ _ _ h _ hstep => h.pays hstep
    have hpaid := runFrom_amortized (fun _ _ _ h _ hstep => (step_simulates h hstep).1) hpays
      (kept_init initCallBack name) (along_true ..) hrun
    rw [sum_map_toNat, List.sum_map_mul_left, sum_map_toNat] at hpaid
    have hinit : (State.init initCallBack name : State τ φ).potential = 32 := rfl
    omega

end Atomic

/-- The owner waits twice, the second time with a wake-up for no reason. -/
def sampleRun : List (Event ℕ ℕ) :=
  [.create, .latch (.await .owner), .latch (.lock .owner), .latch (.test .owner), .enter 7,
   .latch (.call .thread ()), .latch (.lock .thread), .latch (.update .thread),
   .latch (.wake .thread none), .latch (.unlock .thread), .thread .constructLoop,
   .latch (.lock .owner), .latch (.test .owner), .latch (.unlock .owner), .cond (.await .owner),
   .cond (.lock .owner), .cond (.test .owner), .thread .initReturns, .cond (.spurious .owner),
   .cond (.call .thread ()), .cond (.lock .thread), .cond (.update .thread),
   .cond (.wake .thread none), .cond (.unlock .thread), .cond (.lock .owner), .cond (.test .owner),
   .cond (.unlock .owner)]

theorem sampleRun_start_meets :
    ∃ s, runFrom step (State.init true "") sampleRun = some s ∧ s.starter = .returned ∧
      s.name = "thread7" ∧
      runFrom EventLoopThread.step (.init true) (sampleRun.flatMap Event.emit) = some s.thread ∧
      (s.starter = .returned → s.thread.published = true ∧ 0 < s.tid ∧ s.name ≠ "") ∧
      (Stuck s → s.starter = .before ∨ s.starter = .returned) ∧
      sampleRun.countP Event.meets ≤ 32 + 4 * sampleRun.countP Event.isSpurious :=
  ⟨_, rfl, rfl, by decide, start_meets rfl⟩

end Matelib.ThreadStart
