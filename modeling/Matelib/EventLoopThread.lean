import Matelib.EventLoopQuit

/-!
# A thread with an event loop

`threadFunc` has its `EventLoop` as a local variable: it lets the callback of the constructor see
it, publishes its address in `loop_` and calls `loop`, and when `loop` returns the object is gone.
`loop_` keeps the address. The owner starts the thread, waits for the address, uses the loop as any
other thread does, and at last runs the destructor, which calls `quit` through `loop_` and joins the
thread. The destructor touches a live loop as long as `loop` does not leave its `while` before the
destructor's `quit` has returned.
-/

namespace Matelib.EventLoopThread

open Transition

/-- Where the thread is in `threadFunc`. -/
inductive FuncPc where
  | unstarted
  | constructing
  | initializing
  | publishing
  | looping
  | returned
  deriving DecidableEq

/-- Where the owner is: `starting` is the wait in `start`, and `destroying` to `joining` are the
places in the destructor, before the store, the test of the thread and the wakeup of
`loop_->quit()`, and before the return of `join`. -/
inductive OwnerPc where
  | constructed
  | starting
  | started
  | destroying
  | quitting
  | waking
  | joining
  | joined
  deriving DecidableEq

/-- `loop` is the object on the stack of the thread while it exists, and `published` says that
`loop_` is not null. Among the threads that are foreign to the loop, `none` is the owner. -/
structure State (τ φ : Type*) where
  initCallBack : Bool
  loop : Option (EventLoop.State (Option τ) φ)
  published : Bool
  func : FuncPc
  owner : OwnerPc

inductive Event (τ φ : Type*) where
  -- the thread
  | constructLoop
  | initQuits
  | initQueues (func : φ)
  | initReturns
  | publish
  | threadReturns
  -- a step of `loop`, or of a call on the loop from another thread
  | loop (e : EventLoop.Event (Option τ) φ)
  -- the owner
  | threadStart
  | startReturns
  | destroy
  | destructorQuits
  | destructorTests
  | destructorWakes
  | join

variable {τ φ : Type*}

def State.init (initCallBack : Bool) : State τ φ :=
  ⟨initCallBack, none, false, .unstarted, .constructed⟩

def left {σ : Type*} (l : EventLoop.State σ φ) : Bool :=
  match l.pc with
  | .returned => true
  | _ => false

/-- `threadFunc` up to the call of `loop`, and behind it. -/
def stepThread (s : State τ φ) : Event τ φ → Option (State τ φ)
  | .constructLoop =>
    if s.func = .constructing then
      some { s with
        loop := some .init, func := if s.initCallBack then .initializing else .publishing }
    else none
  | .initQuits =>
    -- the callback runs in the loop thread: `quit` does not wake it up
    if s.func = .initializing then
      some { s with loop := s.loop.map fun l => { l with quit := true } }
    else none
  | .initQueues func =>
    if s.func = .initializing then
      some { s with loop := s.loop.map fun l => EventLoop.pushBack l func }
    else none
  | .initReturns =>
    if s.func = .initializing then some { s with func := .publishing } else none
  | .publish =>
    if s.func = .publishing then some { s with published := true, func := .looping } else none
  | .threadReturns =>
    -- the scope of `EventLoop loop` ends
    if s.func = .looping ∧ s.loop.any left then
      some { s with loop := none, func := .returned }
    else none
  | _ => none

/-- Whether the thread that takes a step of the loop can take it here. -/
def mayStep (s : State τ φ) : EventLoop.Event (Option τ) φ → Bool
  | .foreignQueue t _ | .foreignQuit t | .foreignWakes t => t.isSome || s.owner = .started
  | _ => s.func = .looping

variable [DecidableEq τ]

def stepLoop (s : State τ φ) (e : EventLoop.Event (Option τ) φ) : Option (State τ φ) :=
  match s.loop with
  | some l =>
    if mayStep s e then (EventLoop.step l e).map fun l => { s with loop := some l } else none
  | none => none

/-- The owner is in no call on the loop. -/
def ownerOutside (s : State τ φ) : Bool := s.loop.all fun l => l.thread none = .outside

/-- An access of the destructor through `loop_`. On a loop that is gone it has no meaning, and the
owner goes on. -/
def access (s : State τ φ) (e : EventLoop.Event (Option τ) φ) (owner : OwnerPc) :
    Option (State τ φ) :=
  match s.loop with
  | some l => (EventLoop.step l e).map fun l => { s with loop := some l, owner := owner }
  | none => some { s with owner := owner }

def stepOwner (s : State τ φ) : Event τ φ → Option (State τ φ)
  | .threadStart =>
    if s.owner = .constructed then
      some { s with owner := .starting, func := .constructing }
    else none
  | .startReturns =>
    if s.owner = .starting ∧ s.published then some { s with owner := .started } else none
  | .destroy =>
    if s.owner = .started ∧ ownerOutside s then some { s with owner := .destroying } else none
  | .destructorQuits =>
    if s.owner = .destroying then access s (.foreignQuit none) .quitting else none
  | .destructorTests =>
    -- the owner is not the loop thread
    if s.owner = .quitting then some { s with owner := .waking } else none
  | .destructorWakes =>
    if s.owner = .waking then access s (.foreignWakes none) .joining else none
  | .join =>
    if s.owner = .joining ∧ s.func = .returned then some { s with owner := .joined } else none
  | _ => none

def step (s : State τ φ) (e : Event τ φ) : Option (State τ φ) :=
  match e with
  | .loop e => stepLoop s e
  | .threadStart | .startReturns | .destroy | .destructorQuits | .destructorTests
  | .destructorWakes | .join => stepOwner s e
  | _ => stepThread s e

/-- The accesses of `~EventLoopThread` to `*loop_`: the store to `quit_`, and the reads of
`threadId_` and of `wakeupFd_`. -/
def Event.dereferences : Event τ φ → Bool
  | .destructorQuits | .destructorTests | .destructorWakes => true
  | _ => false

def TouchesLive (s : State τ φ) (e : Event τ φ) : Prop :=
  e.dereferences = true → s.loop.isSome = true

instance (s : State τ φ) (e : Event τ φ) : Decidable (TouchesLive s e) :=
  inferInstanceAs (Decidable (_ → _))

def OwnerPc.hasQuit : OwnerPc → Bool
  | .joining | .joined => true
  | _ => false

def leaves (s : State τ φ) : Event τ φ → Bool
  | .loop .testQuit => s.loop.any EventLoop.State.quit
  | _ => false

/-- `loop` leaves its `while` only when the destructor's `quit` has returned. -/
def LeavesLate (s : State τ φ) (e : Event τ φ) : Prop :=
  leaves s e = true → s.owner.hasQuit = true

instance (s : State τ φ) (e : Event τ φ) : Decidable (LeavesLate s e) :=
  inferInstanceAs (Decidable (_ → _))

/-- The loop is there as before, and `loop` has left its `while` as before. -/
structure SameLoop {σ : Type*} (loop loop' : Option (EventLoop.State σ φ)) : Prop where
  live : loop'.isSome = loop.isSome
  left : loop'.any left = loop.any left

theorem sameLoop_map {σ : Type*} {f : EventLoop.State σ φ → EventLoop.State σ φ}
    (hf : ∀ l, (f l).pc = l.pc) (loop : Option (EventLoop.State σ φ)) :
    SameLoop loop (loop.map f) := by
  cases loop with
  | none => exact ⟨rfl, rfl⟩
  | some l =>
    refine ⟨rfl, ?_⟩
    change left (f l) = left l
    rw [left, hf]
    rfl

/-- What a step does, with what the calls on the loop do to it left open. -/
inductive Move (s : State τ φ) : Event τ φ → State τ φ → Prop where
  | threadStart (howner : s.owner = .constructed) :
    Move s .threadStart { s with owner := .starting, func := .constructing }
  | constructLoop {func : FuncPc} (hfunc : s.func = .constructing)
      (hnext : func = .initializing ∨ func = .publishing) :
    Move s .constructLoop { s with loop := some .init, func := func }
  | initCall {e : Event τ φ} {loop : Option (EventLoop.State (Option τ) φ)}
      (hcall : e.dereferences = false) (hsame : SameLoop s.loop loop) :
    Move s e { s with loop := loop }
  | initReturns (hfunc : s.func = .initializing) :
    Move s .initReturns { s with func := .publishing }
  | publish (hfunc : s.func = .publishing) :
    Move s .publish { s with published := true, func := .looping }
  | threadReturns (hfunc : s.func = .looping) (hleft : s.loop.any left = true) :
    Move s .threadReturns { s with loop := none, func := .returned }
  | loop {e : EventLoop.Event (Option τ) φ} {l l' : EventLoop.State (Option τ) φ}
      (hloop : s.loop = some l) (hstep : EventLoop.step l e = some l') :
    Move s (.loop e) { s with loop := some l' }
  | startReturns (howner : s.owner = .starting) (hpublished : s.published = true) :
    Move s .startReturns { s with owner := .started }
  | destroy (howner : s.owner = .started) : Move s .destroy { s with owner := .destroying }
  | destructorQuits {loop : Option (EventLoop.State (Option τ) φ)}
      (howner : s.owner = .destroying) (hsame : SameLoop s.loop loop) :
    Move s .destructorQuits { s with loop := loop, owner := .quitting }
  | destructorTests (howner : s.owner = .quitting) :
    Move s .destructorTests { s with owner := .waking }
  | destructorWakes {loop : Option (EventLoop.State (Option τ) φ)}
      (howner : s.owner = .waking) (hsame : SameLoop s.loop loop) :
    Move s .destructorWakes { s with loop := loop, owner := .joining }
  | join (howner : s.owner = .joining) : Move s .join { s with owner := .joined }

theorem access_cases {s t : State τ φ} {e : EventLoop.Event (Option τ) φ} {owner : OwnerPc}
    (he : ∀ l, EventLoop.step l e = EventLoop.stepForeign l e)
    (haccess : access s e owner = some t) :
    ∃ loop, SameLoop s.loop loop ∧ t = { s with loop := loop, owner := owner } := by
  rw [access] at haccess
  cases hloop : s.loop with
  | none =>
    rw [hloop] at haccess
    cases haccess
    exact ⟨none, ⟨rfl, rfl⟩, by rw [← hloop]⟩
  | some l =>
    rw [hloop] at haccess
    obtain ⟨l', hl', rfl⟩ := Option.map_eq_some_iff.mp haccess
    obtain ⟨hpc, -⟩ := EventLoop.stepForeign_frame ((he l).symm.trans hl')
    refine ⟨some l', ⟨rfl, ?_⟩, rfl⟩
    change left l' = left l
    rw [left, hpc]
    rfl

theorem stepLoop_cases {s t : State τ φ} {e : EventLoop.Event (Option τ) φ}
    (hstep : stepLoop s e = some t) :
    ∃ l l', s.loop = some l ∧ mayStep s e = true ∧ EventLoop.step l e = some l' ∧
      t = { s with loop := some l' } := by
  rw [stepLoop] at hstep
  cases hloop : s.loop with
  | none =>
    rw [hloop] at hstep
    cases hstep
  | some l =>
    rw [hloop] at hstep
    simp only [Option.ite_none_right_eq_some] at hstep
    obtain ⟨l', hl', rfl⟩ := Option.map_eq_some_iff.mp hstep.2
    exact ⟨l, l', rfl, hstep.1, hl', rfl⟩

theorem step_move {s t : State τ φ} {e : Event τ φ} (hstep : step s e = some t) :
    Move s e t := by
  cases e with
  | loop e =>
    obtain ⟨l, l', hloop, -, hl', rfl⟩ := stepLoop_cases hstep
    exact .loop hloop hl'
  | constructLoop =>
    obtain ⟨hfunc, rfl⟩ := of_guard hstep
    refine .constructLoop hfunc ?_
    cases s.initCallBack
    · exact Or.inr rfl
    · exact Or.inl rfl
  | initQuits =>
    obtain ⟨-, rfl⟩ := of_guard hstep
    refine .initCall rfl (sameLoop_map ?_ s.loop)
    intro l
    rfl
  | initQueues func =>
    obtain ⟨-, rfl⟩ := of_guard hstep
    refine .initCall rfl (sameLoop_map ?_ s.loop)
    intro l
    rfl
  | initReturns =>
    obtain ⟨hfunc, rfl⟩ := of_guard hstep
    exact .initReturns hfunc
  | publish =>
    obtain ⟨hfunc, rfl⟩ := of_guard hstep
    exact .publish hfunc
  | threadReturns =>
    obtain ⟨⟨hfunc, hleft⟩, rfl⟩ := of_guard hstep
    exact .threadReturns hfunc hleft
  | threadStart =>
    obtain ⟨howner, rfl⟩ := of_guard hstep
    exact .threadStart howner
  | startReturns =>
    obtain ⟨⟨howner, hpublished⟩, rfl⟩ := of_guard hstep
    exact .startReturns howner hpublished
  | destroy =>
    obtain ⟨⟨howner, -⟩, rfl⟩ := of_guard hstep
    exact .destroy howner
  | destructorQuits =>
    obtain ⟨howner, haccess⟩ := Option.ite_none_right_eq_some.mp hstep
    obtain ⟨loop, hsame, rfl⟩ := access_cases (fun _ => rfl) haccess
    exact .destructorQuits howner hsame
  | destructorTests =>
    obtain ⟨howner, rfl⟩ := of_guard hstep
    exact .destructorTests howner
  | destructorWakes =>
    obtain ⟨howner, haccess⟩ := Option.ite_none_right_eq_some.mp hstep
    obtain ⟨loop, hsame, rfl⟩ := access_cases (fun _ => rfl) haccess
    exact .destructorWakes howner hsame
  | join =>
    obtain ⟨⟨howner, -⟩, rfl⟩ := of_guard hstep
    exact .join howner

/-- `EventLoop loop` is in its scope. -/
def FuncPc.inScope : FuncPc → Bool
  | .initializing | .publishing | .looping => true
  | _ => false

/-- The thread has begun only when the owner has called `start`, the address is published when it
calls `loop`, the owner has the address when `start` has returned, and the loop is there in its
scope. -/
structure Intact (s : State τ φ) : Prop where
  begun : s.func ≠ .unstarted → s.owner ≠ .constructed
  published : s.published = true ↔ s.func = .looping ∨ s.func = .returned
  waits : s.owner = .constructed ∨ s.owner = .starting ∨ s.published = true
  live : s.loop.isSome = s.func.inScope

omit [DecidableEq τ] in
theorem intact_init (initCallBack : Bool) : Intact (State.init initCallBack : State τ φ) where
  begun h := absurd rfl h
  published := by simp [State.init]
  waits := Or.inl rfl
  live := rfl

theorem step_intact {s t : State τ φ} {e : Event τ φ} (h : Intact s)
    (hstep : step s e = some t) : Intact t := by
  obtain ⟨begun, published, waits, live⟩ := h
  cases step_move hstep with
  | threadStart howner =>
    have hfunc : s.func = .unstarted := by
      by_contra hne
      exact begun hne howner
    rw [hfunc] at published live
    exact ⟨fun _ => nofun, published.trans (by simp), Or.inr (Or.inl rfl), live⟩
  | constructLoop hfunc hnext =>
    have howner := begun (by rw [hfunc]; nofun)
    rw [hfunc] at published
    rcases hnext with rfl | rfl
    · exact ⟨fun _ => howner, published.trans (by simp), waits, rfl⟩
    · exact ⟨fun _ => howner, published.trans (by simp), waits, rfl⟩
  | initCall _ hsame => exact ⟨begun, published, waits, hsame.live.trans live⟩
  | initReturns hfunc =>
    have howner := begun (by rw [hfunc]; nofun)
    rw [hfunc] at published live
    exact ⟨fun _ => howner, published.trans (by simp), waits, live⟩
  | publish hfunc =>
    have howner := begun (by rw [hfunc]; nofun)
    rw [hfunc] at live
    exact ⟨fun _ => howner, iff_of_true rfl (Or.inl rfl), Or.inr (Or.inr rfl), live⟩
  | threadReturns hfunc =>
    have howner := begun (by rw [hfunc]; nofun)
    rw [hfunc] at published
    exact ⟨fun _ => howner, published.trans (by simp), waits, rfl⟩
  | loop hloop hstep =>
    rw [hloop] at live
    exact ⟨begun, published, waits, live⟩
  | startReturns howner hpublished =>
    exact ⟨fun _ => nofun, published, Or.inr (Or.inr hpublished), live⟩
  | destroy howner | destructorTests howner | join howner =>
    refine ⟨fun _ => nofun, published, ?_, live⟩
    simpa [howner] using waits
  | destructorQuits howner hsame | destructorWakes howner hsame =>
    refine ⟨fun _ => nofun, published, ?_, hsame.live.trans live⟩
    simpa [howner] using waits

theorem left_of_step {σ : Type*} [DecidableEq σ] {l l' : EventLoop.State σ φ}
    {e : EventLoop.Event σ φ} (hstep : EventLoop.step l e = some l') (hleft : left l' = true) :
    left l = true ∨ e = .testQuit ∧ l.quit = true := by
  rcases EventLoop.step_frame hstep with ⟨hpc, -⟩ | hloop
  · rw [left, hpc] at hleft
    exact Or.inl hleft
  · cases EventLoop.stepLoop_move hloop with
    | testQuit hpc =>
      -- no other step of the loop thread starts at the test
      have he : e = .testQuit := by
        cases e <;> simp only [EventLoop.stepLoop, hpc, reduceCtorEq] at hloop
        rfl
      cases hquit : l.quit with
      | true => exact Or.inr ⟨he, rfl⟩
      | false =>
        rw [left, hquit] at hleft
        cases hleft
    | pollReturns _ _ | handleWakeup _ | handleOther _ | handlerReturns _ | doPendingFunctors _
    | swap _ | callFunctor _ | functorReturns _ | batchDone _ => cases hleft

theorem left_of_testQuit {σ : Type*} [DecidableEq σ] {l l' : EventLoop.State σ φ}
    (hstep : EventLoop.step l .testQuit = some l') (hquit : l.quit = true) : left l' = true := by
  cases hpc : l.pc <;>
    simp only [EventLoop.step, EventLoop.stepLoop, hpc, hquit, if_true,
      Option.ite_none_left_eq_some, reduceCtorEq, and_false, Option.some.injEq] at hstep
  obtain ⟨-, rfl⟩ := hstep
  rfl

/-- The invariant of the runs in which `loop` leaves its `while` late. -/
structure Held (s : State τ φ) : Prop where
  intact : Intact s
  left : s.loop.any left = true → s.owner.hasQuit = true
  returned : s.func = .returned → s.owner.hasQuit = true

omit [DecidableEq τ] in
theorem held_init (initCallBack : Bool) : Held (State.init initCallBack : State τ φ) where
  intact := intact_init initCallBack
  left h := nomatch h
  returned h := nomatch h

omit [DecidableEq τ] in
theorem Held.early {s : State τ φ} (h : Held s) (howner : s.owner.hasQuit = false) :
    s.loop.any EventLoopThread.left = false ∧ s.func ≠ .returned := by
  constructor
  · by_contra hleft
    have hquit := h.left (by simpa using hleft)
    rw [howner] at hquit
    cases hquit
  · intro hreturned
    have hquit := h.returned hreturned
    rw [howner] at hquit
    cases hquit

omit [DecidableEq τ] in
theorem Held.move {s t : State τ φ} (h : Held s) (howner : s.owner.hasQuit = false)
    (hintact : Intact t) (hleft : t.loop.any EventLoopThread.left = s.loop.any EventLoopThread.left)
    (hfunc : t.func = .returned → s.func = .returned) : Held t := by
  obtain ⟨hnotLeft, hnotReturned⟩ := h.early howner
  refine ⟨hintact, ?_, fun hreturned => absurd (hfunc hreturned) hnotReturned⟩
  intro hleft'
  rw [hleft, hnotLeft] at hleft'
  cases hleft'

theorem step_held {s t : State τ φ} {e : Event τ φ} (h : Held s) (hlate : LeavesLate s e)
    (hstep : step s e = some t) : Held t := by
  have hintact := step_intact h.intact hstep
  cases step_move hstep with
  | constructLoop hfunc hnext =>
    refine ⟨hintact, nofun, ?_⟩
    rcases hnext with rfl | rfl <;> exact nofun
  | initCall _ hsame =>
    exact ⟨hintact, fun hleft => h.left (hsame.left.symm.trans hleft), h.returned⟩
  | initReturns hfunc | publish hfunc => exact ⟨hintact, h.left, nofun⟩
  | threadReturns hfunc hleft => exact ⟨hintact, nofun, fun _ => h.left hleft⟩
  | loop hloop hloopStep =>
    refine ⟨hintact, ?_, h.returned⟩
    intro hleft
    rcases left_of_step hloopStep hleft with hleft | ⟨rfl, hquit⟩
    · apply h.left
      rw [hloop]
      exact hleft
    · apply hlate
      change s.loop.any _ = true
      rw [hloop]
      exact hquit
  | threadStart howner => exact h.move (by rw [howner]; rfl) hintact rfl nofun
  | startReturns howner _ | destroy howner | destructorTests howner =>
    exact h.move (by rw [howner]; rfl) hintact rfl id
  | destructorQuits howner hsame => exact h.move (by rw [howner]; rfl) hintact hsame.left id
  | destructorWakes howner hsame | join howner => exact ⟨hintact, fun _ => rfl, fun _ => rfl⟩

theorem owner_of_dereferences {s t : State τ φ} {e : Event τ φ} (hstep : step s e = some t)
    (hdereferences : e.dereferences = true) :
    s.owner = .destroying ∨ s.owner = .quitting ∨ s.owner = .waking := by
  cases step_move hstep with
  | destructorQuits howner => exact Or.inl howner
  | destructorTests howner => exact Or.inr (Or.inl howner)
  | destructorWakes howner => exact Or.inr (Or.inr howner)
  | initCall hcall =>
    rw [hcall] at hdereferences
    cases hdereferences
  | threadStart _ | constructLoop _ _ | initReturns _ | publish _ | threadReturns _ _ | loop _ _
  | startReturns _ _ | destroy _ | join _ => cases hdereferences

theorem Held.touchesLive {s t : State τ φ} {e : Event τ φ} (h : Held s)
    (hstep : step s e = some t) : TouchesLive s e := by
  intro hdereferences
  have howner := owner_of_dereferences hstep hdereferences
  have hpublished : s.published = true := by
    rcases h.intact.waits with hwaits | hwaits | hpublished
    · simp [hwaits] at howner
    · simp [hwaits] at howner
    · exact hpublished
  have hearly := h.early (by rcases howner with howner | howner | howner <;> rw [howner] <;> rfl)
  have hfunc : s.func = .looping := (h.intact.published.mp hpublished).resolve_right hearly.2
  rw [h.intact.live, hfunc]
  rfl

/-- In a run in which `loop` leaves its `while` only when the destructor's `quit` has returned, the
destructor touches a live loop only. -/
theorem destructor_touches_live_loop {initCallBack : Bool} {events : List (Event τ φ)}
    {t : State τ φ} (hrun : runFrom step (State.init initCallBack) events = some t)
    (hlate : Along step LeavesLate (State.init initCallBack) events) :
    Along step TouchesLive (State.init initCallBack) events := by
  refine along_of_invariant (I := Held) ?_ ?_ (held_init initCallBack)
    (along_and hlate (along_isSome hrun))
  · intro s e h hstep
    obtain ⟨t, hstep⟩ := Option.isSome_iff_exists.mp hstep.2
    exact h.touchesLive hstep
  · intro s e t h hlate hstep
    exact step_held h hlate.1 hstep

def sampleEvents : List (Event ℕ ℕ) :=
  [.threadStart, .constructLoop, .publish, .startReturns, .loop .testQuit, .destroy,
    .destructorQuits, .destructorTests, .destructorWakes, .loop (.pollReturns [.wakeup]),
    .loop .handleEvent, .loop .doPendingFunctors, .loop .swap, .loop .batchDone, .loop .testQuit,
    .threadReturns, .join]

theorem sampleEvents_touch_live_loop : Along step TouchesLive (State.init false) sampleEvents :=
  destructor_touches_live_loop (Option.some_get (by decide)).symm (by decide)

/-- A callback in the loop calls `quit`, and then the owner runs the destructor. -/
def quitInCallback : List (Event ℕ ℕ) :=
  [.threadStart, .constructLoop, .publish, .startReturns, .loop .testQuit,
    .loop (.pollReturns [.other]), .loop .handleEvent, .loop .quit, .loop .handlerReturns,
    .loop .doPendingFunctors, .loop .swap, .loop .batchDone, .loop .testQuit, .threadReturns,
    .destroy, .destructorQuits]

theorem quitInCallback_touches_dead_loop :
    (runFrom step (State.init false) quitInCallback).isSome = true ∧
      ¬Along step TouchesLive (State.init false) quitInCallback := by
  decide

/-- Nobody else calls `quit`: the thread finds the store of the destructor before the destructor
has tested which thread it is in. -/
def testsInQuit : List (Event ℕ ℕ) :=
  [.threadStart, .constructLoop, .publish, .startReturns, .destroy, .destructorQuits,
    .loop .testQuit, .threadReturns, .destructorTests]

example : (runFrom step (State.init false) testsInQuit).isSome = true ∧
    ¬Along step TouchesLive (State.init false) testsInQuit := by
  decide

/-- Some schedule from here has the destructor touch a loop that is gone. -/
def Dangles (s : State τ φ) : Prop :=
  ∃ more t, runFrom step s more = some t ∧ ¬Along step TouchesLive s more

theorem dangles_of_access {s t : State τ φ} {e : Event τ φ} (hstep : step s e = some t)
    (hdereferences : e.dereferences = true) (hgone : s.loop = none) : Dangles s := by
  refine ⟨[e], t, (runFrom_cons ..).mpr ⟨t, hstep, rfl⟩, ?_⟩
  intro hlive
  have hthere := hlive.1 hdereferences
  rw [hgone] at hthere
  cases hthere

theorem dangles_of_step {s t : State τ φ} {e : Event τ φ} (hstep : step s e = some t)
    (h : Dangles t) : Dangles s := by
  obtain ⟨more, u, hrun, hdangles⟩ := h
  exact ⟨e :: more, u, (runFrom_cons ..).mpr ⟨t, hstep, hrun⟩,
    fun hlive => hdangles (hlive.2 t hstep)⟩

theorem dangles_of_gone {s : State τ φ} (hgone : s.loop = none) (hpublished : s.published = true)
    (hbegun : s.owner ≠ .constructed) (hquit : s.owner.hasQuit = false) : Dangles s := by
  have hdestroying : ∀ s : State τ φ, s.loop = none → s.owner = .destroying → Dangles s := by
    intro s hgone howner
    exact dangles_of_access (e := .destructorQuits) (t := { s with owner := .quitting })
      (by simp [step, stepOwner, access, hgone, howner]) rfl hgone
  have hstarted : ∀ s : State τ φ, s.loop = none → s.owner = .started → Dangles s := by
    intro s hgone howner
    exact dangles_of_step (e := .destroy) (t := { s with owner := .destroying })
      (by simp [step, stepOwner, ownerOutside, hgone, howner]) (hdestroying _ hgone rfl)
  cases howner : s.owner with
  | constructed => exact absurd howner hbegun
  | starting =>
    exact dangles_of_step (e := .startReturns) (t := { s with owner := .started })
      (by simp [step, stepOwner, hpublished, howner]) (hstarted _ hgone rfl)
  | started => exact hstarted s hgone howner
  | destroying => exact hdestroying s hgone howner
  | quitting =>
    exact dangles_of_access (e := .destructorTests) (t := { s with owner := .waking })
      (by simp [step, stepOwner, howner]) rfl hgone
  | waking =>
    exact dangles_of_access (e := .destructorWakes) (t := { s with owner := .joining })
      (by simp [step, stepOwner, access, hgone, howner]) rfl hgone
  | joining | joined =>
    rw [howner] at hquit
    cases hquit

omit [DecidableEq τ] in
theorem of_leaves {s : State τ φ} {e : Event τ φ} (h : leaves s e = true) :
    e = .loop .testQuit ∧ ∃ l, s.loop = some l ∧ l.quit = true := by
  cases e with
  | loop e =>
    cases e with
    | testQuit => exact ⟨rfl, (Option.any_eq_true ..).mp h⟩
    | _ => cases h
  | _ => cases h

/-- As soon as `loop` has left its `while` early, the destructor can come too late. -/
theorem dangles_of_leaves_early {initCallBack : Bool} {events : List (Event τ φ)}
    {s t : State τ φ} {e : Event τ φ}
    (hrun : runFrom step (State.init initCallBack) events = some s)
    (hstep : step s e = some t) (hearly : ¬LeavesLate s e) : Dangles t := by
  have hs : Intact s :=
    runFrom_invariant (fun _ _ _ => step_intact) (intact_init initCallBack) hrun
  rw [LeavesLate, Classical.not_imp, Bool.not_eq_true] at hearly
  obtain ⟨hleaves, howner⟩ := hearly
  obtain ⟨rfl, l, hloop, hquit⟩ := of_leaves hleaves
  -- the test sends `loop` out of its `while`, and the thread can return at once
  obtain ⟨l₁, l', hloop₁, hmay, hl', rfl⟩ := stepLoop_cases hstep
  cases hloop.symm.trans hloop₁
  have hfunc : s.func = .looping := of_decide_eq_true hmay
  have hleft := left_of_testQuit hl' hquit
  have hpublished := hs.published.mpr (Or.inl hfunc)
  have hbegun := hs.begun (by rw [hfunc]; nofun)
  refine dangles_of_step (e := .threadReturns)
    (t := { s with loop := none, func := .returned }) ?_
    (dangles_of_gone rfl hpublished hbegun howner)
  simp [step, stepThread, hfunc, hleft]

end Matelib.EventLoopThread
