import Matelib.Transition
import Mathlib.Logic.Function.Basic

/-!
# The thread-local contexts of a server

An HTTP or RPC server keeps one context for each of its threads in a `ThreadLocal`, which the
callback of `EventLoopThreadPool::start` sets before the loop of the thread is known to anyone. The
members of the server are destroyed in the reverse order of their declaration: the `ThreadLocal`
deletes its key, and only then does the server stop its threads. So messages that are handled in
between find no context, and no context is ever deleted.
-/

namespace Matelib.ServerContexts

open Transition

/-- The threads that handle messages: that of the base loop, or those of the pool. -/
inductive Thread where
  | base
  | io (i : ℕ)
  deriving DecidableEq, Repr

/-- How far `threadFunc` has come in a thread of the pool. -/
inductive Phase where
  | unborn
  | starting
  | initialised
  | looping
  | exited
  deriving DecidableEq, Repr

/-- The server in the base thread: in `start`, in its loop, or in its destructor behind that of the
`ThreadLocal`. -/
inductive Place where
  | starting
  | serving
  | stopping
  deriving DecidableEq, Repr

/-- `found` are the messages handled so far, with the context that each has found. -/
structure State where
  key : Bool
  place : Place
  created : ℕ
  phase : ℕ → Phase
  specific : Thread → Option ℕ
  objects : ℕ
  deleted : List ℕ
  found : List (Thread × Option ℕ)

inductive Event where
  | create
  | initValue (i : ℕ)
  | publish (i : ℕ)
  | started
  | onMessage (t : Thread)
  | destroy
  | exit (i : ℕ)
  deriving DecidableEq, Repr

namespace State

def init : State := ⟨true, .starting, 0, fun _ => .unborn, fun _ => none, 0, [], []⟩

/-- `ThreadLocal::initValue` makes a new context. -/
def initValue (s : State) (t : Thread) : State :=
  { s with
    specific := Function.update s.specific t (some s.objects)
    objects := s.objects + 1 }

/-- `ThreadLocal::value`: behind the deletion of the key there is none. -/
def value (s : State) (t : Thread) : Option ℕ := if s.key then s.specific t else none

def setPhase (s : State) (i : ℕ) (phase : Phase) : State :=
  { s with phase := Function.update s.phase i phase }

/-- The end of a thread runs the destructor of the key, when there is a key. -/
def exit (s : State) (i : ℕ) : State :=
  { s.setPhase i .exited with
    deleted := s.deleted ++ if s.key then (s.specific (.io i)).toList else [] }

/-- Every `EventLoopThread::start` so far has returned. -/
def Returned (s : State) : Prop := ∀ i < s.created, s.phase i = .looping

instance (s : State) : Decidable s.Returned := inferInstanceAs (Decidable (∀ i < s.created, _))

/-- The thread runs a loop that connections may belong to. The base thread is in its loop, and not
in the destructor; the others run until they are joined. -/
def Serves (threadNum : ℕ) (s : State) : Thread → Prop
  | .base => threadNum = 0 ∧ s.place = .serving
  | .io i => i < threadNum ∧ s.phase i = .looping ∧ s.place ≠ .starting

instance (threadNum : ℕ) (s : State) : ∀ t, Decidable (s.Serves threadNum t)
  | .base => inferInstanceAs (Decidable (_ ∧ _))
  | .io _ => inferInstanceAs (Decidable (_ ∧ _))

end State

/-- The order in which the threads are joined is left open. -/
def step (threadNum : ℕ) (s : State) : Event → Option State
  | .create =>
    if s.place = .starting ∧ s.created < threadNum ∧ s.Returned then
      some { s.setPhase s.created .starting with created := s.created + 1 }
    else none
  | .initValue i =>
    if s.phase i = .starting then some ((s.initValue (.io i)).setPhase i .initialised) else none
  | .publish i => if s.phase i = .initialised then some (s.setPhase i .looping) else none
  | .started =>
    if s.place = .starting ∧ s.created = threadNum ∧ s.Returned then
      let s := if threadNum = 0 then s.initValue .base else s
      some { s with place := .serving }
    else none
  | .onMessage t =>
    if s.Serves threadNum t then some { s with found := s.found ++ [(t, s.value t)] } else none
  | .destroy =>
    if s.place = .serving then some { s with key := false, place := .stopping } else none
  | .exit i =>
    if s.place = .stopping ∧ s.phase i = .looping then some (s.exit i) else none

/-- A message is handled before the server destroys its members. -/
def Early (s : State) : Event → Prop
  | .onMessage _ => s.place ≠ .stopping
  | _ => True

instance (s : State) : DecidablePred (Early s)
  | .onMessage _ => inferInstanceAs (Decidable (_ ≠ _))
  | .create | .initValue _ | .publish _ | .started | .destroy | .exit _ => isTrue trivial

/-- `EventLoopThreadPool::start` waits for a thread before it makes the next one, so that all but
the last one are in their loops. -/
structure Course (threadNum : ℕ) (s : State) : Prop where
  key : s.key = true ↔ s.place ≠ .stopping
  bound : s.created ≤ threadNum
  unborn : ∀ i, s.phase i = .unborn ↔ s.created ≤ i
  earlier : ∀ i, i + 1 < s.created → s.phase i = .looping ∨ s.phase i = .exited
  complete : s.place ≠ .starting → ∀ i, s.phase i ≠ .starting ∧ s.phase i ≠ .initialised
  deleted : s.deleted = []

variable {threadNum : ℕ} {s s' : State} {e : Event}

theorem course_init (threadNum : ℕ) : Course threadNum State.init where
  key := by decide
  bound := Nat.zero_le threadNum
  unborn i := by simp [State.init]
  earlier i hi := absurd hi (by simp [State.init])
  complete h := absurd rfl h
  deleted := rfl

theorem Course.last (h : Course threadNum s) {i : ℕ}
    (hi : s.phase i = .starting ∨ s.phase i = .initialised) :
    s.place = .starting ∧ s.created = i + 1 := by
  have hplace : s.place = .starting := by
    by_contra hplace
    obtain ⟨h₁, h₂⟩ := h.complete hplace i
    exact hi.elim h₁ h₂
  have hborn : ¬s.created ≤ i := by
    rw [← h.unborn]
    rcases hi with hi | hi <;> simp [hi]
  have hlate : ¬i + 1 < s.created := by
    intro hlate
    rcases hi with hi | hi <;> simpa [hi] using h.earlier i hlate
  exact ⟨hplace, by omega⟩

theorem Course.setPhase (h : Course threadNum s) {i : ℕ} {phase : Phase} (hi : s.phase i ≠ .unborn)
    (hphase : phase ≠ .unborn)
    (hearlier : i + 1 < s.created → phase = .looping ∨ phase = .exited)
    (hplace : s.place ≠ .starting → phase ≠ .starting ∧ phase ≠ .initialised) :
    Course threadNum (s.setPhase i phase) where
  key := h.key
  bound := h.bound
  unborn j := by
    rcases eq_or_ne j i with rfl | hj
    · simpa [State.setPhase, hphase] using mt (h.unborn j).mpr hi
    · simpa [State.setPhase, hj] using h.unborn j
  earlier j hj := by
    rcases eq_or_ne j i with rfl | hne
    · simpa [State.setPhase] using hearlier hj
    · simpa [State.setPhase, hne] using h.earlier j hj
  complete hs j := by
    rcases eq_or_ne j i with rfl | hne
    · simpa [State.setPhase] using hplace hs
    · simpa [State.setPhase, hne] using h.complete hs j
  deleted := h.deleted

theorem Course.initValue (h : Course threadNum s) (t : Thread) :
    Course threadNum (s.initValue t) :=
  ⟨h.key, h.bound, h.unborn, h.earlier, h.complete, h.deleted⟩

theorem Course.step (h : Course threadNum s) (hstep : step threadNum s e = some s') :
    Course threadNum s' := by
  cases e with
  | create =>
    obtain ⟨⟨hplace, hcreated, hreturned⟩, rfl⟩ := of_guard hstep
    refine ⟨h.key, hcreated, ?_, ?_, fun hs => absurd hplace hs, h.deleted⟩
    · intro i
      rcases eq_or_ne i s.created with rfl | hi
      · simp [State.setPhase]
      · simp only [State.setPhase, Function.update_of_ne hi, h.unborn]
        omega
    · intro i hi
      have hne : i ≠ s.created := by
        simp only at hi
        omega
      left
      simp only [State.setPhase, Function.update_of_ne hne]
      exact hreturned i (by simp only at hi; omega)
  | initValue i =>
    obtain ⟨hi, rfl⟩ := of_guard hstep
    obtain ⟨hplace, hlast⟩ := h.last (.inl hi)
    apply (h.initValue (.io i)).setPhase
    · simp [State.initValue, hi]
    · decide
    · intro hlate
      exact absurd hlast (Nat.ne_of_gt hlate)
    · intro hs
      exact absurd hplace hs
  | publish i =>
    obtain ⟨hi, rfl⟩ := of_guard hstep
    exact h.setPhase (by simp [hi]) (by decide) (fun _ => .inl rfl) fun _ => by decide
  | started =>
    obtain ⟨⟨hplace, hcreated, hreturned⟩, rfl⟩ := of_guard hstep
    have hcomplete : ∀ i, s.phase i ≠ .starting ∧ s.phase i ≠ .initialised := by
      intro i
      rcases Nat.lt_or_ge i s.created with hi | hi
      · simp [hreturned i hi]
      · simp [(h.unborn i).mpr hi]
    have hkey := h.key.mpr (by simp [hplace])
    split_ifs
    · exact ⟨by simp [State.initValue, hkey], h.bound, h.unborn, h.earlier, fun _ => hcomplete,
        h.deleted⟩
    · exact ⟨by simp [hkey], h.bound, h.unborn, h.earlier, fun _ => hcomplete, h.deleted⟩
  | onMessage t =>
    obtain ⟨-, rfl⟩ := of_guard hstep
    exact ⟨h.key, h.bound, h.unborn, h.earlier, h.complete, h.deleted⟩
  | destroy =>
    obtain ⟨hplace, rfl⟩ := of_guard hstep
    exact ⟨by simp, h.bound, h.unborn, h.earlier, fun _ => h.complete (by simp [hplace]),
      h.deleted⟩
  | exit i =>
    obtain ⟨⟨hplace, hi⟩, rfl⟩ := of_guard hstep
    have hkey : s.key = false := by simpa [hplace] using h.key
    have hmoved : Course threadNum (s.setPhase i .exited) :=
      h.setPhase (by simp [hi]) (by decide) (fun _ => .inr rfl) fun _ => by decide
    exact ⟨hmoved.key, hmoved.bound, hmoved.unborn, hmoved.earlier, hmoved.complete,
      by simp [State.exit, hkey, h.deleted]⟩

/-- The contexts of the threads are apart, every thread has one before it runs its loop, and a
message that finds a context finds that of its thread. -/
structure Contexts (threadNum : ℕ) (s : State) : Prop where
  own : ∀ i, s.phase i = .initialised ∨ s.phase i = .looping → s.specific (.io i) ≠ none
  fresh : ∀ i, s.phase i = .unborn ∨ s.phase i = .starting → s.specific (.io i) = none
  ownBase : s.place ≠ .starting → threadNum = 0 → s.specific .base ≠ none
  freshBase : s.place = .starting → s.specific .base = none
  below : ∀ t o, s.specific t = some o → o < s.objects
  apart : ∀ t u o, s.specific t = some o → s.specific u = some o → t = u
  found : ∀ p ∈ s.found, ∀ o, p.2 = some o → s.specific p.1 = some o

theorem contexts_init (threadNum : ℕ) : Contexts threadNum State.init where
  own i h := absurd h (by simp [State.init])
  fresh i _ := rfl
  ownBase h := absurd rfl h
  freshBase _ := rfl
  below t o h := absurd h (by simp [State.init])
  apart t u o h := absurd h (by simp [State.init])
  found p h := absurd h (by simp [State.init])

theorem Contexts.setPhase (h : Contexts threadNum s) {i : ℕ} {phase : Phase}
    (hown : phase = .initialised ∨ phase = .looping → s.specific (.io i) ≠ none)
    (hfresh : phase = .unborn ∨ phase = .starting → s.specific (.io i) = none) :
    Contexts threadNum (s.setPhase i phase) where
  own j := by
    rcases eq_or_ne j i with rfl | hj
    · simpa [State.setPhase] using hown
    · simpa [State.setPhase, hj] using h.own j
  fresh j := by
    rcases eq_or_ne j i with rfl | hj
    · simpa [State.setPhase] using hfresh
    · simpa [State.setPhase, hj] using h.fresh j
  ownBase := h.ownBase
  freshBase := h.freshBase
  below := h.below
  apart := h.apart
  found := h.found

/-! `initValue` gives a context to a thread that has none, and takes it from no other. -/

theorem initValue_below (h : ∀ t o, s.specific t = some o → o < s.objects) (u t : Thread) (o : ℕ)
    (ho : (s.initValue u).specific t = some o) : o < (s.initValue u).objects := by
  rcases eq_or_ne t u with rfl | ht
  · simp [State.initValue] at ho ⊢
    omega
  · have hlt := h t o (by simpa [State.initValue, ht] using ho)
    exact Nat.lt_succ_of_lt hlt

theorem initValue_apart (h : Contexts threadNum s) (t u v : Thread) (o : ℕ)
    (hu : (s.initValue t).specific u = some o) (hv : (s.initValue t).specific v = some o) :
    u = v := by
  rcases eq_or_ne u t with rfl | hut <;> rcases eq_or_ne v u with rfl | hvu
  · rfl
  · have ho : s.objects = o := by simpa [State.initValue] using hu
    have hlt := h.below v o (by simpa [State.initValue, hvu] using hv)
    omega
  · rfl
  · rcases eq_or_ne v t with rfl | hvt
    · have ho : s.objects = o := by simpa [State.initValue] using hv
      have hlt := h.below u o (by simpa [State.initValue, hut] using hu)
      omega
    · exact h.apart u v o (by simpa [State.initValue, hut] using hu)
        (by simpa [State.initValue, hvt] using hv)

theorem initValue_keeps {t : Thread} (ht : s.specific t = none) {u : Thread} {o : ℕ}
    (hu : s.specific u = some o) : (s.initValue t).specific u = some o := by
  have hne : u ≠ t := by
    rintro rfl
    simp [ht] at hu
  simpa [State.initValue, hne] using hu

theorem Contexts.step (h : Contexts threadNum s) (hcourse : Course threadNum s)
    (hstep : step threadNum s e = some s') : Contexts threadNum s' := by
  cases e with
  | create =>
    obtain ⟨-, rfl⟩ := of_guard hstep
    have hnone := h.fresh s.created (.inl ((hcourse.unborn s.created).mpr (Nat.le_refl _)))
    have hmoved : Contexts threadNum (s.setPhase s.created .starting) :=
      h.setPhase (by simp) fun _ => hnone
    exact ⟨hmoved.own, hmoved.fresh, hmoved.ownBase, hmoved.freshBase, hmoved.below, hmoved.apart,
      hmoved.found⟩
  | initValue i =>
    obtain ⟨hi, rfl⟩ := of_guard hstep
    have hnone := h.fresh i (.inr hi)
    refine ⟨?_, ?_, ?_, ?_, initValue_below h.below (.io i), initValue_apart h (.io i), ?_⟩
    · intro j hj
      rcases eq_or_ne j i with rfl | hne
      · simp [State.setPhase, State.initValue]
      · have hj := h.own j (by simpa [State.setPhase, State.initValue, hne] using hj)
        simpa [State.setPhase, State.initValue, hne] using hj
    · intro j hj
      rcases eq_or_ne j i with rfl | hne
      · simp [State.setPhase] at hj
      · have hj := h.fresh j (by simpa [State.setPhase, State.initValue, hne] using hj)
        simpa [State.setPhase, State.initValue, hne] using hj
    · intro hs
      exact absurd (hcourse.last (.inl hi)).1 hs
    · simpa [State.setPhase, State.initValue] using h.freshBase
    · intro p hp o ho
      exact initValue_keeps hnone (h.found p hp o ho)
  | publish i =>
    obtain ⟨hi, rfl⟩ := of_guard hstep
    exact h.setPhase (fun _ => h.own i (.inl hi)) (by simp)
  | started =>
    obtain ⟨⟨hplace, -, -⟩, rfl⟩ := of_guard hstep
    split_ifs with hzero
    · refine ⟨?_, ?_, ?_, ?_, initValue_below h.below .base, initValue_apart h .base, ?_⟩
      · simpa [State.initValue] using h.own
      · simpa [State.initValue] using h.fresh
      · simp [State.initValue]
      · intro hs
        cases hs
      · intro p hp o ho
        exact initValue_keeps (h.freshBase hplace) (h.found p hp o ho)
    · exact ⟨h.own, h.fresh, fun _ h₀ => absurd h₀ hzero, (nomatch ·), h.below, h.apart, h.found⟩
  | onMessage t =>
    obtain ⟨-, rfl⟩ := of_guard hstep
    refine ⟨h.own, h.fresh, h.ownBase, h.freshBase, h.below, h.apart, ?_⟩
    intro p hp o ho
    rcases List.mem_append.mp hp with hp | hp
    · exact h.found p hp o ho
    · cases List.mem_singleton.mp hp
      by_cases hkey : s.key <;> simp [State.value, hkey] at ho
      exact ho
  | destroy =>
    obtain ⟨hplace, rfl⟩ := of_guard hstep
    exact ⟨h.own, h.fresh, fun _ => h.ownBase (by simp [hplace]), (nomatch ·), h.below, h.apart,
      h.found⟩
  | exit i =>
    obtain ⟨-, rfl⟩ := of_guard hstep
    have hmoved : Contexts threadNum (s.setPhase i .exited) := h.setPhase (by simp) (by simp)
    exact ⟨hmoved.own, hmoved.fresh, hmoved.ownBase, hmoved.freshBase, hmoved.below, hmoved.apart,
      hmoved.found⟩

theorem Contexts.serving (h : Contexts threadNum s) {t : Thread} (ht : s.Serves threadNum t) :
    s.specific t ≠ none := by
  cases t with
  | base => exact h.ownBase (by simp [ht.2]) ht.1
  | io i => exact h.own i (.inr ht.2.1)

/-- While the server starts, the last thread may not have made its context yet. -/
structure Counted (threadNum : ℕ) (s : State) : Prop where
  sofar : s.place = .starting →
    s.objects + (if s.phase (s.created - 1) = .starting then 1 else 0) = s.created
  total : s.place ≠ .starting → s.objects = max threadNum 1

theorem counted_init (threadNum : ℕ) : Counted threadNum State.init :=
  ⟨fun _ => rfl, fun h => absurd rfl h⟩

theorem Counted.returned (h : Counted threadNum s) (hcourse : Course threadNum s)
    (hplace : s.place = .starting) (hreturned : s.Returned) : s.objects = s.created := by
  have hphase : s.phase (s.created - 1) ≠ .starting := by
    intro hphase
    have hlast := (hcourse.last (.inl hphase)).2
    have hloop := hreturned (s.created - 1) (by omega)
    simp [hphase] at hloop
  simpa [hphase] using h.sofar hplace

theorem Counted.step (h : Counted threadNum s) (hcourse : Course threadNum s)
    (hstep : step threadNum s e = some s') : Counted threadNum s' := by
  cases e with
  | create =>
    obtain ⟨⟨hplace, -, hreturned⟩, rfl⟩ := of_guard hstep
    have hobjects := h.returned hcourse hplace hreturned
    exact ⟨by simp [State.setPhase, hobjects], fun hs => absurd hplace hs⟩
  | initValue i =>
    obtain ⟨hi, rfl⟩ := of_guard hstep
    obtain ⟨hplace, hlast⟩ := hcourse.last (.inl hi)
    have hsofar := h.sofar hplace
    simp only [hlast, Nat.add_sub_cancel, hi, if_true] at hsofar
    exact ⟨by simp [State.setPhase, State.initValue, hlast, hsofar], fun hs => absurd hplace hs⟩
  | publish i =>
    obtain ⟨hi, rfl⟩ := of_guard hstep
    obtain ⟨hplace, hlast⟩ := hcourse.last (.inr hi)
    have hsofar := h.sofar hplace
    simp only [hlast, Nat.add_sub_cancel, hi, reduceCtorEq, if_false] at hsofar
    exact ⟨by simp [State.setPhase, hlast, hsofar], fun hs => absurd hplace hs⟩
  | started =>
    obtain ⟨⟨hplace, hcreated, hreturned⟩, rfl⟩ := of_guard hstep
    have hobjects := h.returned hcourse hplace hreturned
    refine ⟨(nomatch ·), fun _ => ?_⟩
    split_ifs with hzero <;> simp [State.initValue] <;> omega
  | onMessage t =>
    obtain ⟨-, rfl⟩ := of_guard hstep
    exact ⟨h.sofar, h.total⟩
  | destroy =>
    obtain ⟨hplace, rfl⟩ := of_guard hstep
    exact ⟨(nomatch ·), fun _ => h.total (by simp [hplace])⟩
  | exit i =>
    obtain ⟨⟨hplace, -⟩, rfl⟩ := of_guard hstep
    have hs : s.place ≠ .starting := by simp [hplace]
    exact ⟨fun hs' => absurd hs' hs, fun _ => h.total hs⟩

/-- The invariant of a server, from its start to the end of its threads. -/
structure Sound (threadNum : ℕ) (s : State) : Prop where
  course : Course threadNum s
  contexts : Contexts threadNum s
  counted : Counted threadNum s

theorem sound_init (threadNum : ℕ) : Sound threadNum State.init :=
  ⟨course_init threadNum, contexts_init threadNum, counted_init threadNum⟩

theorem Sound.step (h : Sound threadNum s) (hstep : step threadNum s e = some s') :
    Sound threadNum s' :=
  ⟨h.course.step hstep, h.contexts.step h.course hstep, h.counted.step h.course hstep⟩

theorem sound_of_run {events : List Event}
    (hrun : runFrom (step threadNum) State.init events = some s) : Sound threadNum s :=
  runFrom_invariant (fun _ _ _ hs hstep => Sound.step hs hstep) (sound_init threadNum) hrun

def AllFound (s : State) : Prop := ∀ p ∈ s.found, p.2 ≠ none

theorem step_found (h : Sound threadNum s) (hstep : step threadNum s e = some s') :
    AllFound s' ↔ AllFound s ∧ Early s e := by
  cases e with
  | onMessage t =>
    obtain ⟨ht, rfl⟩ := of_guard hstep
    have hvalue : s.value t ≠ none ↔ s.place ≠ .stopping := by
      rw [← h.course.key]
      simp [State.value, h.contexts.serving ht]
    simp only [AllFound, Early, List.forall_mem_append, List.forall_mem_singleton, hvalue]
  | started =>
    obtain ⟨-, rfl⟩ := of_guard hstep
    split_ifs <;> exact (and_iff_left trivial).symm
  | create | initValue i | publish i | destroy | exit i =>
    obtain ⟨-, rfl⟩ := of_guard hstep
    exact (and_iff_left trivial).symm

/-- Exactly when no message is handled behind the deletion of the key, every message finds a
context. Two that find one find the same when they are handled in the same thread, and otherwise
two different ones. -/
theorem contexts_found {events : List Event}
    (hrun : runFrom (step threadNum) State.init events = some s) :
    (AllFound s ↔ Along (step threadNum) Early State.init events) ∧
      ∀ p ∈ s.found, ∀ q ∈ s.found, p.2 ≠ none → q.2 ≠ none → (p.2 = q.2 ↔ p.1 = q.1) := by
  constructor
  · have hinit : AllFound State.init := by simp [AllFound, State.init]
    rw [end_iff_along (fun _ _ _ hs _ => Sound.step hs) (fun _ _ _ hs _ => step_found hs)
      (sound_init threadNum) (along_true _ _ _) hrun]
    exact and_iff_right hinit
  · have hsound := sound_of_run hrun
    rintro ⟨t, o⟩ hp ⟨u, o'⟩ hq ho ho'
    obtain ⟨o, rfl⟩ := Option.ne_none_iff_exists'.mp ho
    obtain ⟨o', rfl⟩ := Option.ne_none_iff_exists'.mp ho'
    have ht := hsound.contexts.found _ hp o rfl
    have hu := hsound.contexts.found _ hq o' rfl
    constructor
    · intro heq
      cases heq
      exact hsound.contexts.apart t u o ht hu
    · rintro rfl
      exact ht.symm.trans hu

/-- Two threads, one of which handles a message between the deletion of the key and its end. -/
def lateRun : List Event :=
  [.create, .initValue 0, .publish 0, .create, .initValue 1, .publish 1, .started,
    .onMessage (.io 1), .onMessage (.io 0), .onMessage (.io 1), .destroy, .exit 0,
    .onMessage (.io 1), .exit 1]

theorem lateRun_misses :
    ∃ s, runFrom (step 2) State.init lateRun = some s ∧ ¬AllFound s ∧
      s.found.map Prod.snd = [some 1, some 0, some 1, none] := by
  obtain ⟨s, hrun⟩ : ∃ s, runFrom (step 2) State.init lateRun = some s := ⟨_, rfl⟩
  refine ⟨s, hrun, mt (contexts_found hrun).1.mp (by decide), ?_⟩
  cases hrun
  rfl

/-- No context is ever deleted: the key is gone when a thread comes to its end. There is one for
each thread from the moment the server serves. -/
theorem contexts_leak {events : List Event}
    (hrun : runFrom (step threadNum) State.init events = some s) (hplace : s.place ≠ .starting) :
    s.deleted = [] ∧ s.objects = max threadNum 1 :=
  ⟨(sound_of_run hrun).course.deleted, (sound_of_run hrun).counted.total hplace⟩

theorem lateRun_leaks :
    ∃ s, runFrom (step 2) State.init lateRun = some s ∧ s.phase 0 = .exited ∧
      s.phase 1 = .exited ∧ s.deleted = [] ∧ s.objects = 2 := by
  obtain ⟨s, hrun⟩ : ∃ s, runFrom (step 2) State.init lateRun = some s := ⟨_, rfl⟩
  have hplace : s.place ≠ .starting := by
    cases hrun
    decide
  refine ⟨s, hrun, ?_, ?_, contexts_leak hrun hplace⟩ <;> cases hrun <;> rfl

end Matelib.ServerContexts
