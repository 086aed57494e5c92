import Mathlib.Algebra.BigOperators.Group.Finset.Piecewise
import Mathlib.Algebra.Order.BigOperators.Group.Finset
import Mathlib.Data.Finset.Card
import Mathlib.Data.Fintype.Basic
import Mathlib.Data.Set.Subsingleton
import Mathlib.Logic.Function.Basic
import Matelib.Transition

/-!
# Monitors

Data behind a mutex, with a condition that threads wait for. The call `await` tests `ready` in a
loop around the wait on the condition. The call of an update changes the data and then wakes the
threads that wait, all of them, one, or none. Other threads may step between any two accesses, a
thread may also wake up without having been woken, and all this in any order.

Two facts about the updates are enough: `ready` is stable, and the update that makes it true wakes
whoever waits. Then `await` returns only when `ready` holds, nobody sleeps through it, and every
run ends, up to new calls and wake-ups for no reason, with all calls that can return returned.
-/

namespace Matelib

/-- Whom an update wakes up before it gives the mutex back. -/
inductive Wakes where
  | nobody
  | one
  | everybody

/-- `wakes` reads the data behind the update. -/
structure Monitor (σ υ : Type*) where
  ready : σ → Bool
  update : υ → σ → σ
  wakes : υ → σ → Wakes

namespace Monitor

open Transition

/-- Where a thread is: `arriving` to `passed` belong to `await`, and the others to an update. Those
that wait for the mutex are `arriving` and `calling`. -/
inductive Pc (υ : Type*) where
  | outside
  | arriving
  | testing
  | asleep
  | passed
  | calling (u : υ)
  | updating (u : υ)
  | waking (u : υ)
  | leaving

structure State (σ υ θ : Type*) where
  data : σ
  mutex : Option θ
  pc : θ → Pc υ

inductive Event (υ θ : Type*) where
  -- the calls
  | await (t : θ)
  | call (t : θ) (u : υ)
  -- the steps in a call; a wake-up for one thread names the thread, unless nobody waits
  | lock (t : θ)
  | test (t : θ)
  | update (t : θ)
  | wake (t : θ) (woken : Option θ)
  | unlock (t : θ)
  -- the wait on the condition returns without a wake-up
  | spurious (t : θ)

variable {σ υ θ : Type*}

def Pc.isAsleep : Pc υ → Bool
  | .asleep => true
  | _ => false

def Pc.holds : Pc υ → Bool
  | .testing | .passed | .updating _ | .waking _ | .leaving => true
  | _ => false

def Pc.awaits : Pc υ → Bool
  | .arriving | .testing | .asleep | .passed => true
  | _ => false

def Pc.woken : Pc υ → Pc υ
  | .asleep => .arriving
  | pc => pc

def Event.isSpurious : Event υ θ → Bool
  | .spurious _ => true
  | _ => false

/-- A step of a thread in a call that it has made. -/
def Event.isOwn : Event υ θ → Bool
  | .await _ | .call _ _ | .spurious _ => false
  | _ => true

theorem isSpurious_of_isOwn {e : Event υ θ} (he : e.isOwn = true) : e.isSpurious = false := by
  cases e with
  | spurious t => cases he
  | _ => rfl

def State.init (data : σ) : State σ υ θ := ⟨data, none, fun _ => .outside⟩

section Steps

variable [DecidableEq θ]

def State.go (s : State σ υ θ) (t : θ) (pc : Pc υ) : State σ υ θ :=
  { s with pc := Function.update s.pc t pc }

def State.enter (s : State σ υ θ) (t : θ) (pc : Pc υ) : State σ υ θ :=
  { s.go t pc with mutex := some t }

def State.exit (s : State σ υ θ) (t : θ) (pc : Pc υ) : State σ υ θ :=
  { s.go t pc with mutex := none }

@[simp] theorem pc_go_self (s : State σ υ θ) (t : θ) (pc : Pc υ) : (s.go t pc).pc t = pc :=
  Function.update_self ..

theorem pc_go (s : State σ υ θ) {t t' : θ} (ht : t' ≠ t) (pc : Pc υ) :
    (s.go t pc).pc t' = s.pc t' :=
  Function.update_of_ne ht ..

variable [Fintype θ]

def State.wake (s : State σ υ θ) : Wakes → Option θ → Option (State σ υ θ)
  | .nobody, _ => some s
  | .one, some t => if (s.pc t).isAsleep then some (s.go t .arriving) else none
  | .one, none => if ∀ t, (s.pc t).isAsleep = false then some s else none
  | .everybody, _ => some { s with pc := fun t => (s.pc t).woken }

def step (m : Monitor σ υ) (s : State σ υ θ) : Event υ θ → Option (State σ υ θ)
  | .await t =>
    match s.pc t with
    | .outside => some (s.go t .arriving)
    | _ => none
  | .call t u =>
    match s.pc t with
    | .outside => some (s.go t (.calling u))
    | _ => none
  | .lock t =>
    match s.mutex, s.pc t with
    | none, .arriving => some (s.enter t .testing)
    | none, .calling u => some (s.enter t (.updating u))
    | _, _ => none
  | .test t =>
    match s.pc t with
    | .testing =>
      -- the wait gives the mutex back in the same step
      if m.ready s.data then some (s.go t .passed) else some (s.exit t .asleep)
    | _ => none
  | .update t =>
    match s.pc t with
    | .updating u => some { s.go t (.waking u) with data := m.update u s.data }
    | _ => none
  | .wake t woken =>
    match s.pc t with
    | .waking u => (s.wake (m.wakes u s.data) woken).map fun s => s.go t .leaving
    | _ => none
  | .unlock t =>
    match s.pc t with
    | .passed | .leaving => some (s.exit t .outside)
    | _ => none
  | .spurious t =>
    match s.pc t with
    | .asleep => some (s.go t .arriving)
    | _ => none

inductive Move (m : Monitor σ υ) (s : State σ υ θ) : Event υ θ → State σ υ θ → Prop
  | await {t} (h : s.pc t = .outside) : Move m s (.await t) (s.go t .arriving)
  | call {t u} (h : s.pc t = .outside) : Move m s (.call t u) (s.go t (.calling u))
  | arrive {t} (h : s.pc t = .arriving) (hfree : s.mutex = none) :
    Move m s (.lock t) (s.enter t .testing)
  | enter {t u} (h : s.pc t = .calling u) (hfree : s.mutex = none) :
    Move m s (.lock t) (s.enter t (.updating u))
  | pass {t} (h : s.pc t = .testing) (hready : m.ready s.data = true) :
    Move m s (.test t) (s.go t .passed)
  | sleep {t} (h : s.pc t = .testing) (hready : m.ready s.data = false) :
    Move m s (.test t) (s.exit t .asleep)
  | update {t u} (h : s.pc t = .updating u) :
    Move m s (.update t) { s.go t (.waking u) with data := m.update u s.data }
  | wake {t u woken s'} (h : s.pc t = .waking u)
      (hwake : s.wake (m.wakes u s.data) woken = some s') :
    Move m s (.wake t woken) (s'.go t .leaving)
  | unlock {t} (h : s.pc t = .passed ∨ s.pc t = .leaving) :
    Move m s (.unlock t) (s.exit t .outside)
  | spurious {t} (h : s.pc t = .asleep) : Move m s (.spurious t) (s.go t .arriving)

variable {m : Monitor σ υ} {s s' : State σ υ θ} {t : θ}

theorem step_move {e : Event υ θ} (hstep : step m s e = some s') : Move m s e s' := by
  cases e with
  | await t =>
    cases hpc : s.pc t <;> simp only [step, hpc, reduceCtorEq, Option.some.injEq] at hstep
    exact hstep ▸ .await hpc
  | call t u =>
    cases hpc : s.pc t <;> simp only [step, hpc, reduceCtorEq, Option.some.injEq] at hstep
    exact hstep ▸ .call hpc
  | lock t =>
    cases hmutex : s.mutex with
    | some t' => simp only [step, hmutex, reduceCtorEq] at hstep
    | none =>
      cases hpc : s.pc t <;> simp only [step, hmutex, hpc, reduceCtorEq, Option.some.injEq] at hstep
      · exact hstep ▸ .arrive hpc hmutex
      · exact hstep ▸ .enter hpc hmutex
  | test t =>
    cases hpc : s.pc t <;> simp only [step, hpc, reduceCtorEq] at hstep
    cases hready : m.ready s.data with
    | true =>
      rw [hready, if_pos rfl, Option.some.injEq] at hstep
      exact hstep ▸ .pass hpc hready
    | false =>
      rw [hready, if_neg Bool.false_ne_true, Option.some.injEq] at hstep
      exact hstep ▸ .sleep hpc hready
  | update t =>
    cases hpc : s.pc t <;> simp only [step, hpc, reduceCtorEq, Option.some.injEq] at hstep
    exact hstep ▸ .update hpc
  | wake t woken =>
    cases hpc : s.pc t <;> simp only [step, hpc, reduceCtorEq, Option.map_eq_some_iff] at hstep
    obtain ⟨s₁, hwake, rfl⟩ := hstep
    exact .wake hpc hwake
  | unlock t =>
    cases hpc : s.pc t <;> simp only [step, hpc, reduceCtorEq, Option.some.injEq] at hstep
    · exact hstep ▸ .unlock (.inl hpc)
    · exact hstep ▸ .unlock (.inr hpc)
  | spurious t =>
    cases hpc : s.pc t <;> simp only [step, hpc, reduceCtorEq, Option.some.injEq] at hstep
    exact hstep ▸ .spurious hpc

/-- A wake-up changes nothing but the places of threads that sleep. -/
structure Woken (s s' : State σ υ θ) : Prop where
  data : s'.data = s.data
  mutex : s'.mutex = s.mutex
  pc : ∀ t, s'.pc t = s.pc t ∨ s.pc t = .asleep ∧ s'.pc t = .arriving

theorem isAsleep_iff {pc : Pc υ} : pc.isAsleep = true ↔ pc = .asleep := by
  cases pc <;> simp [Pc.isAsleep]

theorem wake_woken {k : Wakes} {woken : Option θ} (h : s.wake k woken = some s') : Woken s s' := by
  cases k with
  | nobody =>
    cases h
    exact ⟨rfl, rfl, fun t => .inl rfl⟩
  | one =>
    cases woken with
    | none =>
      cases (of_guard h).2
      exact ⟨rfl, rfl, fun t => .inl rfl⟩
    | some w =>
      obtain ⟨hw, rfl⟩ := of_guard h
      refine ⟨rfl, rfl, ?_⟩
      intro t
      by_cases ht : t = w
      · subst ht
        exact .inr ⟨isAsleep_iff.mp hw, Function.update_self ..⟩
      · exact .inl (Function.update_of_ne ht ..)
  | everybody =>
    cases h
    refine ⟨rfl, rfl, ?_⟩
    intro t
    cases hpc : s.pc t <;> simp [Pc.woken, hpc]

theorem wake_everybody {woken : Option θ} (h : s.wake .everybody woken = some s') (t : θ) :
    s'.pc t ≠ .asleep := by
  cases h
  intro hpc
  cases hold : s.pc t <;> simp [Pc.woken, hold] at hpc

theorem wake_one {woken : Option θ} (h : s.wake .one woken = some s')
    (halone : ∀ t t', s.pc t = .asleep → s.pc t' = .asleep → t = t') (t : θ) :
    s'.pc t ≠ .asleep := by
  intro hpc
  have hold : s.pc t = .asleep := by
    obtain heq | ⟨hold, -⟩ := (wake_woken h).pc t
    · exact heq ▸ hpc
    · exact hold
  cases woken with
  | none =>
    obtain ⟨hnobody, -⟩ := of_guard h
    exact Bool.false_ne_true ((hnobody t).symm.trans (isAsleep_iff.mpr hold))
  | some w =>
    obtain ⟨hw, rfl⟩ := of_guard h
    obtain rfl := halone t w hold (isAsleep_iff.mp hw)
    rw [pc_go_self] at hpc
    cases hpc

end Steps

variable {m : Monitor σ υ} {s s' : State σ υ θ} {t : θ}

/-- `ready` is stable, and an update that makes it true wakes the threads of `W` that wait. -/
structure Signals (m : Monitor σ υ) (W : Set θ) : Prop where
  stable : ∀ u d, m.ready d = true → m.ready (m.update u d) = true
  wakes : ∀ u d, m.ready d = false → m.ready (m.update u d) = true →
    m.wakes u (m.update u d) = .everybody ∨ m.wakes u (m.update u d) = .one ∧ W.Subsingleton

def AwaitedBy (W : Set θ) : Event υ θ → Prop
  | .await t => t ∈ W
  | _ => True

theorem awaitedBy_univ (e : Event υ θ) : AwaitedBy Set.univ e := by
  cases e <;> trivial

/-- The mutex is with the thread that is at a place where it has it. -/
def Locked (s : State σ υ θ) : Prop := ∀ t, s.mutex = some t ↔ (s.pc t).holds = true

/-- A thread sleeps while `ready` holds only as long as another one is about to wake it. -/
def Awake (m : Monitor σ υ) (W : Set θ) (s : State σ υ θ) : Prop :=
  ∀ t, s.pc t = .asleep → m.ready s.data = true →
    ∃ t' u, s.pc t' = .waking u ∧
      (m.wakes u s.data = .everybody ∨ m.wakes u s.data = .one ∧ W.Subsingleton)

structure Kept (m : Monitor σ υ) (W : Set θ) (s : State σ υ θ) : Prop where
  locked : Locked s
  waiters : ∀ t, (s.pc t).awaits = true → t ∈ W
  passed : ∀ t, s.pc t = .passed → m.ready s.data = true
  awake : Awake m W s

variable {W : Set θ} {pc : Pc υ}

theorem kept_init (data : σ) : Kept m W (State.init data : State σ υ θ) where
  locked t := by simp [State.init, Pc.holds]
  waiters t h := by cases h
  passed t h := by cases h
  awake t h := by cases h

theorem Locked.exclusive (h : Locked s) {t t' : θ} (ht : (s.pc t).holds = true)
    (ht' : (s.pc t').holds = true) : t = t' :=
  Option.some.inj (((h t).mpr ht).symm.trans ((h t').mpr ht'))

theorem Locked.go [DecidableEq θ] (h : Locked s) (hholds : pc.holds = (s.pc t).holds) :
    Locked (s.go t pc) := by
  intro t'
  by_cases ht : t' = t
  · subst ht
    rw [pc_go_self, hholds]
    exact h t'
  · rw [pc_go s ht]
    exact h t'

theorem Locked.enter [DecidableEq θ] (h : Locked s) (hfree : s.mutex = none)
    (hholds : pc.holds = true) : Locked (s.enter t pc) := by
  intro t'
  by_cases ht : t' = t
  · subst ht
    exact iff_of_true rfl ((congrArg Pc.holds (pc_go_self s t' pc)).trans hholds)
  · refine iff_of_false ?_ ?_
    · intro heq
      exact ht (Option.some.inj heq).symm
    · intro hold
      have hmutex := (h t').mpr ((congrArg Pc.holds (pc_go s ht pc)).symm.trans hold)
      cases hfree.symm.trans hmutex

theorem Locked.exit [DecidableEq θ] (h : Locked s) (hold : (s.pc t).holds = true)
    (hholds : pc.holds = false) : Locked (s.exit t pc) := by
  intro t'
  refine iff_of_false nofun ?_
  by_cases ht : t' = t
  · subst ht
    intro hnew
    cases hholds.symm.trans ((congrArg Pc.holds (pc_go_self s t' pc)).symm.trans hnew)
  · intro hnew
    exact ht (h.exclusive ((congrArg Pc.holds (pc_go s ht pc)).symm.trans hnew) hold)

theorem Kept.moved [DecidableEq θ] (h : Kept m W s) (hdata : s'.data = s.data)
    (hpc : s'.pc = Function.update s.pc t pc) (hlocked : Locked s')
    (hwaiter : pc.awaits = true → t ∈ W) (hpassed : pc = .passed → m.ready s.data = true)
    (hasleep : pc = .asleep → m.ready s.data = false) (hwaking : ∀ u, s.pc t ≠ .waking u) :
    Kept m W s' where
  locked := hlocked
  waiters t' ht' := by
    rw [hpc] at ht'
    by_cases ht : t' = t
    · subst ht
      rw [Function.update_self] at ht'
      exact hwaiter ht'
    · rw [Function.update_of_ne ht] at ht'
      exact h.waiters t' ht'
  passed t' ht' := by
    rw [hpc] at ht'
    rw [hdata]
    by_cases ht : t' = t
    · subst ht
      rw [Function.update_self] at ht'
      exact hpassed ht'
    · rw [Function.update_of_ne ht] at ht'
      exact h.passed t' ht'
  awake t' ht' hready := by
    rw [hpc] at ht'
    rw [hdata] at hready ⊢
    have hold : s.pc t' = .asleep := by
      by_cases ht : t' = t
      · subst ht
        rw [Function.update_self] at ht'
        cases (hasleep ht').symm.trans hready
      · rwa [Function.update_of_ne ht] at ht'
    obtain ⟨w, u, hw, hwakes⟩ := h.awake t' hold hready
    refine ⟨w, u, ?_, hwakes⟩
    rw [hpc, Function.update_of_ne, hw]
    rintro rfl
    exact hwaking u hw

theorem Kept.update [DecidableEq θ] (h : Kept m W s) (hm : Signals m W) {u : υ}
    (hpc : s.pc t = .updating u) :
    Kept m W { s.go t (.waking u) with data := m.update u s.data } where
  locked := h.locked.go (by rw [hpc]; rfl)
  waiters t' ht' := by
    by_cases ht : t' = t
    · subst ht
      cases (congrArg Pc.awaits (pc_go_self s t' (.waking u))).symm.trans ht'
    · exact h.waiters t' ((congrArg Pc.awaits (pc_go s ht _)).symm.trans ht')
  passed t' ht' := by
    by_cases ht : t' = t
    · subst ht
      cases (pc_go_self s t' (.waking u)).symm.trans ht'
    · exact hm.stable u s.data (h.passed t' ((pc_go s ht _).symm.trans ht'))
  awake t' ht' hready := by
    have ht : t' ≠ t := by
      rintro rfl
      cases (pc_go_self s t' (.waking u)).symm.trans ht'
    have hold : s.pc t' = .asleep := (pc_go s ht _).symm.trans ht'
    refine ⟨t, u, pc_go_self .., hm.wakes u s.data ?_ hready⟩
    rw [← Bool.not_eq_true]
    intro hearly
    -- the one who would wake `t'` has the mutex, and so it is `t`, which is in its update
    obtain ⟨w, v, hw, -⟩ := h.awake t' hold hearly
    have hwt : w = t := h.locked.exclusive (by rw [hw]; rfl) (by rw [hpc]; rfl)
    rw [hwt, hpc] at hw
    cases hw

theorem Woken.holds (h : Woken s s') (t : θ) : (s'.pc t).holds = (s.pc t).holds := by
  obtain heq | ⟨hold, hnew⟩ := h.pc t
  · rw [heq]
  · rw [hold, hnew]
    rfl

theorem Woken.awaits (h : Woken s s') (t : θ) : (s'.pc t).awaits = (s.pc t).awaits := by
  obtain heq | ⟨hold, hnew⟩ := h.pc t
  · rw [heq]
  · rw [hold, hnew]
    rfl

theorem Woken.eq_of_holds (h : Woken s s') (ht : (s.pc t).holds = true) : s'.pc t = s.pc t := by
  obtain heq | ⟨hold, -⟩ := h.pc t
  · exact heq
  · rw [hold] at ht
    cases ht

variable [DecidableEq θ] [Fintype θ]

theorem Kept.wake (h : Kept m W s) {u : υ} {woken : Option θ} (hpc : s.pc t = .waking u)
    (hwake : s.wake (m.wakes u s.data) woken = some s') : Kept m W (s'.go t .leaving) := by
  have hw := wake_woken hwake
  have hlocked : Locked s' := by
    intro t'
    rw [hw.mutex, hw.holds]
    exact h.locked t'
  have htold : s'.pc t = .waking u := by rw [hw.eq_of_holds (by rw [hpc]; rfl), hpc]
  refine ⟨hlocked.go (by rw [htold]; rfl), ?_, ?_, ?_⟩
  · intro t' ht'
    by_cases ht : t' = t
    · subst ht
      rw [pc_go_self] at ht'
      cases ht'
    · rw [pc_go s' ht, hw.awaits] at ht'
      exact h.waiters t' ht'
  · intro t' ht'
    by_cases ht : t' = t
    · subst ht
      rw [pc_go_self] at ht'
      cases ht'
    · rw [pc_go s' ht] at ht'
      have hready := h.passed t' (by
        obtain heq | ⟨-, hnew⟩ := hw.pc t'
        · exact heq ▸ ht'
        · cases hnew.symm.trans ht')
      exact (congrArg m.ready hw.data).trans hready
  · intro t' ht' hready
    have ht : t' ≠ t := by
      rintro rfl
      rw [pc_go_self] at ht'
      cases ht'
    rw [pc_go s' ht] at ht'
    have hold : s.pc t' = .asleep := by
      obtain heq | ⟨hold, -⟩ := hw.pc t'
      · exact heq ▸ ht'
      · exact hold
    obtain ⟨w, v, hwaking, hwakes⟩ :=
      h.awake t' hold ((congrArg m.ready hw.data).symm.trans hready)
    have hwt : w = t := h.locked.exclusive (by rw [hwaking]; rfl) (by rw [hpc]; rfl)
    rw [hwt, hpc] at hwaking
    cases hwaking
    obtain hall | ⟨hone, hW⟩ := hwakes
    · rw [hall] at hwake
      exact absurd ht' (wake_everybody hwake t')
    · rw [hone] at hwake
      refine absurd ht' (wake_one hwake ?_ t')
      intro t₁ t₂ h₁ h₂
      exact hW (h.waiters t₁ (by rw [h₁]; rfl)) (h.waiters t₂ (by rw [h₂]; rfl))

theorem step_kept (hm : Signals m W) {e : Event υ θ} (h : Kept m W s) (he : AwaitedBy W e)
    (hstep : step m s e = some s') : Kept m W s' := by
  cases step_move hstep with
  | await hpc =>
    exact h.moved rfl rfl (h.locked.go (by rw [hpc]; rfl)) (fun _ => he) nofun nofun
      (by rw [hpc]; nofun)
  | call hpc =>
    exact h.moved rfl rfl (h.locked.go (by rw [hpc]; rfl)) nofun nofun nofun (by rw [hpc]; nofun)
  | arrive hpc hfree =>
    exact h.moved rfl rfl (h.locked.enter hfree rfl) (fun _ => h.waiters _ (by rw [hpc]; rfl))
      nofun nofun (by rw [hpc]; nofun)
  | enter hpc hfree =>
    exact h.moved rfl rfl (h.locked.enter hfree rfl) nofun nofun nofun (by rw [hpc]; nofun)
  | pass hpc hready =>
    exact h.moved rfl rfl (h.locked.go (by rw [hpc]; rfl))
      (fun _ => h.waiters _ (by rw [hpc]; rfl)) (fun _ => hready) nofun (by rw [hpc]; nofun)
  | sleep hpc hready =>
    exact h.moved rfl rfl (h.locked.exit (by rw [hpc]; rfl) rfl)
      (fun _ => h.waiters _ (by rw [hpc]; rfl)) nofun (fun _ => hready) (by rw [hpc]; nofun)
  | update hpc => exact h.update hm hpc
  | wake hpc hwake => exact h.wake hpc hwake
  | unlock hpc =>
    obtain hpc | hpc := hpc
    · exact h.moved rfl rfl (h.locked.exit (by rw [hpc]; rfl) rfl) nofun nofun nofun
        (by rw [hpc]; nofun)
    · exact h.moved rfl rfl (h.locked.exit (by rw [hpc]; rfl) rfl) nofun nofun nofun
        (by rw [hpc]; nofun)
  | spurious hpc =>
    exact h.moved rfl rfl (h.locked.go (by rw [hpc]; rfl))
      (fun _ => h.waiters _ (by rw [hpc]; rfl)) nofun nofun (by rw [hpc]; nofun)

theorem run_kept (hm : Signals m W) {data : σ} {events : List (Event υ θ)}
    (hawaited : ∀ e ∈ events, AwaitedBy W e)
    (hrun : runFrom (step m) (State.init data) events = some s) : Kept m W s := by
  have hstep : ∀ (s : State σ υ θ) (e : Event υ θ) (s' : State σ υ θ), Kept m W s →
      AwaitedBy W e → step m s e = some s' → Kept m W s' :=
    fun _ _ _ h he hstep => step_kept hm h he hstep
  exact runFrom_invariant_along hstep (kept_init data) (along_of_forall hawaited) hrun

/-- No thread can go on in its call. -/
def Quiet (m : Monitor σ υ) (s : State σ υ θ) : Prop :=
  ∀ e : Event υ θ, e.isOwn = true → step m s e = none

theorem wake_possible (s : State σ υ θ) (k : Wakes) : ∃ woken, (s.wake k woken).isSome = true := by
  cases k with
  | nobody => exact ⟨none, rfl⟩
  | everybody => exact ⟨none, rfl⟩
  | one =>
    by_cases h : ∀ t, (s.pc t).isAsleep = false
    · exact ⟨none, by rw [State.wake, if_pos h]; rfl⟩
    · push Not at h
      obtain ⟨t, ht⟩ := h
      exact ⟨some t, by rw [State.wake, if_pos (by simpa using ht)]; rfl⟩

theorem Quiet.not_holds (h : Quiet m s) (t : θ) : (s.pc t).holds = false := by
  cases hpc : s.pc t with
  | testing =>
    have htest := h (.test t) rfl
    simp only [step, hpc] at htest
    split_ifs at htest
  | passed =>
    have hunlock := h (.unlock t) rfl
    simp only [step, hpc, reduceCtorEq] at hunlock
  | updating u =>
    have hupdate := h (.update t) rfl
    simp only [step, hpc, reduceCtorEq] at hupdate
  | waking u =>
    obtain ⟨woken, hwoken⟩ := wake_possible s (m.wakes u s.data)
    have hwake := h (.wake t woken) rfl
    simp only [step, hpc, Option.map_eq_none_iff] at hwake
    rw [hwake] at hwoken
    cases hwoken
  | leaving =>
    have hunlock := h (.unlock t) rfl
    simp only [step, hpc, reduceCtorEq] at hunlock
  | _ => rfl

/-- When no thread can go on, every call has returned, except that of threads which sleep because
`ready` does not hold. -/
theorem Kept.quiet (h : Kept m W s) (hquiet : Quiet m s) (t : θ) :
    s.pc t = .outside ∨ s.pc t = .asleep ∧ m.ready s.data = false := by
  have hfree : s.mutex = none := by
    rw [Option.eq_none_iff_forall_ne_some]
    intro t' ht'
    cases (hquiet.not_holds t').symm.trans ((h.locked t').mp ht')
  have hlock := hquiet (.lock t) rfl
  have hholds := hquiet.not_holds t
  cases hpc : s.pc t with
  | outside => exact .inl rfl
  | asleep =>
    refine .inr ⟨rfl, ?_⟩
    rw [← Bool.not_eq_true]
    intro hready
    obtain ⟨w, u, hw, -⟩ := h.awake t hpc hready
    have hnot := hquiet.not_holds w
    rw [hw] at hnot
    cases hnot
  | arriving => simp only [step, hfree, hpc, reduceCtorEq] at hlock
  | calling u => simp only [step, hfree, hpc, reduceCtorEq] at hlock
  | _ =>
    rw [hpc] at hholds
    cases hholds

theorem sum_of_pc (f : Pc υ → ℕ) (hpc : s'.pc = Function.update s.pc t pc) :
    ∑ t', f (s'.pc t') + f (s.pc t) = ∑ t', f (s.pc t') + f pc := by
  have hcomp : (fun t' => f (s'.pc t')) = Function.update (fun t' => f (s.pc t')) t (f pc) := by
    funext t'
    rw [hpc]
    exact Function.apply_update (fun _ pc => f pc) s.pc t pc t'
  rw [hcomp, Finset.sum_update_of_mem (Finset.mem_univ t), Finset.sdiff_singleton_eq_erase,
    ← Finset.add_sum_erase Finset.univ (fun t' => f (s.pc t')) (Finset.mem_univ t)]
  omega

/-- The steps that a thread still takes by itself. A thread in an update is also charged for the
`n` threads that it may wake, which come back from their sleep. -/
def Pc.rank (n : ℕ) : Pc υ → ℕ
  | .outside | .asleep => 0
  | .passed | .leaving => 1
  | .testing => 2
  | .arriving => 3
  | .waking _ => 3 * n + 2
  | .updating _ => 3 * n + 3
  | .calling _ => 3 * n + 4

def State.rank (s : State σ υ θ) : ℕ := ∑ t, (s.pc t).rank (Fintype.card θ)

/-- What an event may add to the steps of a run, itself included. -/
def Event.gain (n : ℕ) : Event υ θ → ℕ
  | .await _ | .spurious _ => 4
  | .call _ _ => 3 * n + 5
  | _ => 0

theorem rank_of_pc (hpc : s'.pc = Function.update s.pc t pc) :
    s'.rank + (s.pc t).rank (Fintype.card θ) = s.rank + pc.rank (Fintype.card θ) :=
  sum_of_pc _ hpc

omit [DecidableEq θ] in
theorem Woken.rank_le (h : Woken s s') : s'.rank ≤ s.rank + 3 * Fintype.card θ := by
  have hone : ∀ t ∈ Finset.univ,
      (s'.pc t).rank (Fintype.card θ) ≤ (s.pc t).rank (Fintype.card θ) + 3 := by
    intro t _
    obtain heq | ⟨-, hnew⟩ := h.pc t
    · rw [heq]
      omega
    · rw [hnew]
      exact Nat.le_add_left 3 _
  calc s'.rank ≤ ∑ t, ((s.pc t).rank (Fintype.card θ) + 3) := Finset.sum_le_sum hone
    _ = s.rank + 3 * Fintype.card θ := by
      rw [Finset.sum_add_distrib, Finset.sum_const_nat fun _ _ => rfl, Finset.card_univ, mul_comm]
      rfl

theorem pays_of_pc {gain : ℕ} (hpc : s'.pc = Function.update s.pc t pc)
    (hpays : pc.rank (Fintype.card θ) + 1 ≤ (s.pc t).rank (Fintype.card θ) + gain) :
    s'.rank + 1 ≤ s.rank + gain := by
  have hrank := rank_of_pc hpc
  omega

theorem step_pays {e : Event υ θ} (hstep : step m s e = some s') :
    s'.rank + 1 ≤ s.rank + e.gain (Fintype.card θ) := by
  cases step_move hstep with
  | await hpc => exact pays_of_pc rfl (by rw [hpc]; exact Nat.le_refl 4)
  | call hpc => exact pays_of_pc rfl (by simp only [hpc, Pc.rank, Event.gain]; omega)
  | arrive hpc => exact pays_of_pc rfl (by rw [hpc]; exact Nat.le_refl 3)
  | enter hpc => exact pays_of_pc rfl (by simp only [hpc, Pc.rank, Event.gain]; omega)
  | pass hpc => exact pays_of_pc rfl (by rw [hpc]; exact Nat.le_refl 2)
  | sleep hpc => exact pays_of_pc rfl (by rw [hpc]; exact Nat.le_succ 1)
  | update hpc => exact pays_of_pc rfl (by simp only [hpc, Pc.rank, Event.gain]; omega)
  | @wake t u woken s₁ hpc hwake =>
    -- the threads that it wakes have been paid for by the call
    have hw := wake_woken hwake
    have hle := hw.rank_le
    have hrank : (s₁.go t .leaving).rank + _ = _ := rank_of_pc rfl
    rw [hw.eq_of_holds (by rw [hpc]; rfl), hpc] at hrank
    simp only [Pc.rank, Event.gain] at hrank ⊢
    omega
  | unlock hpc =>
    obtain hpc | hpc := hpc
    · exact pays_of_pc rfl (by rw [hpc]; exact Nat.le_refl 1)
    · exact pays_of_pc rfl (by rw [hpc]; exact Nat.le_refl 1)
  | spurious hpc => exact pays_of_pc rfl (by rw [hpc]; exact Nat.le_refl 4)

theorem run_length_le {events : List (Event υ θ)} (hrun : runFrom (step m) s events = some s') :
    s'.rank + events.length ≤ s.rank + (events.map (Event.gain (Fintype.card θ))).sum := by
  have hpays : ∀ (s : State σ υ θ) (e : Event υ θ) (s' : State σ υ θ), True → True →
      step m s e = some s' → s'.rank + 1 ≤ s.rank + e.gain (Fintype.card θ) :=
    fun _ _ _ _ _ hstep => step_pays hstep
  have hpaid := runFrom_amortized (fun _ _ _ _ _ _ => trivial) hpays trivial (along_true ..) hrun
  rwa [List.map_const', List.sum_replicate_nat, mul_one] at hpaid

def Event.isCall : Event υ θ → Bool
  | .call _ _ => true
  | _ => false

def Event.isUpdate : Event υ θ → Bool
  | .update _ => true
  | _ => false

/-- The update of the call has not been made. -/
def Pc.due : Pc υ → ℕ
  | .calling _ | .updating _ => 1
  | _ => 0

def State.due (s : State σ υ θ) : ℕ := ∑ t, (s.pc t).due

theorem due_of_pc (hpc : s'.pc = Function.update s.pc t pc) :
    s'.due + (s.pc t).due = s.due + pc.due :=
  sum_of_pc _ hpc

omit [DecidableEq θ] in
theorem Woken.due_eq (h : Woken s s') : s'.due = s.due := by
  apply Finset.sum_congr rfl
  intro t _
  obtain heq | ⟨hold, hnew⟩ := h.pc t
  · rw [heq]
  · rw [hold, hnew]
    rfl

theorem step_due {e : Event υ θ} (hstep : step m s e = some s') :
    s'.due + (if e.isUpdate then 1 else 0) = s.due + if e.isCall then 1 else 0 := by
  have hone : ∀ {s' : State σ υ θ} {t : θ} {pc : Pc υ}, s'.pc = Function.update s.pc t pc →
      pc.due + (if e.isUpdate then 1 else 0) = (s.pc t).due + (if e.isCall then 1 else 0) →
      s'.due + (if e.isUpdate then 1 else 0) = s.due + if e.isCall then 1 else 0 := by
    intro s' t pc hpc hdue
    have hsum := due_of_pc hpc
    omega
  cases step_move hstep with
  | @wake t u woken s₁ hpc hwake =>
    have hw := wake_woken hwake
    have hsum : (s₁.go t .leaving).due + _ = _ := due_of_pc rfl
    rw [hw.eq_of_holds (by rw [hpc]; rfl), hpc, hw.due_eq] at hsum
    exact hsum
  | unlock hpc =>
    obtain hpc | hpc := hpc
    · exact hone rfl (by rw [hpc]; rfl)
    · exact hone rfl (by rw [hpc]; rfl)
  | await hpc => exact hone rfl (by rw [hpc]; rfl)
  | call hpc => exact hone rfl (by rw [hpc]; rfl)
  | arrive hpc => exact hone rfl (by rw [hpc]; rfl)
  | enter hpc => exact hone rfl (by rw [hpc]; rfl)
  | pass hpc => exact hone rfl (by rw [hpc]; rfl)
  | sleep hpc => exact hone rfl (by rw [hpc]; rfl)
  | update hpc => exact hone rfl (by rw [hpc]; rfl)
  | spurious hpc => exact hone rfl (by rw [hpc]; rfl)

theorem run_due {events : List (Event υ θ)} (hrun : runFrom (step m) s events = some s') :
    s'.due + events.countP Event.isUpdate = s.due + events.countP Event.isCall := by
  induction events generalizing s with
  | nil =>
    cases hrun
    rfl
  | cons e events ih =>
    obtain ⟨s₁, hstep, hrun⟩ := (runFrom_cons ..).mp hrun
    have hfirst := step_due hstep
    have hrest := ih hrun
    rw [List.countP_cons, List.countP_cons]
    omega

theorem Kept.due_eq_zero (h : Kept m W s) (hquiet : Quiet m s) : s.due = 0 := by
  apply Finset.sum_eq_zero
  intro t _
  obtain hpc | ⟨hpc, -⟩ := h.quiet hquiet t
  · rw [hpc]
    rfl
  · rw [hpc]
    rfl

/-- In which call a thread is; what it calls next is the business of its program. -/
inductive Kind where
  | outside
  | awaiting
  | updating
  deriving DecidableEq

def Pc.kind : Pc υ → Kind
  | .outside => .outside
  | .arriving | .testing | .asleep | .passed => .awaiting
  | .calling _ | .updating _ | .waking _ | .leaving => .updating

def Event.enters : Event υ θ → Option (θ × Kind)
  | .await t => some (t, .awaiting)
  | .call t _ => some (t, .updating)
  | .unlock t => some (t, .outside)
  | _ => none

def Event.kind (e : Event υ θ) (t : θ) (kind : Kind) : Kind :=
  match e.enters with
  | some (t', kind') => if t = t' then kind' else kind
  | none => kind

omit [Fintype θ] in
theorem kind_go (pc : Pc υ) (t' : θ) :
    ((s.go t pc).pc t').kind = if t' = t then pc.kind else (s.pc t').kind := by
  by_cases ht : t' = t
  · subst ht
    rw [pc_go_self, if_pos rfl]
  · rw [pc_go s ht, if_neg ht]

omit [DecidableEq θ] [Fintype θ] in
theorem Woken.kind_eq (h : Woken s s') (t : θ) : (s'.pc t).kind = (s.pc t).kind := by
  obtain heq | ⟨hold, hnew⟩ := h.pc t
  · rw [heq]
  · rw [hold, hnew]
    rfl

theorem step_kind {e : Event υ θ} (hstep : step m s e = some s') (t' : θ) :
    (s'.pc t').kind = e.kind t' (s.pc t').kind := by
  have hsame : ∀ {t : θ} {pc : Pc υ}, (s.pc t).kind = pc.kind →
      (if t' = t then pc.kind else (s.pc t').kind) = (s.pc t').kind := by
    intro t pc hkind
    split_ifs with ht
    · rw [ht, hkind]
    · rfl
  cases step_move hstep with
  | await hpc => exact kind_go ..
  | call hpc => exact kind_go ..
  | unlock hpc => exact kind_go ..
  | arrive hpc => exact (kind_go ..).trans (hsame (by rw [hpc]; rfl))
  | enter hpc => exact (kind_go ..).trans (hsame (by rw [hpc]; rfl))
  | pass hpc => exact (kind_go ..).trans (hsame (by rw [hpc]; rfl))
  | sleep hpc => exact (kind_go ..).trans (hsame (by rw [hpc]; rfl))
  | update hpc => exact (kind_go ..).trans (hsame (by rw [hpc]; rfl))
  | spurious hpc => exact (kind_go ..).trans (hsame (by rw [hpc]; rfl))
  | wake hpc hwake =>
    have hw := wake_woken hwake
    rw [kind_go, hw.kind_eq]
    exact hsame (by rw [hpc]; rfl)

theorem data_of_step {e : Event υ θ} (he : e.isUpdate = false) (hstep : step m s e = some s') :
    s'.data = s.data := by
  cases step_move hstep with
  | update hpc => cases he
  | wake hpc hwake => exact (wake_woken hwake).data
  | _ => rfl

theorem kind_of_unlock (hstep : step m s (.unlock t) = some s') : (s.pc t).kind ≠ .outside := by
  cases step_move hstep with
  | unlock hpc =>
    obtain hpc | hpc := hpc
    · rw [hpc]
      nofun
    · rw [hpc]
      nofun

theorem passed_of_unlock (hstep : step m s (.unlock t) = some s')
    (hkind : (s.pc t).kind = .awaiting) : s.pc t = .passed := by
  cases step_move hstep with
  | unlock hpc =>
    refine hpc.resolve_right ?_
    intro hpc
    rw [hpc] at hkind
    cases hkind

theorem leaving_of_unlock (hstep : step m s (.unlock t) = some s')
    (hkind : (s.pc t).kind = .updating) : s.pc t = .leaving := by
  cases step_move hstep with
  | unlock hpc =>
    refine hpc.resolve_left ?_
    intro hpc
    rw [hpc] at hkind
    cases hkind

theorem updating_of_update (hstep : step m s (.update t) = some s') :
    ∃ u, s.pc t = .updating u := by
  cases step_move hstep with
  | update hpc => exact ⟨_, hpc⟩

theorem due_of_kind {pc : Pc υ} (hkind : pc.kind ≠ .updating) : pc.due = 0 := by
  cases pc with
  | calling => exact absurd rfl hkind
  | updating => exact absurd rfl hkind
  | _ => rfl

end Monitor

end Matelib
