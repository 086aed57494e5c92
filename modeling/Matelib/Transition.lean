import Mathlib.Algebra.BigOperators.Group.List.Basic
import Mathlib.Algebra.Ring.Nat
import Mathlib.Data.List.Basic
import Mathlib.Data.Option.Basic
import Mathlib.Tactic.SplitIfs

/-!
# Runs of partial step functions

A labelled system is given by `step : σ → ℓ → Option σ`, where `none` means that the label is
not enabled. `runFrom` executes a list of labels, and `Along` states a condition that every step
of such a run meets. The rules lift facts about one step to all runs: invariants, invariants of
guarded runs, and refinement of a second system.
-/

namespace Matelib.Transition

variable {σ τ ℓ : Type*}

def runFrom (step : σ → ℓ → Option σ) : σ → List ℓ → Option σ
  | s, [] => some s
  | s, l :: ls => (step s l).bind fun t => runFrom step t ls

theorem runFrom_cons (step : σ → ℓ → Option σ) (s u : σ) (l : ℓ) (ls : List ℓ) :
    runFrom step s (l :: ls) = some u ↔ ∃ t, step s l = some t ∧ runFrom step t ls = some u := by
  simp only [runFrom, Option.bind_eq_some_iff]

/-- The rule for a step with one guard. -/
theorem of_guard {p : Prop} [Decidable p] {s t : σ}
    (h : (if p then some s else none) = some t) : p ∧ t = s := by
  split_ifs at h with hp
  cases h
  exact ⟨hp, rfl⟩

/-- Every step of the run of `ls` from `s` starts in a state and with a label related by `P`. -/
def Along (step : σ → ℓ → Option σ) (P : σ → ℓ → Prop) : σ → List ℓ → Prop
  | _, [] => True
  | s, l :: ls => P s l ∧ ∀ t, step s l = some t → Along step P t ls

instance decidableAlong (step : σ → ℓ → Option σ) (P : σ → ℓ → Prop) [∀ s l, Decidable (P s l)] :
    ∀ s ls, Decidable (Along step P s ls)
  | _, [] => isTrue trivial
  | s, l :: ls =>
    match h : step s l with
    | none => decidable_of_iff (P s l) (by simp [Along, h])
    | some t =>
      have := decidableAlong step P t ls
      decidable_of_iff (P s l ∧ Along step P t ls) (by simp [Along, h])

theorem runFrom_append {step : σ → ℓ → Option σ} {s t : σ} {ls : List ℓ}
    (h : runFrom step s ls = some t) (ms : List ℓ) :
    runFrom step s (ls ++ ms) = runFrom step t ms := by
  induction ls generalizing s with
  | nil => cases h; rfl
  | cons l ls ih =>
    obtain ⟨u, hu, h⟩ := (runFrom_cons ..).mp h
    rw [List.cons_append, runFrom, hu, Option.bind_some, ih h]

/-- A run that reaches its end has reached the end of its first part. -/
theorem runFrom_append_eq_some {step : σ → ℓ → Option σ} {s u : σ} {ls ms : List ℓ} :
    runFrom step s (ls ++ ms) = some u ↔
      ∃ t, runFrom step s ls = some t ∧ runFrom step t ms = some u := by
  cases h : runFrom step s ls with
  | some t =>
    rw [runFrom_append h]
    simp
  | none =>
    refine iff_of_false ?_ (by simp)
    intro hu
    induction ls generalizing s with
    | nil => cases h
    | cons l ls ih =>
      obtain ⟨t, ht, hu⟩ := (runFrom_cons ..).mp hu
      rw [runFrom, ht, Option.bind_some] at h
      exact ih h hu

theorem along_append {step : σ → ℓ → Option σ} {P : σ → ℓ → Prop} {s t : σ} {ls ms : List ℓ}
    (h : runFrom step s ls = some t) :
    Along step P s (ls ++ ms) ↔ Along step P s ls ∧ Along step P t ms := by
  induction ls generalizing s with
  | nil =>
    cases h
    exact (and_iff_right trivial).symm
  | cons l ls ih =>
    obtain ⟨u, hu, h⟩ := (runFrom_cons ..).mp h
    rw [List.cons_append, Along, Along, and_assoc]
    apply and_congr_right
    intro _
    constructor
    · intro hrest
      obtain ⟨hls, hms⟩ := (ih h).mp (hrest u hu)
      refine ⟨?_, hms⟩
      intro v hv
      cases hu.symm.trans hv
      exact hls
    · rintro ⟨hls, hms⟩ v hv
      cases hu.symm.trans hv
      exact (ih h).mpr ⟨hls u hu, hms⟩

/-- An invariant kept by every step that meets the guard holds at the end of a guarded run. -/
theorem runFrom_invariant_along {step : σ → ℓ → Option σ} {P : σ → ℓ → Prop} {I : σ → Prop}
    (hstep : ∀ s l t, I s → P s l → step s l = some t → I t) {s t : σ} {ls : List ℓ}
    (hs : I s) (hP : Along step P s ls) (hrun : runFrom step s ls = some t) : I t := by
  induction ls generalizing s with
  | nil => cases hrun; exact hs
  | cons l ls ih =>
    obtain ⟨u, hu, hrun⟩ := (runFrom_cons ..).mp hrun
    exact ih (hstep s l u hs hP.1 hu) (hP.2 u hu) hrun

theorem along_true (step : σ → ℓ → Option σ) (s : σ) (ls : List ℓ) :
    Along step (fun _ _ => True) s ls := by
  induction ls generalizing s with
  | nil => trivial
  | cons l ls ih => exact ⟨trivial, fun t _ => ih t⟩

theorem along_cons {step : σ → ℓ → Option σ} {P : σ → ℓ → Prop} {s t : σ} {l : ℓ} {ls : List ℓ}
    (hP : P s l) (hstep : step s l = some t) (h : Along step P t ls) :
    Along step P s (l :: ls) := by
  refine ⟨hP, ?_⟩
  intro u hu
  cases hstep.symm.trans hu
  exact h

theorem along_and {step : σ → ℓ → Option σ} {P Q : σ → ℓ → Prop} {s : σ} {ls : List ℓ}
    (hP : Along step P s ls) (hQ : Along step Q s ls) :
    Along step (fun s l => P s l ∧ Q s l) s ls := by
  induction ls generalizing s with
  | nil => trivial
  | cons l ls ih => exact ⟨⟨hP.1, hQ.1⟩, fun t ht => ih (hP.2 t ht) (hQ.2 t ht)⟩

/-- What every guarded step meets under an invariant, a guarded run meets all along. -/
theorem along_of_invariant {step : σ → ℓ → Option σ} {P Q : σ → ℓ → Prop} {I : σ → Prop}
    (hQ : ∀ s l, I s → P s l → Q s l)
    (hstep : ∀ s l t, I s → P s l → step s l = some t → I t) {s : σ} {ls : List ℓ}
    (hs : I s) (hP : Along step P s ls) : Along step Q s ls := by
  induction ls generalizing s with
  | nil => trivial
  | cons l ls ih =>
    refine ⟨hQ s l hs hP.1, ?_⟩
    intro t ht
    exact ih (hstep s l t hs hP.1 ht) (hP.2 t ht)

theorem along_of_forall {step : σ → ℓ → Option σ} {P : ℓ → Prop} {s : σ} {ls : List ℓ}
    (h : ∀ l ∈ ls, P l) : Along step (fun _ l => P l) s ls := by
  induction ls generalizing s with
  | nil => trivial
  | cons l ls ih =>
    constructor
    · exact h l List.mem_cons_self
    · intro t _
      exact ih fun m hm => h m (List.mem_cons_of_mem l hm)

theorem runFrom_invariant {step : σ → ℓ → Option σ} {I : σ → Prop}
    (hstep : ∀ s l t, I s → step s l = some t → I t) {s t : σ} {ls : List ℓ}
    (hs : I s) (hrun : runFrom step s ls = some t) : I t :=
  runFrom_invariant_along (P := fun _ _ => True) (fun s l t hI _ => hstep s l t hI) hs
    (along_true step s ls) hrun

/-- When every guarded step is enabled and keeps the invariant, a guarded run reaches its end. -/
theorem runFrom_progress {step : σ → ℓ → Option σ} {P : σ → ℓ → Prop} {I : σ → Prop}
    (hstep : ∀ s l, I s → P s l → ∃ t, step s l = some t ∧ I t) {s : σ} {ls : List ℓ}
    (hs : I s) (hP : Along step P s ls) : ∃ t, runFrom step s ls = some t ∧ I t := by
  induction ls generalizing s with
  | nil => exact ⟨s, rfl, hs⟩
  | cons l ls ih =>
    obtain ⟨t, ht, hI⟩ := hstep s l hs hP.1
    obtain ⟨u, hu, hI⟩ := ih hI (hP.2 t ht)
    exact ⟨u, (runFrom_cons ..).mpr ⟨t, ht, hu⟩, hI⟩

/-- Refinement: when every guarded step succeeds and is matched under `view` by the same label of
a second system, a guarded run reaches its end and is matched as a whole. -/
theorem runFrom_refines {step : σ → ℓ → Option σ} {spec : τ → ℓ → Option τ} {P : σ → ℓ → Prop}
    {I : σ → Prop} {view : σ → τ}
    (hstep : ∀ s l, I s → P s l →
      ∃ t, step s l = some t ∧ I t ∧ spec (view s) l = some (view t)) {s : σ} {ls : List ℓ}
    (hs : I s) (hP : Along step P s ls) :
    ∃ t, runFrom step s ls = some t ∧ I t ∧ runFrom spec (view s) ls = some (view t) := by
  induction ls generalizing s with
  | nil => exact ⟨s, rfl, hs, rfl⟩
  | cons l ls ih =>
    obtain ⟨t, ht, hI, hspec⟩ := hstep s l hs hP.1
    obtain ⟨u, hu, hI, hrun⟩ := ih hI (hP.2 t ht)
    exact ⟨u, (runFrom_cons ..).mpr ⟨t, ht, hu⟩, hI, (runFrom_cons ..).mpr ⟨view t, hspec, hrun⟩⟩

/-- Refinement where one step of the run stands for a run of the specification, maybe an empty one.
-/
theorem runFrom_relates {κ : Type*} {step : σ → ℓ → Option σ} {spec : τ → κ → Option τ}
    {P : σ → ℓ → Prop} {R : σ → τ → Prop} {emit : ℓ → List κ}
    (hstep : ∀ s l t a, R s a → P s l → step s l = some t →
      ∃ b, runFrom spec a (emit l) = some b ∧ R t b)
    {s t : σ} {a : τ} {ls : List ℓ} (hs : R s a) (hP : Along step P s ls)
    (hrun : runFrom step s ls = some t) :
    ∃ b, runFrom spec a (ls.flatMap emit) = some b ∧ R t b := by
  induction ls generalizing s a with
  | nil =>
    cases hrun
    exact ⟨a, rfl, hs⟩
  | cons l ls ih =>
    obtain ⟨u, hu, hrun⟩ := (runFrom_cons ..).mp hrun
    obtain ⟨b, hemit, hub⟩ := hstep s l u a hs hP.1 hu
    obtain ⟨c, hc, htc⟩ := ih hub (hP.2 u hu) hrun
    refine ⟨c, ?_, htc⟩
    rw [List.flatMap_cons, runFrom_append hemit, hc]

/-- The same for a specification that sees a part of the state. -/
theorem runFrom_simulates {κ : Type*} {step : σ → ℓ → Option σ} {spec : τ → κ → Option τ}
    {P : σ → ℓ → Prop} {I : σ → Prop} {view : σ → τ} {emit : ℓ → List κ}
    (hstep : ∀ s l t, I s → P s l → step s l = some t →
      I t ∧ runFrom spec (view s) (emit l) = some (view t))
    {s t : σ} {ls : List ℓ} (hs : I s) (hP : Along step P s ls)
    (hrun : runFrom step s ls = some t) :
    runFrom spec (view s) (ls.flatMap emit) = some (view t) := by
  have hrelated : ∀ s l t a, (I s ∧ a = view s) → P s l → step s l = some t →
      ∃ b, runFrom spec a (emit l) = some b ∧ I t ∧ b = view t := by
    rintro s l t _ ⟨hs, rfl⟩ hP ht
    obtain ⟨hI, hspec⟩ := hstep s l t hs hP ht
    exact ⟨view t, hspec, hI, rfl⟩
  obtain ⟨b, hb, -, rfl⟩ := runFrom_relates hrelated ⟨hs, rfl⟩ hP hrun
  exact hb

/-- When every step pays its cost out of the potential and what it is given, so does a run. -/
theorem runFrom_amortized {step : σ → ℓ → Option σ} {P : σ → ℓ → Prop} {I : σ → Prop}
    {potential : σ → ℕ} {cost gain : ℓ → ℕ} (hI : ∀ s l t, I s → P s l → step s l = some t → I t)
    (hpays : ∀ s l t, I s → P s l → step s l = some t →
      potential t + cost l ≤ potential s + gain l) {s t : σ} {ls : List ℓ}
    (hs : I s) (hP : Along step P s ls) (hrun : runFrom step s ls = some t) :
    potential t + (ls.map cost).sum ≤ potential s + (ls.map gain).sum := by
  induction ls generalizing s with
  | nil =>
    cases hrun
    exact Nat.le_refl _
  | cons l ls ih =>
    obtain ⟨u, hu, hrun⟩ := (runFrom_cons ..).mp hrun
    have hfirst := hpays s l u hs hP.1 hu
    have hrest := ih (hI s l u hs hP.1 hu) (hP.2 u hu) hrun
    rw [List.map_cons, List.sum_cons, List.map_cons, List.sum_cons]
    omega

theorem sum_map_toNat (p : ℓ → Bool) (ls : List ℓ) :
    (ls.map fun l => (p l).toNat).sum = ls.countP p := by
  induction ls with
  | nil => rfl
  | cons l ls ih =>
    rw [List.map_cons, List.sum_cons, ih, List.countP_cons, Nat.add_comm]
    cases p l <;> rfl

/-- Every state that the run of `ls` from `s` passes has the property `P`. -/
def Throughout (step : σ → ℓ → Option σ) (P : σ → Prop) : σ → List ℓ → Prop
  | s, [] => P s
  | s, l :: ls => P s ∧ ∀ t, step s l = some t → Throughout step P t ls

theorem throughout_head {step : σ → ℓ → Option σ} {P : σ → Prop} {s : σ} {ls : List ℓ}
    (h : Throughout step P s ls) : P s := by
  cases ls with
  | nil => exact h
  | cons l ls => exact h.1

/-- What follows from an invariant holds in every state of a run. -/
theorem throughout_of_invariant {step : σ → ℓ → Option σ} {P I : σ → Prop}
    (hI : ∀ s l t, I s → step s l = some t → I t) (hP : ∀ s, I s → P s) {s : σ} (hs : I s)
    (ls : List ℓ) : Throughout step P s ls := by
  induction ls generalizing s with
  | nil => exact hP s hs
  | cons l ls ih => exact ⟨hP s hs, fun t ht => ih (hI s l t hs ht)⟩

/-- When a step is enabled exactly under its guard `G`, a run reaches its end exactly when all its
steps meet `G`. -/
theorem runFrom_isSome_iff_along {step : σ → ℓ → Option σ} {I : σ → Prop} {G : σ → ℓ → Prop}
    (hI : ∀ s l t, I s → step s l = some t → I t)
    (hG : ∀ s l, I s → ((step s l).isSome = true ↔ G s l)) {s : σ} (hs : I s) (ls : List ℓ) :
    (runFrom step s ls).isSome = true ↔ Along step G s ls := by
  induction ls generalizing s with
  | nil => exact iff_of_true rfl trivial
  | cons l ls ih =>
    rw [runFrom, Along, ← hG s l hs]
    cases hstep : step s l with
    | none => exact iff_of_false nofun fun h => nomatch h.1
    | some t =>
      have hrest := ih (hI s l t hs hstep)
      constructor
      · intro h
        refine ⟨rfl, ?_⟩
        rintro u hu
        cases hu
        exact hrest.mp h
      · intro h
        exact hrest.mpr (h.2 t rfl)

/-- In a run that reaches its end every step is enabled. -/
theorem along_isSome {step : σ → ℓ → Option σ} {s t : σ} {ls : List ℓ}
    (hrun : runFrom step s ls = some t) : Along step (fun s l => (step s l).isSome = true) s ls :=
  (runFrom_isSome_iff_along (I := fun _ => True) (fun _ _ _ _ _ => trivial) (fun _ _ _ => Iff.rfl)
    trivial ls).mp (Option.isSome_iff_exists.mpr ⟨t, hrun⟩)

/-- When a step keeps `P` exactly under its guard `G`, the states of a run all have `P` exactly when
all its steps meet `G`. -/
theorem throughout_iff_along {step : σ → ℓ → Option σ} {P I : σ → Prop} {G : σ → ℓ → Prop}
    (hI : ∀ s l t, I s → step s l = some t → I t)
    (hG : ∀ s l t, I s → P s → step s l = some t → (P t ↔ G s l)) {s t : σ} {ls : List ℓ}
    (hs : I s) (hP : P s) (hrun : runFrom step s ls = some t) :
    Throughout step P s ls ↔ Along step G s ls := by
  induction ls generalizing s with
  | nil => exact ⟨fun _ => trivial, fun _ => hP⟩
  | cons l ls ih =>
    obtain ⟨u, hu, hrun⟩ := (runFrom_cons ..).mp hrun
    have hkeep := hG s l u hs hP hu
    constructor
    · intro h
      have hPu := throughout_head (h.2 u hu)
      refine ⟨hkeep.mp hPu, ?_⟩
      intro v hv
      cases hu.symm.trans hv
      exact (ih (hI s l u hs hu) hPu hrun).mp (h.2 u hu)
    · intro h
      refine ⟨hP, ?_⟩
      intro v hv
      cases hu.symm.trans hv
      exact (ih (hI s l u hs hu) (hkeep.mpr h.1) hrun).mpr (h.2 u hu)

/-- When a step keeps `P` exactly under its guard `G`, and never brings it back, `P` holds at the
end of a run exactly when all its steps meet `G`. -/
theorem end_iff_along {step : σ → ℓ → Option σ} {P I : σ → Prop} {A G : σ → ℓ → Prop}
    (hI : ∀ s l t, I s → A s l → step s l = some t → I t)
    (hG : ∀ s l t, I s → A s l → step s l = some t → (P t ↔ P s ∧ G s l)) {s t : σ} {ls : List ℓ}
    (hs : I s) (hA : Along step A s ls) (hrun : runFrom step s ls = some t) :
    P t ↔ P s ∧ Along step G s ls := by
  induction ls generalizing s with
  | nil =>
    cases hrun
    exact (and_iff_left trivial).symm
  | cons l ls ih =>
    obtain ⟨u, hu, hrun⟩ := (runFrom_cons ..).mp hrun
    rw [ih (hI s l u hs hA.1 hu) (hA.2 u hu) hrun, hG s l u hs hA.1 hu, and_assoc]
    apply and_congr_right
    intro _
    constructor
    · rintro ⟨hG, hrest⟩
      refine ⟨hG, ?_⟩
      intro v hv
      cases hu.symm.trans hv
      exact hrest
    · intro h
      exact ⟨h.1, h.2 u hu⟩

end Matelib.Transition
