import Mathlib.Tactic

/-!
# Resumable scanners

A scanner reads a list from its front. In each iteration it consumes a prefix and goes on, waits
because what it needs has not arrived, or halts with a result and leaves the rest. It is resumable
when an iteration that did not wait is not changed by elements appended at the end. Scanning a
resumable scanner in chunks then gives the outcome of scanning the whole list at once.
-/

namespace Matelib

inductive Scan (σ ρ : Type*) where
  | advance (s : σ) (n : ℕ)
  | wait
  | halt (r : ρ) (s : σ)

/-- How a scan ends: waiting in a state, or halted with a result; both with the unread rest. -/
inductive Scanned (σ α ρ : Type*) where
  | waiting (s : σ) (rest : List α)
  | halted (r : ρ) (s : σ) (rest : List α)
  deriving DecidableEq

structure Scanner (σ α ρ : Type*) where
  step : σ → List α → Scan σ ρ
  step_append : ∀ s a b, step s a ≠ .wait → step s (a ++ b) = step s a
  advance_le : ∀ s a t n, step s a = .advance t n → n ≤ a.length

namespace Scanner

variable {σ α ρ : Type*} (S : Scanner σ α ρ)

/-- The scan with at most `fuel` iterations; `none` when they do not suffice. -/
def scan : ℕ → σ → List α → Option (Scanned σ α ρ)
  | 0, _, _ => none
  | fuel + 1, s, a => match S.step s a with
    | .advance t n => scan fuel t (a.drop n)
    | .wait => some (.waiting s a)
    | .halt r t => some (.halted r t a)

theorem scan_advance {s t : σ} {a : List α} {n : ℕ} (h : S.step s a = .advance t n) (fuel : ℕ) :
    S.scan (fuel + 1) s a = S.scan fuel t (a.drop n) := by
  simp only [scan, h]

theorem scan_wait {s : σ} {a : List α} (h : S.step s a = .wait) (fuel : ℕ) :
    S.scan (fuel + 1) s a = some (.waiting s a) := by
  simp only [scan, h]

theorem scan_halt {s t : σ} {a : List α} {r : ρ} (h : S.step s a = .halt r t) (fuel : ℕ) :
    S.scan (fuel + 1) s a = some (.halted r t a) := by
  simp only [scan, h]

theorem scan_mono {f g : ℕ} {s : σ} {a : List α} {o : Scanned σ α ρ} (hfg : f ≤ g)
    (h : S.scan f s a = some o) : S.scan g s a = some o := by
  induction f generalizing g s a with
  | zero => cases h
  | succ f ih =>
    obtain ⟨g, rfl⟩ : ∃ k, g = k + 1 := ⟨g - 1, by omega⟩
    cases hstep : S.step s a with
    | advance t n =>
      rw [S.scan_advance hstep] at h ⊢
      exact ih (by omega) h
    | wait =>
      rw [S.scan_wait hstep] at h ⊢
      exact h
    | halt r t =>
      rw [S.scan_halt hstep] at h ⊢
      exact h

theorem scan_unique {f g : ℕ} {s : σ} {a : List α} {o o' : Scanned σ α ρ}
    (h : S.scan f s a = some o) (h' : S.scan g s a = some o') : o = o' := by
  rcases Nat.le_total f g with hfg | hgf
  · exact Option.some.inj ((S.scan_mono hfg h).symm.trans h')
  · exact Option.some.inj (h.symm.trans (S.scan_mono hgf h'))

theorem scan_waiting {fuel : ℕ} {s t : σ} {a rest : List α}
    (h : S.scan fuel s a = some (.waiting t rest)) : S.step t rest = .wait := by
  induction fuel generalizing s a with
  | zero => cases h
  | succ fuel ih =>
    cases hstep : S.step s a with
    | advance u n =>
      rw [S.scan_advance hstep] at h
      exact ih h
    | wait =>
      rw [S.scan_wait hstep] at h
      cases h
      exact hstep
    | halt r u =>
      rw [S.scan_halt hstep] at h
      cases h

theorem scan_halted_invariant {I : σ → Prop}
    (hI : ∀ s a t n, I s → S.step s a = .advance t n → I t) {fuel : ℕ} {s t : σ} {a rest : List α}
    {r : ρ} (hs : I s) (h : S.scan fuel s a = some (.halted r t rest)) :
    ∃ u, I u ∧ S.step u rest = .halt r t := by
  induction fuel generalizing s a with
  | zero => cases h
  | succ fuel ih =>
    cases hstep : S.step s a with
    | advance u n =>
      rw [S.scan_advance hstep] at h
      exact ih (hI s a u n hs hstep) h
    | wait =>
      rw [S.scan_wait hstep] at h
      cases h
    | halt r' u =>
      rw [S.scan_halt hstep] at h
      cases h
      exact ⟨s, hs, hstep⟩

theorem scan_halted {fuel : ℕ} {s t : σ} {a rest : List α} {r : ρ}
    (h : S.scan fuel s a = some (.halted r t rest)) : ∃ u, S.step u rest = .halt r t := by
  obtain ⟨u, _, hu⟩ := S.scan_halted_invariant (I := fun _ => True)
    (fun _ _ _ _ _ _ => trivial) trivial h
  exact ⟨u, hu⟩

/-- Going on after an outcome with further elements: a halted scan only keeps them. -/
def resume (fuel : ℕ) (b : List α) : Scanned σ α ρ → Option (Scanned σ α ρ)
  | .waiting s rest => S.scan fuel s (rest ++ b)
  | .halted r s rest => some (.halted r s (rest ++ b))

/-- Scanning `a` and resuming with `b` is scanning `a ++ b`. -/
theorem scan_append {f g : ℕ} {s : σ} {a b : List α} {o o' : Scanned σ α ρ}
    (h : S.scan f s a = some o) (h' : S.resume g b o = some o') :
    S.scan (f + g) s (a ++ b) = some o' := by
  induction f generalizing s a with
  | zero => cases h
  | succ f ih =>
    rw [Nat.add_right_comm]
    cases hstep : S.step s a with
    | advance t n =>
      have hle := S.advance_le s a t n hstep
      have happ := S.step_append s a b (by rw [hstep]; simp)
      rw [hstep] at happ
      rw [S.scan_advance hstep] at h
      rw [S.scan_advance happ, List.drop_append_of_le_length hle]
      exact ih h
    | wait =>
      rw [S.scan_wait hstep] at h
      cases h
      exact S.scan_mono (by omega) h'
    | halt r t =>
      have happ := S.step_append s a b (by rw [hstep]; simp)
      rw [hstep] at happ
      rw [S.scan_halt hstep] at h
      cases h
      rw [S.scan_halt happ]
      exact h'

/-- A scan ends when every advance decreases a measure of the state and the unread list. -/
theorem scan_terminates (μ : σ → List α → ℕ) (I : σ → Prop)
    (hdec : ∀ s a t n, I s → S.step s a = .advance t n → I t ∧ μ t (a.drop n) < μ s a)
    {fuel : ℕ} {s : σ} {a : List α} (hI : I s) (hfuel : μ s a < fuel) :
    ∃ o, S.scan fuel s a = some o := by
  induction fuel generalizing s a with
  | zero => omega
  | succ fuel ih =>
    cases hstep : S.step s a with
    | advance t n =>
      obtain ⟨ht, hlt⟩ := hdec s a t n hI hstep
      rw [S.scan_advance hstep]
      exact ih ht (by omega)
    | wait => exact ⟨_, S.scan_wait hstep fuel⟩
    | halt r t => exact ⟨_, S.scan_halt hstep fuel⟩

end Scanner

end Matelib
