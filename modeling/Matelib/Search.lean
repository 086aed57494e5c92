import Mathlib.Tactic

/-!
# The first occurrence of a pattern

`search pat l` is the position at which `pat` first occurs in `l`, as `std::search` finds it. An
occurrence that was found stays where it is when the list grows at its end.
-/

namespace Matelib.Search

variable {α : Type*} [DecidableEq α]

def search (pat : List α) : List α → Option ℕ
  | [] => if pat = [] then some 0 else none
  | x :: l => if pat <+: x :: l then some 0 else (search pat l).map (· + 1)

theorem search_bound {pat l : List α} {i : ℕ} (h : search pat l = some i) :
    i + pat.length ≤ l.length := by
  induction l generalizing i with
  | nil =>
    simp only [search] at h
    split_ifs at h with hp
    cases h
    simp [hp]
  | cons x l ih =>
    simp only [search] at h
    split_ifs at h with hp
    · cases h
      rw [Nat.zero_add]
      exact hp.length_le
    · obtain ⟨j, hj, rfl⟩ := Option.map_eq_some_iff.mp h
      have := ih hj
      simp only [List.length_cons]
      omega

theorem search_append {pat a : List α} {i : ℕ} (h : search pat a = some i) (b : List α) :
    search pat (a ++ b) = some i := by
  induction a generalizing i with
  | nil =>
    simp only [search] at h
    split_ifs at h with hp
    subst hp
    cases h
    cases b <;> simp [search]
  | cons x a ih =>
    simp only [search] at h
    rw [List.cons_append, search]
    split_ifs at h with hp
    · have hq : pat <+: x :: (a ++ b) := hp.trans (List.prefix_append (x :: a) b)
      rw [if_pos hq]
      exact h
    · obtain ⟨j, hj, rfl⟩ := Option.map_eq_some_iff.mp h
      have hlen := search_bound hj
      have hnot : ¬ pat <+: x :: (a ++ b) := fun hq =>
        hp (List.prefix_of_prefix_length_le hq (List.prefix_append (x :: a) b)
          (by simp only [List.length_cons]; omega))
      rw [if_neg hnot, ih hj]
      rfl

theorem search_of_not_mem {c : α} {pat line : List α} (h : c ∉ line) (rest : List α) :
    search (c :: pat) (line ++ (c :: pat ++ rest)) = some line.length := by
  induction line with
  | nil =>
    rw [List.nil_append, List.cons_append, search, if_pos]
    · rfl
    · rw [← List.cons_append]
      exact List.prefix_append (c :: pat) rest
  | cons x line ih =>
    rw [List.mem_cons, not_or] at h
    rw [List.cons_append, search, if_neg, ih h.2]
    · rfl
    · rw [List.cons_prefix_cons]
      exact fun hp => h.1 hp.1

end Matelib.Search
