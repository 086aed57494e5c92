import Mathlib.Data.List.Basic
import Mathlib.Tactic.Common

/-!
# Ranges of a list

`segment l i j` is the range `[i, j)` of a list and `overwrite l i d` copies `d` over the positions
from `i` on, as `std::copy` does inside a vector. The lemmas say which ranges an overwrite, a
resize or the erasure of a range leave alone.
-/

namespace Matelib.Segment

variable {α : Type*}

def segment (l : List α) (i j : ℕ) : List α := (l.drop i).take (j - i)

def overwrite (l : List α) (i : ℕ) (d : List α) : List α :=
  l.take i ++ d ++ l.drop (i + d.length)

theorem getElem?_segment (l : List α) (i j k : ℕ) :
    (segment l i j)[k]? = if k < j - i then l[i + k]? else none := by
  simp only [segment, List.getElem?_take, List.getElem?_drop]

theorem length_segment {l : List α} {i j : ℕ} (h : j ≤ l.length) :
    (segment l i j).length = j - i := by
  simp only [segment, List.length_take, List.length_drop]
  omega

@[simp] theorem segment_self (l : List α) (i : ℕ) : segment l i i = [] := by
  simp [segment]

theorem length_overwrite {l : List α} {i : ℕ} {d : List α} (h : i + d.length ≤ l.length) :
    (overwrite l i d).length = l.length := by
  simp only [overwrite, List.length_append, List.length_take, List.length_drop]
  omega

theorem segment_append_segment {l : List α} {i j k : ℕ} (hij : i ≤ j) (hjk : j ≤ k) :
    segment l i j ++ segment l j k = segment l i k := by
  have hd : l.drop j = (l.drop i).drop (j - i) := by
    rw [List.drop_drop]
    congr 1
    omega
  rw [segment, segment, segment, hd, ← List.take_add]
  congr 1
  omega

theorem drop_segment (l : List α) (i j n : ℕ) :
    (segment l i j).drop n = segment l (i + n) j := by
  simp only [segment, List.drop_take, List.drop_drop]
  congr 1
  omega

theorem take_segment {l : List α} {i j n : ℕ} (h : i + n ≤ j) :
    (segment l i j).take n = segment l i (i + n) := by
  simp only [segment, List.take_take]
  congr 1
  omega

theorem segment_overwrite_of_le {l : List α} {i j k : ℕ} (d : List α) (hk : k ≤ i)
    (hi : i ≤ l.length) : segment (overwrite l i d) j k = segment l j k := by
  apply List.ext_getElem?
  intro n
  simp only [getElem?_segment]
  split_ifs with h
  · rw [overwrite, List.append_assoc, List.getElem?_append_left, List.getElem?_take_of_lt]
    · omega
    · simp only [List.length_take]
      omega
  · rfl

theorem segment_overwrite_self {l : List α} {i : ℕ} (d : List α) (hi : i ≤ l.length) :
    segment (overwrite l i d) i (i + d.length) = d := by
  have hlen : (l.take i).length = i := by simp only [List.length_take]; omega
  have hdrop : (overwrite l i d).drop i = d ++ l.drop (i + d.length) := by
    rw [overwrite, List.append_assoc, List.drop_append_of_le_length (by omega),
      List.drop_of_length_le (by omega), List.nil_append]
  rw [segment, hdrop, Nat.add_sub_cancel_left, List.take_left']
  rfl

theorem segment_append_right {l : List α} {i j : ℕ} (pad : List α) (h : j ≤ l.length) :
    segment (l ++ pad) i j = segment l i j := by
  apply List.ext_getElem?
  intro n
  simp only [getElem?_segment]
  split_ifs with hn
  · rw [List.getElem?_append_left (by omega)]
  · rfl

/-- The list that is left when the range `[i, j)` is erased. -/
def eraseRange (l : List α) (i j : ℕ) : List α := l.take i ++ l.drop j

theorem length_eraseRange {l : List α} {i j : ℕ} (hij : i ≤ j) (hj : j ≤ l.length) :
    (eraseRange l i j).length = l.length - (j - i) := by
  simp only [eraseRange, List.length_append, List.length_take, List.length_drop]
  omega

theorem segment_eraseRange {l : List α} {r i j w : ℕ} (hri : r ≤ i) (hij : i ≤ j) (hjw : j ≤ w)
    (hw : w ≤ l.length) :
    segment (eraseRange l i j) r (w - (j - i)) = segment l r i ++ segment l j w := by
  have hlen : (l.take i).length = i := by simp only [List.length_take]; omega
  apply List.ext_getElem?
  intro n
  rw [List.getElem?_append, length_segment (by omega)]
  simp only [getElem?_segment, eraseRange]
  by_cases hn : n < i - r
  · rw [if_pos hn, if_pos (by omega), if_pos hn, List.getElem?_append_left (by omega),
      List.getElem?_take_of_lt (by omega)]
  · rw [if_neg hn, List.getElem?_append_right (by omega), List.getElem?_drop, hlen]
    split_ifs <;> first | omega | rfl | (congr 1; omega)

theorem getElem?_concat_eq_some {l : List α} {a b : α} {i : ℕ} :
    (l ++ [a])[i]? = some b ↔ l[i]? = some b ∨ i = l.length ∧ a = b := by
  rw [List.getElem?_append]
  split_ifs with hi
  · constructor
    · exact Or.inl
    · rintro (h | ⟨rfl, -⟩)
      · exact h
      · exact absurd hi (Nat.lt_irrefl _)
  · rw [List.getElem?_singleton]
    constructor
    · intro h
      split_ifs at h with hzero
      · exact .inr ⟨by omega, Option.some.inj h⟩
    · rintro (h | ⟨rfl, rfl⟩)
      · exact absurd (List.getElem?_eq_some_iff.mp h).1 hi
      · rw [if_pos (Nat.sub_self _)]

end Matelib.Segment
