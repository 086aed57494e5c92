import Matelib.Search

/-!
# The complete lines of a text

A text is cut at every occurrence of a separator. Each line comes with what stands behind its
separator; what follows the last separator is not a line. A section of a text is what stands in
front of its first empty line.
-/

namespace Matelib.Search

variable {α : Type*} [DecidableEq α] {sep : List α}

def linesUpTo (sep : List α) : ℕ → List α → List (List α × List α)
  | 0, _ => []
  | n + 1, a => match search sep a with
    | none => []
    | some i =>
      (a.take i, a.drop (i + sep.length)) :: linesUpTo sep n (a.drop (i + sep.length))

def lines (sep a : List α) : List (List α × List α) := linesUpTo sep a.length a

theorem drop_length_lt (hsep : sep ≠ []) {a : List α} {i : ℕ} (h : search sep a = some i) :
    (a.drop (i + sep.length)).length < a.length := by
  have hpos : 0 < sep.length := List.length_pos_iff.mpr hsep
  have hbound := search_bound h
  rw [List.length_drop]
  omega

theorem linesUpTo_eq (hsep : sep ≠ []) {n : ℕ} {a : List α} (hn : a.length ≤ n) :
    linesUpTo sep n a = lines sep a := by
  induction n using Nat.strong_induction_on generalizing a with
  | _ n ih =>
    rw [lines]
    cases hi : search sep a with
    | none => cases n <;> cases hlen : a.length <;> simp only [linesUpTo, hi]
    | some i =>
      have hlt := drop_length_lt hsep hi
      obtain ⟨m, rfl⟩ : ∃ m, n = m + 1 := ⟨n - 1, by omega⟩
      obtain ⟨k, hk⟩ : ∃ k, a.length = k + 1 := ⟨a.length - 1, by omega⟩
      rw [hk]
      simp only [linesUpTo, hi]
      rw [ih m (Nat.lt_succ_self m) (by omega)]
      rcases Nat.lt_or_ge k (m + 1) with hkm | hmk
      · rw [ih k hkm (by omega)]
      · omega

theorem lines_of_none {a : List α} (h : search sep a = none) : lines sep a = [] := by
  rw [lines]
  cases a.length with
  | zero => rfl
  | succ n => simp only [linesUpTo, h]

theorem lines_of_some (hsep : sep ≠ []) {a : List α} {i : ℕ} (h : search sep a = some i) :
    lines sep a =
      (a.take i, a.drop (i + sep.length)) :: lines sep (a.drop (i + sep.length)) := by
  have hlt := drop_length_lt hsep h
  obtain ⟨k, hk⟩ : ∃ k, a.length = k + 1 := ⟨a.length - 1, by omega⟩
  rw [lines, hk]
  simp only [linesUpTo, h]
  rw [linesUpTo_eq hsep (by omega)]

theorem lines_cons {c : α} {pat line : List α} (h : c ∉ line) (rest : List α) :
    lines (c :: pat) (line ++ (c :: pat ++ rest)) = (line, rest) :: lines (c :: pat) rest := by
  rw [lines_of_some (List.cons_ne_nil c pat) (search_of_not_mem h rest), List.take_left,
    List.drop_length_add_append, List.drop_left]

theorem lines_rest_lt (hsep : sep ≠ []) {a : List α} {e : List α × List α} (h : e ∈ lines sep a) :
    e.2.length < a.length := by
  induction hn : a.length using Nat.strong_induction_on generalizing a with
  | _ n ih =>
    subst hn
    cases hi : search sep a with
    | none =>
      rw [lines_of_none hi] at h
      cases h
    | some i =>
      have hlt := drop_length_lt hsep hi
      rw [lines_of_some hsep hi, List.mem_cons] at h
      rcases h with rfl | h
      · exact hlt
      · exact (ih _ hlt h rfl).trans hlt

theorem eq_of_rest_eq (hsep : sep ≠ []) {a : List α} {e e' : List α × List α}
    (he : e ∈ lines sep a) (he' : e' ∈ lines sep a) (hrest : e.2 = e'.2) : e = e' := by
  induction hn : a.length using Nat.strong_induction_on generalizing a with
  | _ n ih =>
    subst hn
    cases hi : search sep a with
    | none =>
      rw [lines_of_none hi] at he
      cases he
    | some i =>
      rw [lines_of_some hsep hi, List.mem_cons] at he he'
      rcases he with rfl | he
      · rcases he' with rfl | he'
        · rfl
        · have hlt := lines_rest_lt hsep he'
          rw [← hrest] at hlt
          exact absurd hlt (lt_irrefl _)
      · rcases he' with rfl | he'
        · have hlt := lines_rest_lt hsep he
          rw [hrest] at hlt
          exact absurd hlt (lt_irrefl _)
        · exact ih _ (drop_length_lt hsep hi) he he' rfl

def behindSection (sep a : List α) : Option (List α) :=
  ((lines sep a).find? fun e => e.1 = []).map Prod.snd

def firstSection (sep a : List α) : Option (List (List α) × List α) :=
  (behindSection sep a).map fun rest =>
    (((lines sep a).takeWhile fun e => e.1 ≠ []).map Prod.fst, rest)

theorem firstSection_empty {c : α} {pat : List α} (rest : List α) :
    firstSection (c :: pat) (c :: pat ++ rest) = some ([], rest) := by
  have hlines : lines (c :: pat) (c :: pat ++ rest) = ([], rest) :: lines (c :: pat) rest :=
    lines_cons (List.not_mem_nil : c ∉ []) rest
  rw [firstSection, behindSection, hlines]
  simp

theorem firstSection_cons {c : α} {pat line : List α} (h : c ∉ line) (hne : line ≠ [])
    (rest : List α) :
    firstSection (c :: pat) (line ++ (c :: pat ++ rest)) =
      (firstSection (c :: pat) rest).map fun p => (line :: p.1, p.2) := by
  have hlines : lines (c :: pat) (line ++ (c :: pat ++ rest)) =
      (line, rest) :: lines (c :: pat) rest := lines_cons h rest
  rw [firstSection, behindSection, hlines, firstSection, behindSection]
  simp [hne, Function.comp_def]

theorem firstSection_lines {c : α} {pat : List α} {ls : List (List α)}
    (h : ∀ l ∈ ls, c ∉ l ∧ l ≠ []) (rest : List α) :
    firstSection (c :: pat) (ls.flatMap (fun l => l ++ c :: pat) ++ (c :: pat ++ rest)) =
      some (ls, rest) := by
  induction ls with
  | nil =>
    rw [List.flatMap_nil, List.nil_append]
    exact firstSection_empty rest
  | cons l ls ih =>
    rw [List.forall_mem_cons] at h
    rw [List.flatMap_cons, List.append_assoc, List.append_assoc, firstSection_cons h.1.1 h.1.2,
      ih h.2, Option.map_some]

end Matelib.Search
