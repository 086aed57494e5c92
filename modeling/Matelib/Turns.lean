import Mathlib.Data.Int.CardIntervalMod
import Mathlib.Data.List.Nodup

/-!
# Turns

Servers that are served in turn, again and again: who is served in each turn, and that nobody gets
two turns more than another.
-/

namespace Matelib.Turns

variable {α : Type*}

def turns (servers : List α) (n : ℕ) : List α :=
  (List.range n).filterMap fun k => servers[k % servers.length]?

theorem turns_succ {servers : List α} {n : ℕ} {a : α} (h : servers[n % servers.length]? = some a) :
    turns servers (n + 1) = turns servers n ++ [a] := by
  rw [turns, List.range_succ, List.filterMap_append]
  congr 1
  exact List.filterMap_cons_some h

theorem length_turns {servers : List α} (h : servers ≠ []) (n : ℕ) :
    (turns servers n).length = n := by
  induction n with
  | zero => rfl
  | succ n ih =>
    have hlt : n % servers.length < servers.length :=
      Nat.mod_lt n (List.length_pos_of_ne_nil h)
    rw [turns_succ (List.getElem?_eq_getElem hlt), List.length_append, ih]
    rfl

theorem getElem?_turns {servers : List α} (h : servers ≠ []) {n k : ℕ} (hk : k < n) :
    (turns servers n)[k]? = servers[k % servers.length]? := by
  induction n with
  | zero => omega
  | succ n ih =>
    have hlt : n % servers.length < servers.length :=
      Nat.mod_lt n (List.length_pos_of_ne_nil h)
    rw [turns_succ (List.getElem?_eq_getElem hlt)]
    by_cases hkn : k < n
    · rw [List.getElem?_append_left (by rwa [length_turns h]), ih hkn]
    · have heq : k = n := by omega
      rw [List.getElem?_append_right (by rw [length_turns h]; omega), length_turns h, heq,
        Nat.sub_self, List.getElem?_eq_getElem hlt]
      rfl

theorem count_turns [DecidableEq α] {servers : List α} (hnodup : servers.Nodup) {i : ℕ}
    (hi : i < servers.length) (n : ℕ) :
    (turns servers n).count servers[i] = n.count (· ≡ i [MOD servers.length]) := by
  induction n with
  | zero => rfl
  | succ n ih =>
    have hlt : n % servers.length < servers.length := Nat.mod_lt n (by omega)
    rw [turns_succ (List.getElem?_eq_getElem hlt), List.count_append, ih, Nat.count_succ,
      List.count_singleton]
    congr 1
    have hiff : servers[n % servers.length] = servers[i] ↔ n ≡ i [MOD servers.length] := by
      rw [hnodup.getElem_inj_iff, Nat.ModEq, Nat.mod_eq_of_lt hi]
    simp only [beq_iff_eq, hiff]

theorem count_turns_le [DecidableEq α] {servers : List α} (hnodup : servers.Nodup) {a b : α}
    (ha : a ∈ servers) (hb : b ∈ servers) (n : ℕ) :
    (turns servers n).count a ≤ (turns servers n).count b + 1 := by
  obtain ⟨i, hi, rfl⟩ := List.mem_iff_getElem.mp ha
  obtain ⟨j, hj, rfl⟩ := List.mem_iff_getElem.mp hb
  have hpos : 0 < servers.length := by omega
  rw [count_turns hnodup hi, count_turns hnodup hj, Nat.count_modEq_card n hpos i,
    Nat.count_modEq_card n hpos j]
  split_ifs <;> omega

end Matelib.Turns
