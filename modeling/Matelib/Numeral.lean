import Mathlib.Data.Nat.Digits.Lemmas
import Mathlib.Tactic

/-!
# Numerals in any base

The numeral of a number with given digits, highest digit first and without leading zeros. Reading a
numeral gives the number back. `digitLoop` is the loop that writes the lowest digit first and goes
on until the quotient is zero: it writes the numeral backwards.
-/

namespace Matelib

variable {α σ : Type*}

def numeral (base : ℕ) (digit : ℕ → α) (n : ℕ) : List α :=
  ((if n = 0 then [0] else base.digits n).map digit).reverse

def parseNumeral (base : ℕ) (value : α → Option ℕ) (text : List α) : Option ℕ :=
  if text.isEmpty then none
  else text.foldlM (fun n letter => (value letter).map fun d => base * n + d) 0

/-- `do { write the digit; take the quotient } while (the quotient is not zero)`. -/
def digitLoop (digit : σ → Option α) (quot : σ → σ) (isZero : σ → Bool) :
    ℕ → σ → List α → Option (List α)
  | 0, _, _ => none
  | fuel + 1, i, p =>
    (digit i).bind fun c =>
      if isZero (quot i) then some (p ++ [c])
      else digitLoop digit quot isZero fuel (quot i) (p ++ [c])

variable {base : ℕ} {digit : ℕ → α}

theorem numeral_of_lt {n : ℕ} (h : n < base) : numeral base digit n = [digit n] := by
  rw [numeral]
  split_ifs with hn
  · rw [hn]
    rfl
  · rw [Nat.digits_of_lt base n hn h]
    rfl

theorem numeral_of_le (hb : 1 < base) {n : ℕ} (h : base ≤ n) :
    numeral base digit n = numeral base digit (n / base) ++ [digit (n % base)] := by
  have hquot : n / base ≠ 0 := (Nat.div_pos h (by omega)).ne'
  rw [numeral, numeral, if_neg (by omega), if_neg hquot, Nat.digits_def' hb (by omega),
    List.map_cons, List.reverse_cons]

theorem numeral_ne_nil (base : ℕ) (digit : ℕ → α) (n : ℕ) : numeral base digit n ≠ [] := by
  rw [numeral, ne_eq, List.reverse_eq_nil_iff, List.map_eq_nil_iff]
  split_ifs with hn
  · exact not_false
  · exact Nat.digits_ne_nil_iff_ne_zero.mpr hn

theorem mem_numeral (hb : 1 < base) {n : ℕ} {letter : α} (h : letter ∈ numeral base digit n) :
    ∃ d < base, digit d = letter := by
  rw [numeral, List.mem_reverse, List.mem_map] at h
  obtain ⟨d, hd, rfl⟩ := h
  refine ⟨d, ?_, rfl⟩
  split_ifs at hd
  · rw [List.mem_singleton] at hd
    omega
  · exact Nat.digits_lt_base hb hd

theorem length_numeral_le (hb : 1 < base) {n k : ℕ} (hk : 0 < k) (h : n < base ^ k) :
    (numeral base digit n).length ≤ k := by
  rw [numeral, List.length_reverse, List.length_map]
  split_ifs with hn
  · exact hk
  · exact (Nat.digits_length_le_iff hb n).mpr h

theorem head_numeral_ne {n : ℕ} (hb : 1 < base)
    (hdigit : ∀ d < base, digit d = digit 0 → d = 0) (hn : n ≠ 0) :
    (numeral base digit n).head? ≠ some (digit 0) := by
  rw [numeral, if_neg hn, List.head?_reverse, List.getLast?_map]
  have hnil : base.digits n ≠ [] := Nat.digits_ne_nil_iff_ne_zero.mpr hn
  rw [List.getLast?_eq_some_getLast hnil, Option.map_some]
  intro heq
  have hlt := Nat.digits_lt_base hb (List.getLast_mem hnil)
  exact Nat.getLast_digit_ne_zero base hn (hdigit _ hlt (Option.some.inj heq))

theorem parseNumeral_numeral (hb : 1 < base) {value : α → Option ℕ}
    (hvalue : ∀ d < base, value (digit d) = some d) (n : ℕ) :
    parseNumeral base value (numeral base digit n) = some n := by
  have hfold : (numeral base digit n).foldlM
      (fun n letter => (value letter).map fun d => base * n + d) 0 = some n := by
    induction n using Nat.strong_induction_on with
    | _ n ih =>
      rcases lt_or_ge n base with hlt | hge
      · rw [numeral_of_lt hlt, List.foldlM_cons, hvalue n hlt]
        simp
      · have hquot : n / base < n := Nat.div_lt_self (by omega) hb
        have hrem : n % base < base := Nat.mod_lt n (by omega)
        rw [numeral_of_le hb hge, List.foldlM_append, ih _ hquot, Option.bind_eq_bind,
          Option.bind_some, List.foldlM_cons, hvalue _ hrem]
        simp [Nat.div_add_mod]
  rw [parseNumeral, if_neg, hfold]
  rw [List.isEmpty_iff]
  exact numeral_ne_nil base digit n

theorem digitLoop_eq (hb : 1 < base) (digit : ℕ → α) (abs : σ → ℕ) {write : σ → Option α}
    {quot : σ → σ} {isZero : σ → Bool} (hwrite : ∀ i, write i = some (digit (abs i % base)))
    (hquot : ∀ i, abs (quot i) = abs i / base) (hzero : ∀ i, isZero i = true ↔ abs i = 0)
    {fuel : ℕ} {i : σ} (h : abs i < fuel) (p : List α) :
    digitLoop write quot isZero fuel i p =
      some (p ++ (numeral base digit (abs i)).reverse) := by
  induction fuel generalizing i p with
  | zero => exact absurd h (Nat.not_lt_zero _)
  | succ fuel ih =>
    rw [digitLoop, hwrite, Option.bind_some]
    rcases lt_or_ge (abs i) base with hlt | hge
    · rw [if_pos ((hzero _).mpr (by rw [hquot, Nat.div_eq_of_lt hlt])), Nat.mod_eq_of_lt hlt,
        numeral_of_lt hlt]
      rfl
    · have hpos : abs i / base ≠ 0 := (Nat.div_pos hge (by omega)).ne'
      have hless : abs i / base < abs i := Nat.div_lt_self (by omega) hb
      rw [if_neg (by rw [hzero, hquot]; exact hpos), ih (by rw [hquot]; omega), hquot,
        numeral_of_le hb hge, List.reverse_append, List.append_assoc]
      rfl

end Matelib
