import Matelib.Text

/-!
# Decimal numerals

What `%d` prints: the digits, how many there are, and that they determine the number.
-/

namespace Matelib

def isDigit (b : UInt8) : Prop := 48 ≤ b ∧ b ≤ 57

theorem decimal_natCast (n : ℕ) : decimal n = (Nat.toDigits 10 n).map fun c => c.toNat.toUInt8 := by
  change (toString (n : ℤ)).toList.map _ = _
  rw [show toString (n : ℤ) = n.repr from rfl, Nat.toList_repr]

theorem toNat_of_isDigit {c : Char} (h : c.isDigit = true) : 48 ≤ c.toNat ∧ c.toNat ≤ 57 := by
  simp only [Char.isDigit, Bool.and_eq_true, decide_eq_true_eq] at h
  exact h

theorem isDigit_decimal {n : ℕ} {b : UInt8} (h : b ∈ decimal n) : isDigit b := by
  rw [decimal_natCast, List.mem_map] at h
  obtain ⟨c, hc, rfl⟩ := h
  have hd := toNat_of_isDigit (Nat.isDigit_of_mem_toDigits (by decide) (by decide) hc)
  constructor
  · rw [UInt8.le_iff_toNat_le, Nat.toUInt8_eq, UInt8.toNat_ofNat']
    change 48 ≤ _
    omega
  · rw [UInt8.le_iff_toNat_le, Nat.toUInt8_eq, UInt8.toNat_ofNat']
    change _ ≤ 57
    omega

theorem length_decimal_le {n k : ℕ} (hk : 0 < k) (h : n < 10 ^ k) : (decimal n).length ≤ k := by
  rw [decimal_natCast, List.length_map]
  exact (Nat.length_toDigits_le_iff (by decide) hk).mpr h

instance (b : UInt8) : Decidable (isDigit b) := inferInstanceAs (Decidable (_ ∧ _))

def parseDecimal (text : Bytes) : Option ℕ :=
  if text ≠ [] ∧ text.all (fun b => isDigit b) = true then
    some (text.foldl (fun n b => 10 * n + (b.toNat - 48)) 0)
  else none

theorem parseDecimal_decimal (n : ℕ) : parseDecimal (decimal n) = some n := by
  have hne : decimal n ≠ [] := by
    rw [decimal_natCast, ne_eq, List.map_eq_nil_iff]
    exact Nat.toDigits_ne_nil
  have hall : (decimal n).all (fun b => isDigit b) = true :=
    List.all_eq_true.mpr fun b hb => decide_eq_true (isDigit_decimal hb)
  rw [parseDecimal, if_pos ⟨hne, hall⟩, Option.some.injEq, decimal_natCast, List.foldl_map]
  have hfold : ∀ (cs : List Char) (m : ℕ), (∀ c ∈ cs, c.isDigit = true) →
      cs.foldl (fun n c => 10 * n + (c.toNat.toUInt8.toNat - 48)) m = Nat.ofDigitChars 10 cs m := by
    intro cs
    induction cs with
    | nil => exact fun m _ => (Nat.ofDigitChars_nil).symm
    | cons c cs ih =>
      intro m hcs
      rw [List.forall_mem_cons] at hcs
      have hd := toNat_of_isDigit hcs.1
      have hbyte : c.toNat.toUInt8.toNat = c.toNat := by
        rw [Nat.toUInt8_eq, UInt8.toNat_ofNat']
        omega
      rw [List.foldl_cons, ih _ hcs.2, Nat.ofDigitChars_cons, hbyte]
      rfl
  rw [hfold _ 0 fun c hc => Nat.isDigit_of_mem_toDigits (by decide) (by decide) hc]
  exact Nat.ofDigitChars_ten_toDigits

theorem decimal_injective {m n : ℕ} (h : decimal m = decimal n) : m = n := by
  have hm := parseDecimal_decimal m
  rw [h, parseDecimal_decimal, Option.some.injEq] at hm
  exact hm.symm

theorem decimal_negSucc (n : ℕ) : decimal (Int.negSucc n) = 45 :: decimal (n + 1 : ℕ) := by
  rw [decimal_natCast]
  change (toString (Int.negSucc n)).toList.map _ = _
  rw [show toString (Int.negSucc n) = "-" ++ (n + 1).repr from rfl, String.toList_append,
    Nat.toList_repr]
  rfl

theorem mem_decimal {n : ℤ} {b : UInt8} (h : b ∈ decimal n) : b = 45 ∨ isDigit b := by
  cases n with
  | ofNat n => exact .inr (isDigit_decimal h)
  | negSucc n =>
    rw [decimal_negSucc] at h
    rcases List.mem_cons.mp h with rfl | h
    · exact .inl rfl
    · exact .inr (isDigit_decimal h)

theorem length_decimal_int32 {n : ℤ} (hlow : -2147483648 ≤ n) (hhigh : n < 2147483648) :
    (decimal n).length ≤ 11 := by
  cases n with
  | ofNat n =>
    have hn : n < 10 ^ 10 := by
      rw [Int.ofNat_eq_natCast] at hhigh
      omega
    have := length_decimal_le (by decide) hn
    change (decimal n).length ≤ 11
    omega
  | negSucc n =>
    have hn : n + 1 < 10 ^ 10 := by omega
    have := length_decimal_le (by decide) hn
    rw [decimal_negSucc, List.length_cons]
    omega

end Matelib
