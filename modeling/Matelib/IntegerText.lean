import Matelib.Decimal
import Matelib.Numeral

/-!
# Integers as text

`convertInt` and `convertHex` of the log stream. A template argument of `convertInt` is a type with
the operations of the loop: the remainder and the quotient by ten, which truncate toward zero and do
not overflow, and values of at most 64 bits. The loop looks a digit up in a table that goes down
from nine to zero and up again, so it need not negate a negative number. A result is what the buffer
holds afterwards, with the terminating zero, and the length that is returned; there is none if a
table were read outside its bounds.
-/

namespace Matelib

/-- The integer types of the machine, with `% 10` and `/ 10`. -/
class Integral (T : Type) where
  value : T → ℤ
  rem : T → T
  quot : T → T
  value_rem : ∀ i, value (rem i) = (value i).tmod 10
  value_quot : ∀ i, value (quot i) = (value i).tdiv 10
  low : ∀ i, -2 ^ 63 ≤ value i
  high : ∀ i, value i < 2 ^ 64

namespace Integral

instance : Integral Int32 where
  value := Int32.toInt
  rem i := i % 10
  quot i := i / 10
  value_rem i := Int32.toInt_mod i 10
  value_quot i := Int32.toInt_div_of_ne_right i 10 (by decide)
  low i := (by decide : (-2 ^ 63 : ℤ) ≤ -2 ^ 31).trans i.le_toInt
  high i := i.toInt_lt.trans (by decide)

instance : Integral Int64 where
  value := Int64.toInt
  rem i := i % 10
  quot i := i / 10
  value_rem i := Int64.toInt_mod i 10
  value_quot i := Int64.toInt_div_of_ne_right i 10 (by decide)
  low i := i.le_toInt
  high i := i.toInt_lt.trans (by decide)

instance : Integral UInt32 where
  value i := i.toNat
  rem i := i % 10
  quot i := i / 10
  value_rem i := congrArg Nat.cast (UInt32.toNat_mod i 10)
  value_quot i := congrArg Nat.cast (UInt32.toNat_div i 10)
  low i := (by decide : (-2 ^ 63 : ℤ) ≤ 0).trans (Int.natCast_nonneg _)
  high i := (Int.ofNat_lt.mpr i.toNat_lt).trans (by decide)

instance : Integral UInt64 where
  value i := i.toNat
  rem i := i % 10
  quot i := i / 10
  value_rem i := congrArg Nat.cast (UInt64.toNat_mod i 10)
  value_quot i := congrArg Nat.cast (UInt64.toNat_div i 10)
  low i := (by decide : (-2 ^ 63 : ℤ) ≤ 0).trans (Int.natCast_nonneg _)
  high i := Int.ofNat_lt.mpr i.toNat_lt

end Integral

namespace LogStream

open Integral

def digits : Bytes := ascii "9876543210123456789" ++ [0]

def digitsHex : Bytes := ascii "0123456789ABCDEF" ++ [0]

/-- `zero[lsd]`, where `zero` is the address of the zero in `digits`. -/
def zero (lsd : ℤ) : Option UInt8 := if 0 ≤ 9 + lsd then digits[(9 + lsd).toNat]? else none

def minus : UInt8 := 45

def convertInt {T : Type} [Integral T] (value : T) : Option (Bytes × ℕ) :=
  (digitLoop (fun i => zero (Integral.value (rem i))) quot (fun i : T => Integral.value i == 0)
    ((Integral.value value).natAbs + 1) value []).map fun p =>
      let p := if Integral.value value < 0 then p ++ [minus] else p
      (p.reverse ++ [0], p.length)

def convertHex (value : UInt64) : Option (Bytes × ℕ) :=
  (digitLoop (fun i => digitsHex[(i % 16).toNat]?) (fun i => i / 16) (fun i => i == 0)
    (value.toNat + 1) value []).map fun p => (p.reverse ++ [0], p.length)

def decimalDigit (d : ℕ) : UInt8 := 48 + d.toUInt8

theorem decimal_eq_numeral (n : ℕ) : decimal n = numeral 10 decimalDigit n := by
  have hdigit : ∀ d < 10, d.digitChar.toNat.toUInt8 = decimalDigit d := by decide
  induction n using Nat.strong_induction_on with
  | _ n ih =>
    rw [decimal_natCast, Nat.toDigits_eq_if (by decide)]
    split_ifs with hlt
    · rw [numeral_of_lt hlt, List.map_singleton, hdigit n hlt]
    · have hrem : n % 10 < 10 := Nat.mod_lt n (by decide)
      rw [List.map_append, ← decimal_natCast, ih _ (by omega), List.map_singleton, hdigit _ hrem,
        numeral_of_le (by decide) (not_lt.mp hlt)]

theorem zero_eq {lsd : ℤ} (h : lsd.natAbs < 10) : zero lsd = some (decimalDigit lsd.natAbs) := by
  have htable : ∀ r ∈ Finset.Icc (-9 : ℤ) 9, zero r = some (decimalDigit r.natAbs) := by decide
  exact htable lsd (Finset.mem_Icc.mpr (by omega))

theorem decimal_of_nonneg {v : ℤ} (h : 0 ≤ v) : decimal v = decimal v.natAbs := by
  rw [Int.natAbs_of_nonneg h]

theorem decimal_of_neg {v : ℤ} (h : v < 0) : decimal v = minus :: decimal v.natAbs := by
  obtain ⟨n, rfl⟩ := Int.eq_negSucc_of_lt_zero h
  exact decimal_negSucc n

theorem convertInt_eq {T : Type} [Integral T] (value : T) :
    convertInt value = some (decimal (Integral.value value) ++ [0],
      (decimal (Integral.value value)).length) := by
  have hwrite : ∀ i : T, zero (Integral.value (rem i)) =
      some (decimalDigit ((Integral.value i).natAbs % 10)) := by
    intro i
    have hrem : (Integral.value (rem i)).natAbs = (Integral.value i).natAbs % 10 := by
      rw [value_rem, Int.natAbs_tmod]
      rfl
    rw [zero_eq, hrem]
    rw [hrem]
    exact Nat.mod_lt _ (by decide)
  have hquot : ∀ i : T, (Integral.value (quot i)).natAbs = (Integral.value i).natAbs / 10 := by
    intro i
    rw [value_quot, Int.natAbs_tdiv]
    rfl
  have hzero : ∀ i : T, (Integral.value i == 0) = true ↔ (Integral.value i).natAbs = 0 := by
    intro i
    rw [beq_iff_eq, Int.natAbs_eq_zero]
  have hloop := digitLoop_eq (by decide) decimalDigit (fun i : T => (Integral.value i).natAbs)
    hwrite hquot hzero (Nat.lt_succ_self (Integral.value value).natAbs) []
  rw [convertInt, hloop, Option.map_some, ← decimal_eq_numeral, List.nil_append]
  split_ifs with hneg
  · rw [decimal_of_neg hneg]
    simp
  · rw [decimal_of_nonneg (not_lt.mp hneg)]
    simp

theorem length_decimal_natAbs {v : ℤ} (hlow : -2 ^ 63 ≤ v) (hhigh : v < 2 ^ 64) :
    (decimal v.natAbs).length ≤ 20 := by
  apply length_decimal_le (by decide)
  omega

theorem length_decimal_value {T : Type} [Integral T] (value : T) :
    (decimal (Integral.value value)).length + 1 ≤ 22 := by
  have hdigits := length_decimal_natAbs (Integral.low value) (Integral.high value)
  rcases lt_or_ge (Integral.value value) 0 with hneg | hpos
  · rw [decimal_of_neg hneg, List.length_cons]
    omega
  · rw [decimal_of_nonneg hpos]
    omega

/-- The integer that a text denotes: a decimal numeral, with or without a minus. -/
def parseSigned : Bytes → Option ℤ
  | [] => none
  | c :: text =>
    if c = minus then (parseDecimal text).map fun n : ℕ => -(n : ℤ)
    else (parseDecimal (c :: text)).map fun n : ℕ => (n : ℤ)

theorem parseSigned_decimal (v : ℤ) : parseSigned (decimal v) = some v := by
  rcases lt_or_ge v 0 with hneg | hpos
  · rw [decimal_of_neg hneg, parseSigned, if_pos rfl, parseDecimal_decimal, Option.map_some]
    congr 1
    omega
  · rw [decimal_of_nonneg hpos]
    cases htext : decimal v.natAbs with
    | nil =>
      rw [decimal_eq_numeral] at htext
      exact absurd htext (numeral_ne_nil _ _ _)
    | cons c text =>
      have hc : c ≠ minus := by
        rintro rfl
        have hdigit : minus ∈ decimal v.natAbs := by
          rw [htext]
          exact List.mem_cons_self
        exact absurd (isDigit_decimal hdigit) (by decide)
      rw [parseSigned, if_neg hc, ← htext, parseDecimal_decimal, Option.map_some]
      congr 1
      omega

/-- The upper-case digit of a number below sixteen. -/
def hexDigit (d : ℕ) : UInt8 := if d < 10 then 48 + d.toUInt8 else 55 + d.toUInt8

def hexadecimal (n : ℕ) : Bytes := numeral 16 hexDigit n

def hexValue (b : UInt8) : Option ℕ :=
  if 48 ≤ b ∧ b ≤ 57 then some (b.toNat - 48)
  else if 65 ≤ b ∧ b ≤ 70 then some (b.toNat - 55)
  else none

def parseHexadecimal (text : Bytes) : Option ℕ := parseNumeral 16 hexValue text

theorem parseHexadecimal_hexadecimal (n : ℕ) : parseHexadecimal (hexadecimal n) = some n :=
  parseNumeral_numeral (by decide) (by decide) n

theorem length_hexadecimal (value : UInt64) : (hexadecimal value.toNat).length + 1 ≤ 17 := by
  apply Nat.succ_le_succ
  exact length_numeral_le (by decide) (by decide) value.toNat_lt

theorem convertHex_eq (value : UInt64) :
    convertHex value = some (hexadecimal value.toNat ++ [0], (hexadecimal value.toNat).length) := by
  have htable : ∀ d < 16, digitsHex[d]? = some (hexDigit d) := by decide
  have hwrite : ∀ i : UInt64, digitsHex[(i % 16).toNat]? = some (hexDigit (i.toNat % 16)) := by
    intro i
    rw [UInt64.toNat_mod]
    exact htable _ (Nat.mod_lt _ (by decide))
  have hzero : ∀ i : UInt64, (i == 0) = true ↔ i.toNat = 0 := by
    intro i
    rw [beq_iff_eq, ← UInt64.toNat_inj]
    rfl
  have hloop := digitLoop_eq (by decide) hexDigit UInt64.toNat hwrite
    (fun i => UInt64.toNat_div i 16) hzero (Nat.lt_succ_self value.toNat) []
  rw [convertHex, hloop, Option.map_some, List.nil_append, List.reverse_reverse,
    List.length_reverse]
  rfl

end LogStream

end Matelib
