import Mathlib

/-!
# Doubles

Lean's own model of the binary64 format, its products and their conversion to an integer, which
cuts them. Comparing a double with an integer multiplies both with powers of two, so nothing is
rounded.
-/

namespace Matelib

open Float.Model UnpackedFloat

abbrev Double := Float.Model

namespace Double

def positive (x : Double) : Bool := Float.Model.ofNat 0 < x

/-- The exact product of the double with `scale` is at most `n`. -/
def ScaledLe (scale : ℕ) (x : Double) (n : ℤ) : Prop :=
  match x.unpack with
  | .finite sign m e _ => sign.apply (m * scale * 2 ^ e.toNat) ≤ n * 2 ^ (-e).toNat
  | .zero _ => 0 ≤ n
  | .infinity .negative => True
  | .infinity .positive | .notANumber => False

instance (scale : ℕ) (x : Double) (n : ℤ) : Decidable (ScaledLe scale x n) := by
  unfold ScaledLe
  split <;> infer_instance

theorem ScaledLe.mono {scale : ℕ} {x : Double} {n n' : ℤ} (h : ScaledLe scale x n) (hn : n ≤ n') :
    ScaledLe scale x n' := by
  unfold ScaledLe at h ⊢
  split at h
  · exact h.trans (Int.mul_le_mul_of_nonneg_right hn (Int.pow_nonneg (by decide)))
  · exact h.trans hn
  · trivial
  · exact h.elim
  · exact h.elim

/-- A double without a minus sign, or no number. -/
def Plus : UnpackedFloat → Prop
  | .finite sign _ _ _ | .zero sign | .infinity sign => sign = .positive
  | .notANumber => True

/-- The sign is a bit of its own, so packing keeps it. -/
theorem plus_unpack_pack {f : UnpackedFloat} (h : Plus f) : Plus (Float.Model.pack f).unpack := by
  have hsign : unpackSign (UnpackedFloat.pack Format.binary64 f) = 0#1 := by
    fun_cases UnpackedFloat.pack Format.binary64 f <;>
      simp_all [Plus, packedNaN, packedInfinity, packedZero, unpackSign_packComponents,
        Sign.toBitVec]
  change Plus (UnpackedFloat.unpack Format.binary64 (UnpackedFloat.pack Format.binary64 f))
  simp only [UnpackedFloat.unpack, hsign, Sign.ofBitVec, if_true]
  split_ifs <;> trivial

theorem plus_of_positive {x : Double} (h : x.positive = true) : Plus x.unpack := by
  have hlt : UnpackedFloat.lt (.zero .positive) x.unpack = true := of_decide_eq_true h
  cases hx : x.unpack with
  | notANumber => trivial
  | zero sign => simp [hx, UnpackedFloat.lt, UnpackedFloat.compare] at hlt
  | infinity sign => cases sign <;> simp_all [Plus, UnpackedFloat.lt, UnpackedFloat.compare]
  | finite sign m e hm => cases sign <;> simp_all [Plus, UnpackedFloat.lt, UnpackedFloat.compare]

theorem plus_mul {f g : UnpackedFloat} (hf : Plus f) (hg : Plus g) :
    Plus (UnpackedFloat.mul Format.binary64 f g) := by
  have hsign : Sign.positive * Sign.positive = Sign.positive := rfl
  fun_cases UnpackedFloat.mul Format.binary64 f g <;> simp_all [Plus]
  simp only [roundWithAccuracy]
  split_ifs <;> rfl

theorem toInt_nonneg {f : UnpackedFloat} (h : Plus f) {a b : ℤ} (hb : 0 ≤ b) : 0 ≤ f.toInt a b := by
  cases f with
  | notANumber => exact Int.le_refl 0
  | zero sign => exact Int.le_refl 0
  | infinity sign =>
    cases h
    exact hb
  | finite sign m e hm =>
    cases h
    exact Int.natCast_nonneg _

theorem toInt64_nonneg {x : Double} (h : Plus x.unpack) : 0 ≤ x.toInt64.toInt := by
  have hx : 0 ≤ x.unpack.toInt Int64.minValue.toInt Int64.maxValue.toInt :=
    toInt_nonneg h (by decide)
  change 0 ≤ (Int64.ofIntClamp (x.unpack.toInt _ _)).toInt
  have hmin : Int64.minValue.toInt ≤ 0 := by decide
  unfold Int64.ofIntClamp
  split_ifs with hlow hhigh
  · rw [Int64.toInt_ofIntLE]
    exact hx
  · decide
  · exact absurd (hmin.trans hx) hlow

theorem toInt64_mul_nonneg {x y : Double} (hx : x.positive = true) (hy : y.positive = true) :
    0 ≤ (x * y).toInt64.toInt :=
  toInt64_nonneg (plus_unpack_pack (plus_mul (plus_of_positive hx) (plus_of_positive hy)))

end Double

end Matelib
