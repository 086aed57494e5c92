import Mathlib.Data.List.TakeWhile
import Matelib.Buffer

/-!
# Text as bytes

String literals, the byte order of `std::string`, and the parts of the C library that the code
uses on text: `isspace`, `%d`, `snprintf` into an array of fixed size and `strlen`.
-/

namespace Matelib

instance uint8LinearOrder : LinearOrder UInt8 where
  le_refl := UInt8.le_refl
  le_trans _ _ _ := UInt8.le_trans
  le_antisymm _ _ := UInt8.le_antisymm
  le_total := UInt8.le_total
  lt_iff_le_not_ge a b := by
    simp only [UInt8.lt_iff_toNat_lt, UInt8.le_iff_toNat_le]
    omega
  toDecidableLE := inferInstance

/-- The bytes of a literal whose characters are all ASCII. -/
def ascii (s : String) : Bytes := s.toList.map fun c => c.toNat.toUInt8

def space : UInt8 := 32
def colon : UInt8 := 58

/-- `isspace` in the C locale: the blank and the controls from tab to carriage return. -/
def isspace (c : UInt8) : Bool := c = 32 || (9 ≤ c && c ≤ 13)

/-- The texts before and after the first `c`, which `std::find` locates; `none` without a `c`. -/
def cut (c : UInt8) : Bytes → Option (Bytes × Bytes)
  | [] => none
  | x :: text => if x = c then some ([], text) else (cut c text).map fun p => (x :: p.1, p.2)

theorem cut_append {c : UInt8} {a : Bytes} (h : c ∉ a) (b : Bytes) :
    cut c (a ++ c :: b) = some (a, b) := by
  induction a with
  | nil => rw [List.nil_append, cut, if_pos rfl]
  | cons x a ih =>
    rw [List.mem_cons, not_or] at h
    rw [List.cons_append, cut, if_neg (Ne.symm h.1), ih h.2, Option.map_some]

theorem cut_eq_none {c : UInt8} {text : Bytes} : cut c text = none ↔ c ∉ text := by
  induction text with
  | nil => simp [cut]
  | cons x text ih =>
    rw [cut, List.mem_cons, not_or]
    split_ifs with h
    · simp [h]
    · rw [Option.map_eq_none_iff, ih]
      simp [Ne.symm h]

theorem cut_eq_some {c : UInt8} {text a b : Bytes} :
    cut c text = some (a, b) ↔ c ∉ a ∧ text = a ++ c :: b := by
  constructor
  · intro h
    induction text generalizing a with
    | nil => cases h
    | cons x text ih =>
      rw [cut] at h
      split_ifs at h with hx
      · cases h
        exact ⟨List.not_mem_nil, by rw [hx, List.nil_append]⟩
      · obtain ⟨⟨a', b'⟩, hcut, heq⟩ := Option.map_eq_some_iff.mp h
        cases heq
        obtain ⟨hnot, rfl⟩ := ih hcut
        refine ⟨?_, rfl⟩
        rw [List.mem_cons, not_or]
        exact ⟨Ne.symm hx, hnot⟩
  · rintro ⟨hnot, rfl⟩
    exact cut_append hnot b

/-- The text that `printf` writes for `%d`. -/
def decimal (n : ℤ) : Bytes := ascii (toString n)

/-- `snprintf` into an array of `size` bytes, the last of which is the terminating zero. -/
def snprintf (size : ℕ) (text : Bytes) : Bytes := text.take (size - 1)

/-- The bytes of a C string, which end before the first zero byte. -/
def cstr (data : Bytes) : Bytes := data.takeWhile (· ≠ 0)

theorem cstr_eq_self {data : Bytes} (h : 0 ∉ data) : cstr data = data :=
  List.takeWhile_eq_self_iff.mpr fun _ hb => decide_eq_true (ne_of_mem_of_not_mem hb h)

end Matelib
