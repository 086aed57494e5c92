import Mathlib.Tactic

/-!
# Codecs

A codec writes values as lists and reads them back by their tag: reading what was written, with
anything behind it, gives the value and leaves what was behind it. Codecs extend to lists of
values. Little-endian numerals are the codec of the integers of a fixed width.
-/

namespace Matelib

/-- `tag` is what a reader must know of a value to read it; the law is about `Legal` values. -/
structure Codec (τ α β : Type*) where
  tag : α → τ
  write : α → List β
  read : τ → List β → Option (α × List β)
  Legal : α → Prop
  read_write : ∀ a rest, Legal a → read (tag a) (write a ++ rest) = some (a, rest)

namespace Codec

variable {τ α β : Type*} (C : Codec τ α β)

def readAll : List τ → List β → Option (List α × List β)
  | [], l => some ([], l)
  | t :: ts, l => (C.read t l).bind fun p => (readAll ts p.2).map fun q => (p.1 :: q.1, q.2)

theorem readAll_cons {t : τ} {ts : List τ} {l l' : List β} {a : α} (h : C.read t l = some (a, l')) :
    C.readAll (t :: ts) l = (C.readAll ts l').map fun q => (a :: q.1, q.2) := by
  rw [readAll, h, Option.bind_some]

theorem readAll_congr {C D : Codec τ α β} (h : C.read = D.read) (ts : List τ) (l : List β) :
    C.readAll ts l = D.readAll ts l := by
  induction ts generalizing l with
  | nil => rfl
  | cons t ts ih => simp only [readAll, h, ih]

theorem readAll_write {as : List α} (h : ∀ a ∈ as, C.Legal a) (rest : List β) :
    C.readAll (as.map C.tag) (as.flatMap C.write ++ rest) = some (as, rest) := by
  induction as with
  | nil => rfl
  | cons a as ih =>
    rw [List.forall_mem_cons] at h
    rw [List.map_cons, List.flatMap_cons, List.append_assoc,
      C.readAll_cons (C.read_write a _ h.1), ih h.2, Option.map_some]

end Codec

/-- The lowest `n` base-256 digits of `v`, the lowest first. -/
def littleEndian : ℕ → ℕ → List UInt8
  | 0, _ => []
  | n + 1, v => UInt8.ofNat v :: littleEndian n (v / 256)

def fromLittleEndian : List UInt8 → ℕ
  | [] => 0
  | b :: bs => b.toNat + 256 * fromLittleEndian bs

@[simp] theorem length_littleEndian (n v : ℕ) : (littleEndian n v).length = n := by
  induction n generalizing v with
  | zero => rfl
  | succ n ih => rw [littleEndian, List.length_cons, ih]

theorem fromLittleEndian_littleEndian (n v : ℕ) :
    fromLittleEndian (littleEndian n v) = v % 256 ^ n := by
  induction n generalizing v with
  | zero => rw [littleEndian, fromLittleEndian, pow_zero, Nat.mod_one]
  | succ n ih =>
    have hdigit : (UInt8.ofNat v).toNat = v % 256 := UInt8.toNat_ofNat'
    rw [littleEndian, fromLittleEndian, ih, hdigit, pow_succ', Nat.mod_mul]

theorem fromLittleEndian_of_lt {n v : ℕ} (h : v < 256 ^ n) :
    fromLittleEndian (littleEndian n v) = v := by
  rw [fromLittleEndian_littleEndian, Nat.mod_eq_of_lt h]

theorem fromLittleEndian_lt (bs : List UInt8) : fromLittleEndian bs < 256 ^ bs.length := by
  induction bs with
  | nil => exact Nat.one_pos
  | cons b bs ih =>
    have hb : b.toNat < 256 := b.toNat_lt
    rw [fromLittleEndian, List.length_cons, pow_succ]
    omega

theorem littleEndian_fromLittleEndian (bs : List UInt8) :
    littleEndian bs.length (fromLittleEndian bs) = bs := by
  induction bs with
  | nil => rfl
  | cons b bs ih =>
    have hb : b.toNat < 256 := b.toNat_lt
    have hdigit : UInt8.ofNat (b.toNat + 256 * fromLittleEndian bs) = b := by
      rw [← UInt8.toNat_inj, UInt8.toNat_ofNat']
      omega
    have hrest : (b.toNat + 256 * fromLittleEndian bs) / 256 = fromLittleEndian bs := by
      omega
    rw [List.length_cons, fromLittleEndian, littleEndian, hdigit, hrest, ih]

theorem littleEndian_mod (n v : ℕ) : littleEndian n (v % 256 ^ n) = littleEndian n v := by
  induction n generalizing v with
  | zero => rfl
  | succ n ih =>
    have hdigit : UInt8.ofNat (v % 256 ^ (n + 1)) = UInt8.ofNat v := by
      rw [← UInt8.toNat_inj, UInt8.toNat_ofNat', UInt8.toNat_ofNat', pow_succ']
      exact Nat.mod_mul_right_mod v 256 (256 ^ n)
    rw [littleEndian, littleEndian, hdigit, pow_succ', Nat.mod_mul_right_div_self, ih]

end Matelib
