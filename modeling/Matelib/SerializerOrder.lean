import Matelib.Serializer

/-!
# The serializer in both byte orders

In the order `BigEndian` the bytes of every number are reversed on their way into and out of the
buffer. Reading undoes this for numbers and for the lengths of strings. Writing a string reverses
the bytes of its length in place and then uses the reversed length as the count of bytes to append:
`ByteOrder.count`. So a string is written correctly exactly when its length has two equal bytes.
-/

namespace Matelib

namespace ByteOrder

def arrange : ByteOrder → Bytes → Bytes
  | .BigEndian, data => data.reverse
  | .LittleEndian, data => data

@[simp] theorem length_arrange (o : ByteOrder) (data : Bytes) :
    (o.arrange data).length = data.length := by
  cases o with
  | BigEndian => exact List.length_reverse
  | LittleEndian => rfl

@[simp] theorem arrange_arrange (o : ByteOrder) (data : Bytes) :
    o.arrange (o.arrange data) = data := by
  cases o with
  | BigEndian => exact List.reverse_reverse data
  | LittleEndian => rfl

def count (o : ByteOrder) (n : ℕ) : ℕ := fromLittleEndian (o.arrange (littleEndian 2 n))

theorem count_bigEndian {n : ℕ} (h : n < 65536) :
    count .BigEndian n = n / 256 + 256 * (n % 256) := by
  have hlow : (UInt8.ofNat n).toNat = n % 256 := UInt8.toNat_ofNat'
  have hhigh : (UInt8.ofNat (n / 256)).toNat = n / 256 % 256 := UInt8.toNat_ofNat'
  change (UInt8.ofNat (n / 256)).toNat + 256 * ((UInt8.ofNat n).toNat + 256 * 0) = _
  rw [hlow, hhigh]
  omega

theorem count_littleEndian {n : ℕ} (h : n < 65536) : count .LittleEndian n = n :=
  fromLittleEndian_of_lt (n := 2) h

theorem count_eq_self {o : ByteOrder} {n : ℕ} (h : n < 65536) :
    o.count n = n ↔ o = .LittleEndian ∨ n % 257 = 0 := by
  cases o with
  | BigEndian =>
    rw [count_bigEndian h, or_iff_right (by decide)]
    omega
  | LittleEndian => exact iff_of_true (count_littleEndian h) (Or.inl rfl)

theorem count_gap {o : ByteOrder} {n d : ℕ} (h : n < 65536) (hgap : o.count n + d = n) :
    255 ∣ d := by
  cases o with
  | BigEndian =>
    rw [count_bigEndian h] at hgap
    omega
  | LittleEndian =>
    rw [count_littleEndian h] at hgap
    omega

theorem count_le {o : ByteOrder} {n : ℕ} (h : n < 65536) (hle : o.count n ≤ n + 1) :
    o.count n ≤ n := by
  cases o with
  | BigEndian =>
    rw [count_bigEndian h] at hle ⊢
    omega
  | LittleEndian => exact (count_littleEndian h).le

end ByteOrder

namespace Value

def encode (o : ByteOrder) : Value → Bytes
  | .int w x => o.arrange (littleEndian w.bytes x.toNat)
  | .str data => o.arrange (littleEndian 2 data.length) ++ data

def size : Value → ℕ
  | .int w _ => w.bytes
  | .str data => 2 + data.length

def sent (o : ByteOrder) : Value → ℕ
  | .int w _ => w.bytes
  | .str data => 2 + o.count data.length

/-- The count of a string is not changed by reversing its bytes. -/
def Kept (o : ByteOrder) : Value → Prop
  | .int _ _ => True
  | .str data => o.count data.length = data.length

theorem length_encode (o : ByteOrder) (v : Value) : (v.encode o).length = v.size := by
  cases v with
  | int w x => rw [encode, ByteOrder.length_arrange, length_littleEndian, size]
  | str data => rw [encode, List.length_append, ByteOrder.length_arrange, length_littleEndian, size]

theorem sent_eq_size {o : ByteOrder} {v : Value} : v.sent o = v.size ↔ v.Kept o := by
  cases v with
  | int w x => exact iff_of_true rfl trivial
  | str data => exact Nat.add_left_cancel_iff

theorem kept_iff {o : ByteOrder} {v : Value} (h : v.Legal) :
    v.Kept o ↔ o = .LittleEndian ∨ ∀ data, v = .str data → data.length % 257 = 0 := by
  cases v with
  | int w x => exact iff_of_true trivial (Or.inr fun _ hv => by cases hv)
  | str data =>
    rw [Kept, ByteOrder.count_eq_self h.2]
    apply or_congr_right
    constructor
    · rintro hlen _ ⟨⟩
      exact hlen
    · intro hall
      exact hall data rfl

end Value

namespace Serializer

namespace HoldsIn

variable {s : Serializer} {o : ByteOrder} {a : Bytes}

theorem reverse2LittleEndian (h : s.HoldsIn o a) (data : Bytes) :
    s.reverse2LittleEndian data = o.arrange data := by
  rw [Serializer.reverse2LittleEndian, h.1]
  cases o <;> rfl

theorem inputInt (h : s.HoldsIn o a) (w : Width) (x : BitVec (8 * w.bytes)) :
    (s.inputInt w x).HoldsIn o (a ++ (Value.int w x).encode o) := by
  rw [Serializer.inputInt, h.reverse2LittleEndian]
  exact h.append _

theorem inputStr_sent (h : s.HoldsIn o a) {data : Bytes} (hdata : (Value.str data).Legal)
    (hle : o.count data.length ≤ data.length) :
    ∃ s', s.inputStr data = some s' ∧
      s'.HoldsIn o (a ++ (o.arrange (littleEndian 2 data.length) ++
        data.take (o.count data.length))) := by
  have hcount : fromLittleEndian (o.arrange (littleEndian 2 data.length)) = o.count data.length :=
    rfl
  simp only [Serializer.inputStr, h.reverse2LittleEndian, cstr_eq_self hdata.1, hcount]
  by_cases hzero : o.count data.length = 0
  · rw [if_pos hzero, hzero, List.take_zero, List.append_nil]
    exact ⟨_, rfl, h.append _⟩
  · rw [if_neg hzero, if_pos (Nat.le_succ_of_le hle), List.take_append_of_le_length hle,
      ← List.append_assoc]
    exact ⟨_, rfl, (h.append _).append _⟩

theorem inputStr_none (h : s.HoldsIn o a) {data : Bytes} (hdata : (Value.str data).Legal)
    (hlt : data.length < o.count data.length) : s.inputStr data = none := by
  have hcount : fromLittleEndian (o.arrange (littleEndian 2 data.length)) = o.count data.length :=
    rfl
  have hbehind : ¬ o.count data.length ≤ data.length + 1 := by
    intro hle
    exact absurd (ByteOrder.count_le hdata.2 hle) (not_le_of_gt hlt)
  simp only [Serializer.inputStr, h.reverse2LittleEndian, cstr_eq_self hdata.1, hcount]
  rw [if_neg (Nat.ne_zero_of_lt hlt), if_neg hbehind]

theorem inputObj_sent (h : s.HoldsIn o a) {v : Value} (hv : v.Legal) {s' : Serializer}
    (hs' : s.inputObj v = some s') :
    v.sent o ≤ v.size ∧ ∃ bytes, bytes.length = v.sent o ∧ s'.HoldsIn o (a ++ bytes) := by
  cases v with
  | int w x =>
    cases hs'
    exact ⟨le_rfl, _, Value.length_encode o (.int w x), h.inputInt w x⟩
  | str data =>
    have hstr : s.inputStr data = some s' := hs'
    by_cases hle : o.count data.length ≤ data.length
    · obtain ⟨t, ht, hholds⟩ := h.inputStr_sent hv hle
      cases hstr.symm.trans ht
      refine ⟨Nat.add_le_add_left hle 2, _, ?_, hholds⟩
      rw [List.length_append, ByteOrder.length_arrange, length_littleEndian,
        List.length_take_of_le hle, Value.sent]
    · rw [h.inputStr_none hv (not_le.mp hle)] at hstr
      cases hstr

theorem inputObj_kept (h : s.HoldsIn o a) {v : Value} (hv : v.Legal) (hkept : v.Kept o) :
    ∃ s', s.inputObj v = some s' ∧ s'.HoldsIn o (a ++ v.encode o) := by
  cases v with
  | int w x => exact ⟨_, rfl, h.inputInt w x⟩
  | str data =>
    have hcount : o.count data.length = data.length := hkept
    obtain ⟨s', hs', hholds⟩ := h.inputStr_sent hv hcount.le
    rw [hcount, List.take_length] at hholds
    exact ⟨s', hs', hholds⟩

theorem packageArgs_sent (h : s.HoldsIn o a) {vs : List Value} (hvs : ∀ v ∈ vs, v.Legal)
    {s' : Serializer} (hs' : s.packageArgs vs = some s') :
    (∀ v ∈ vs, v.sent o ≤ v.size) ∧
      ∃ bytes, bytes.length = (vs.map (Value.sent o)).sum ∧ s'.HoldsIn o (a ++ bytes) := by
  induction vs generalizing s a with
  | nil =>
    cases hs'
    exact ⟨by simp, [], rfl, by rwa [List.append_nil]⟩
  | cons v vs ih =>
    rw [List.forall_mem_cons] at hvs ⊢
    rw [packageArgs, List.foldlM_cons] at hs'
    obtain ⟨t, ht, hrest⟩ := Option.bind_eq_some_iff.mp hs'
    obtain ⟨hle, bytes, hlen, hholds⟩ := h.inputObj_sent hvs.1 ht
    obtain ⟨hall, more, hmore, hlast⟩ := ih hholds hvs.2 hrest
    refine ⟨⟨hle, hall⟩, bytes ++ more, ?_, ?_⟩
    · rw [List.length_append, hlen, hmore, List.map_cons, List.sum_cons]
    · rwa [← List.append_assoc]

theorem packageArgs_kept (h : s.HoldsIn o a) {vs : List Value} (hvs : ∀ v ∈ vs, v.Legal)
    (hkept : ∀ v ∈ vs, v.Kept o) :
    ∃ s', s.packageArgs vs = some s' ∧ s'.HoldsIn o (a ++ vs.flatMap (Value.encode o)) := by
  induction vs generalizing s a with
  | nil => exact ⟨s, rfl, by rwa [List.flatMap_nil, List.append_nil]⟩
  | cons v vs ih =>
    rw [List.forall_mem_cons] at hvs hkept
    obtain ⟨t, ht, hholds⟩ := h.inputObj_kept hvs.1 hkept.1
    obtain ⟨s', hs', hlast⟩ := ih hholds hvs.2 hkept.2
    refine ⟨s', ?_, ?_⟩
    · rw [packageArgs, List.foldlM_cons, ht]
      exact hs'
    · rwa [List.flatMap_cons, ← List.append_assoc]

theorem outputInt_encode {w : Width} {x : BitVec (8 * w.bytes)} {rest : Bytes}
    (h : s.HoldsIn o ((Value.int w x).encode o ++ rest)) (obj : BitVec (8 * w.bytes)) :
    ∃ s', s.outputInt w obj = some (x, s') ∧ s'.HoldsIn o rest := by
  have hlen : ((Value.int w x).encode o).length = w.bytes := Value.length_encode o _
  have hx : x.toNat < 256 ^ w.bytes := by
    have hlt := x.isLt
    rwa [pow_mul] at hlt
  have hfit : w.bytes ≤ ((Value.int w x).encode o ++ rest).length := by
    rw [List.length_append, hlen]
    exact Nat.le_add_right _ _
  obtain ⟨s', hs', hrest⟩ := h.retrieve hfit
  rw [List.drop_left' hlen] at hrest
  refine ⟨s', ?_, hrest⟩
  have hbuf : fromLittleEndian (o.arrange (((Value.int w x).encode o ++ rest).take w.bytes)) =
      x.toNat := by
    rw [List.take_left' hlen, Value.encode, ByteOrder.arrange_arrange, fromLittleEndian_of_lt hx]
  rw [Serializer.outputInt, h.readableBytes, if_pos hfit]
  simp only [hs', h.current, h.reverse2LittleEndian, hbuf, BitVec.ofNat_toNat, BitVec.setWidth_eq,
    Option.map_some]

theorem outputStr_encode {data rest : Bytes} (h : s.HoldsIn o ((Value.str data).encode o ++ rest))
    (hdata : data.length < 65536) (target : Bytes) :
    ∃ s', s.outputStr target = some (data ++ target, s') ∧ s'.HoldsIn o rest := by
  have hmark : (o.arrange (littleEndian 2 data.length)).length = 2 := by
    rw [ByteOrder.length_arrange, length_littleEndian]
  have hlen : fromLittleEndian (littleEndian 2 data.length) = data.length :=
    fromLittleEndian_of_lt (n := 2) hdata
  rw [Value.encode, List.append_assoc] at h
  obtain ⟨t, ht, hbehind⟩ := h.retrieve (n := 2) (by rw [List.length_append, hmark]; omega)
  rw [List.drop_left' hmark] at hbehind
  simp only [Serializer.outputStr, h.current, h.reverse2LittleEndian, List.take_left' hmark,
    ByteOrder.arrange_arrange, hlen, ht, Option.bind_some]
  by_cases hzero : data.length = 0
  · rw [if_pos hzero]
    rw [List.eq_nil_of_length_eq_zero hzero] at hbehind ⊢
    exact ⟨t, rfl, hbehind⟩
  · obtain ⟨s', hs', hrest⟩ := hbehind.retrieve (n := data.length) (by
      rw [List.length_append]
      omega)
    rw [List.drop_left] at hrest
    rw [if_neg hzero, hs', hbehind.current, List.take_left, Option.map_some]
    exact ⟨s', rfl, hrest⟩

theorem outputObj_encode {v : Value} {rest : Bytes} (h : s.HoldsIn o (v.encode o ++ rest))
    (hv : v.Legal) :
    ∃ s', s.outputObj (Value.default v.ty) = some (v, s') ∧ s'.HoldsIn o rest := by
  cases v with
  | int w x =>
    obtain ⟨s', hs', hrest⟩ := h.outputInt_encode 0
    refine ⟨s', ?_, hrest⟩
    rw [Value.ty, Value.default, Serializer.outputObj, hs', Option.map_some]
  | str data =>
    obtain ⟨s', hs', hrest⟩ := h.outputStr_encode hv.2 []
    refine ⟨s', ?_, hrest⟩
    rw [Value.ty, Value.default, Serializer.outputObj, hs', Option.map_some, List.append_nil]

theorem getTuple_encode {vs : List Value} {rest : Bytes}
    (h : s.HoldsIn o (vs.flatMap (Value.encode o) ++ rest)) (hvs : ∀ v ∈ vs, v.Legal) :
    ∃ s', getTuple (vs.map Value.ty) s = some (vs, s') ∧ s'.HoldsIn o rest := by
  induction vs generalizing s with
  | nil => exact ⟨s, rfl, h⟩
  | cons v vs ih =>
    rw [List.forall_mem_cons] at hvs
    rw [List.flatMap_cons, List.append_assoc] at h
    obtain ⟨t, ht, hbehind⟩ := h.outputObj_encode hvs.1
    obtain ⟨s', hs', hrest⟩ := ih hbehind hvs.2
    refine ⟨s', ?_, hrest⟩
    rw [List.map_cons, getTuple, ht, Option.bind_some, hs', Option.map_some]

end HoldsIn

/-- Writing the values appends as many bytes as their encodings have and reads nothing behind the
end of a string, and reading their types gives the values back and leaves the serializer empty. -/
def ListTrip (s : Serializer) (vs : List Value) : Prop :=
  ∃ s₁ s₂, s.packageArgs vs = some s₁ ∧ s₁.readableBytes = (vs.map Value.size).sum ∧
    getTuple (vs.map Value.ty) s₁ = some (vs, s₂) ∧ s₂.readableBytes = 0

theorem HoldsIn.listTrip_iff {s : Serializer} {o : ByteOrder} (h : s.HoldsIn o [])
    {vs : List Value} (hvs : ∀ v ∈ vs, v.Legal) : ListTrip s vs ↔ ∀ v ∈ vs, v.Kept o := by
  constructor
  · rintro ⟨s₁, s₂, hs₁, hlen, -⟩ v hv
    obtain ⟨hle, bytes, hbytes, hholds⟩ := h.packageArgs_sent hvs hs₁
    rw [hholds.readableBytes, List.nil_append, hbytes] at hlen
    by_contra hnot
    have hne : v.sent o ≠ v.size := fun heq => hnot (Value.sent_eq_size.mp heq)
    have hsum := List.sum_lt_sum (Value.sent o) Value.size hle ⟨v, hv, (hle v hv).lt_of_ne hne⟩
    exact hsum.ne hlen
  · intro hkept
    obtain ⟨s₁, hs₁, h₁⟩ := h.packageArgs_kept hvs hkept
    have hin := h₁
    rw [List.nil_append, ← List.append_nil (vs.flatMap _)] at hin
    obtain ⟨s₂, hs₂, h₂⟩ := hin.getTuple_encode hvs
    refine ⟨s₁, s₂, hs₁, ?_, hs₂, h₂.readableBytes⟩
    rw [h₁.readableBytes, List.nil_append, List.length_flatMap]
    exact congrArg List.sum (List.map_congr_left fun v _ => Value.length_encode o v)

/-- In the order `BigEndian` a list is written and read back exactly when the length of each of its
strings has two equal bytes, that is when it is a multiple of 257. -/
theorem bigEndian_listTrip_iff {s : Serializer} (horder : s.byteOrder = .BigEndian)
    (hempty : s.streamBuffer.readable = []) {vs : List Value} (hvs : ∀ v ∈ vs, v.Legal) :
    ListTrip s vs ↔ ∀ data, Value.str data ∈ vs → data.length % 257 = 0 := by
  rw [HoldsIn.listTrip_iff ⟨horder, hempty⟩ hvs]
  constructor
  · intro hkept data hmem
    have hiff := (Value.kept_iff (hvs _ hmem)).mp (hkept _ hmem)
    exact hiff.resolve_left (by decide) data rfl
  · intro hall v hv
    rw [Value.kept_iff (hvs v hv)]
    refine Or.inr ?_
    rintro data rfl
    exact hall data hv

def bigEndianInit : Serializer := ⟨.BigEndian, ValidBuffer.empty⟩

/-- Integers are written and read back. -/
theorem bigEndianInit_listTrip : ListTrip bigEndianInit [.int .w32 1, .str [], .int .w16 2] :=
  (bigEndian_listTrip_iff rfl ValidBuffer.readable_empty (by decide)).mpr (by
    intro data hdata
    simp at hdata
    rw [hdata]
    rfl)

/-- A string of one byte is written as one of 256 bytes. -/
theorem bigEndianInit_not_listTrip : bigEndianInit.packageArgs [.str [97]] = none ∧
    ¬ ListTrip bigEndianInit [.str [97]] := by
  have hnone : bigEndianInit.packageArgs [.str [97]] = none := by decide +kernel
  refine ⟨hnone, ?_⟩
  rintro ⟨s₁, s₂, hs₁, -⟩
  rw [hnone] at hs₁
  cases hs₁

end Serializer

end Matelib
