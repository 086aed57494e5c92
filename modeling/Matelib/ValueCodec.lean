import Matelib.RpcServer
import Matelib.SerializerOrder

/-!
# Writing and reading `value_t`

`operator<<` writes the state code, the message and the value of a `value_t`, whatever the state
code is; `operator>>` reads the value only behind `RPC_SUCCESS`. A list of `value_t` is written into
one serializer and read back from it, with the number of bytes that each of them takes on either
side. Both numbers agree for all of them exactly when the list holds successes only and the
serializer keeps the lengths of its strings.
-/

namespace Matelib

namespace Serializer.HoldsIn

variable {s s' : Serializer} {o : ByteOrder} {b : Bytes}

theorem outputInt_takes (h : s.HoldsIn o b) {w : Width} {obj x : BitVec (8 * w.bytes)}
    (hread : s.outputInt w obj = some (x, s')) :
    (∃ b', s'.HoldsIn o b' ∧ b.length = b'.length + w.bytes) ∨
      (b.length < w.bytes ∧ x = obj ∧ s' = s) := by
  rw [Serializer.outputInt, h.readableBytes] at hread
  by_cases hfit : w.bytes ≤ b.length
  · obtain ⟨t, ht, hrest⟩ := h.retrieve hfit
    rw [if_pos hfit, ht, Option.map_some] at hread
    cases hread
    refine Or.inl ⟨_, hrest, ?_⟩
    rw [List.length_drop]
    omega
  · rw [if_neg hfit] at hread
    cases hread
    exact Or.inr ⟨not_le.mp hfit, rfl, rfl⟩

theorem outputStr_takes (h : s.HoldsIn o b) {str : Bytes}
    (hread : s.outputStr [] = some (str, s')) :
    ∃ b', s'.HoldsIn o b' ∧ b.length = b'.length + (2 + str.length) := by
  simp only [Serializer.outputStr] at hread
  obtain ⟨t, ht, hread⟩ := Option.bind_eq_some_iff.mp hread
  obtain ⟨hmark, hbehind⟩ := h.of_retrieve ht
  have htail : (b.drop 2).length = b.length - 2 := List.length_drop
  split_ifs at hread with hzero
  · cases hread
    refine ⟨_, hbehind, ?_⟩
    rw [htail, List.length_nil]
    omega
  · obtain ⟨u, hu, hlast⟩ := Option.map_eq_some_iff.mp hread
    cases hlast
    obtain ⟨hfit, hrest⟩ := hbehind.of_retrieve hu
    refine ⟨_, hrest, ?_⟩
    rw [List.append_nil, hbehind.current, List.length_take_of_le hfit, List.length_drop, htail]
    omega

theorem outputObj_takes (h : s.HoldsIn o b) {v : Value}
    (hread : s.outputObj (Value.default v.ty) = some (v, s')) :
    ∃ b', s'.HoldsIn o b' ∧ (b.length = b'.length + v.size ∨
      (b.length = b'.length ∧ ∃ w, v.ty = .int w)) := by
  cases v with
  | int w x =>
    obtain ⟨⟨y, t⟩, hint, hlast⟩ := Option.map_eq_some_iff.mp hread
    cases hlast
    rcases h.outputInt_takes hint with ⟨b', hb', hlen⟩ | ⟨_, _, rfl⟩
    · exact ⟨b', hb', Or.inl hlen⟩
    · exact ⟨b, h, Or.inr ⟨rfl, w, rfl⟩⟩
  | str data =>
    obtain ⟨⟨str, t⟩, hstr, hlast⟩ := Option.map_eq_some_iff.mp hread
    cases hlast
    obtain ⟨b', hb', hlen⟩ := h.outputStr_takes hstr
    exact ⟨b', hb', Or.inl hlen⟩

end Serializer.HoldsIn

namespace ValueT

open Serializer

/-- What the format can carry. -/
def Legal (val : ValueT) : Prop := (Value.str val.msg).Legal ∧ val.value.Legal

def encodeAll (o : ByteOrder) (val : ValueT) : Bytes :=
  (Value.int .w32 val.stateCode).encode o ++ ((Value.str val.msg).encode o ++ val.value.encode o)

/-- The number of bytes that `operator<<` writes. -/
def sent (o : ByteOrder) (val : ValueT) : ℕ :=
  Width.w32.bytes + ((Value.str val.msg).sent o + val.value.sent o)

/-- A value is written whole and read whole: it is a success, and the order keeps the lengths of its
strings. -/
structure Whole (o : ByteOrder) (val : ValueT) : Prop where
  success : val.stateCode = RPC_SUCCESS
  msg : (Value.str val.msg).Kept o
  value : val.value.Kept o

def writeAll : Serializer → List ValueT → Option (List ℕ × Serializer)
  | s, [] => some ([], s)
  | s, val :: vals => (write s val).bind fun s' =>
    (writeAll s' vals).map fun r => ((s'.readableBytes - s.readableBytes) :: r.1, r.2)

/-- `value_t`s of these types read one after another, with the number of bytes that each of them
takes. The type for `void` is that of its `int8_t`. -/
def readAll : List Ty → Serializer → Option (List (ValueT × ℕ) × Serializer)
  | [], s => some ([], s)
  | t :: ts, s => (read s (init (some t))).bind fun p =>
    (readAll ts p.2).map fun r => ((p.1, s.readableBytes - p.2.readableBytes) :: r.1, r.2)

/-- The list is written behind what the serializer holds, other data follow, and the list is read
when everything in front of it has been read: each element comes back unchanged from exactly the
bytes that were written for it, and the other data are left. -/
def RoundTrip (s : Serializer) (vals : List ValueT) (rest : Bytes) : Prop :=
  ∃ counts s₁ s₂ s₃, writeAll s vals = some (counts, s₁) ∧
    (s₁.append rest).retrieve s.readableBytes = some s₂ ∧
    readAll (vals.map fun val => val.value.ty) s₂ = some (vals.zip counts, s₃) ∧
    s₃.streamBuffer.readable = rest

variable {o : ByteOrder} {val : ValueT} {vals : List ValueT}

theorem write_sent {s s' : Serializer} {a : Bytes} (h : s.HoldsIn o a) (hval : val.Legal)
    (hs' : write s val = some s') :
    (Value.str val.msg).sent o ≤ (Value.str val.msg).size ∧ val.value.sent o ≤ val.value.size ∧
      ∃ bytes, bytes.length = val.sent o ∧ s'.HoldsIn o (a ++ bytes) := by
  obtain ⟨t, ht, hlast⟩ := Option.bind_eq_some_iff.mp hs'
  have hcode := h.inputInt .w32 val.stateCode
  obtain ⟨hmsg, b₁, hb₁, h₁⟩ := hcode.inputObj_sent hval.1 ht
  obtain ⟨hvalue, b₂, hb₂, h₂⟩ := h₁.inputObj_sent hval.2 hlast
  refine ⟨hmsg, hvalue, (Value.int .w32 val.stateCode).encode o ++ (b₁ ++ b₂), ?_, ?_⟩
  · rw [List.length_append, List.length_append, Value.length_encode, hb₁, hb₂]
    rfl
  · rwa [List.append_assoc, List.append_assoc] at h₂

theorem write_whole {s : Serializer} {a : Bytes} (h : s.HoldsIn o a) (hval : val.Legal)
    (hwhole : val.Whole o) :
    ∃ s', write s val = some s' ∧ s'.HoldsIn o (a ++ val.encodeAll o) := by
  have hcode := h.inputInt .w32 val.stateCode
  obtain ⟨t, ht, h₁⟩ := hcode.inputObj_kept hval.1 hwhole.msg
  obtain ⟨s', hs', h₂⟩ := h₁.inputObj_kept hval.2 hwhole.value
  rw [List.append_assoc, List.append_assoc] at h₂
  exact ⟨s', Option.bind_eq_some_iff.mpr ⟨t, ht, hs'⟩, h₂⟩

theorem writeAll_sent {s s₁ : Serializer} {a : Bytes} (h : s.HoldsIn o a)
    (hvals : ∀ val ∈ vals, val.Legal) {counts : List ℕ}
    (hs₁ : writeAll s vals = some (counts, s₁)) :
    counts = vals.map (sent o) ∧
      (∀ val ∈ vals, (Value.str val.msg).sent o ≤ (Value.str val.msg).size ∧
        val.value.sent o ≤ val.value.size) ∧
      ∃ bytes, bytes.length = (vals.map (sent o)).sum ∧ s₁.HoldsIn o (a ++ bytes) := by
  induction vals generalizing s a counts with
  | nil =>
    cases hs₁
    exact ⟨rfl, by simp, [], rfl, by rwa [List.append_nil]⟩
  | cons val vals ih =>
    rw [List.forall_mem_cons] at hvals
    obtain ⟨t, ht, hrest⟩ := Option.bind_eq_some_iff.mp hs₁
    obtain ⟨⟨cs, u⟩, hcs, hlast⟩ := Option.map_eq_some_iff.mp hrest
    cases hlast
    obtain ⟨hmsg, hvalue, bytes, hlen, hholds⟩ := write_sent h hvals.1 ht
    obtain ⟨rfl, hall, more, hmore, hend⟩ := ih hholds hvals.2 hcs
    refine ⟨?_, List.forall_mem_cons.mpr ⟨⟨hmsg, hvalue⟩, hall⟩, bytes ++ more, ?_, ?_⟩
    · rw [h.readableBytes, hholds.readableBytes, List.length_append, Nat.add_sub_cancel_left, hlen,
        List.map_cons]
    · rw [List.length_append, hlen, hmore, List.map_cons, List.sum_cons]
    · rwa [← List.append_assoc]

theorem writeAll_whole {s : Serializer} {a : Bytes} (h : s.HoldsIn o a)
    (hvals : ∀ val ∈ vals, val.Legal) (hwhole : ∀ val ∈ vals, val.Whole o) :
    ∃ s₁, writeAll s vals = some (vals.map fun val => (val.encodeAll o).length, s₁) ∧
      s₁.HoldsIn o (a ++ vals.flatMap (encodeAll o)) := by
  induction vals generalizing s a with
  | nil => exact ⟨s, rfl, by rwa [List.flatMap_nil, List.append_nil]⟩
  | cons val vals ih =>
    rw [List.forall_mem_cons] at hvals hwhole
    obtain ⟨t, ht, hholds⟩ := write_whole h hvals.1 hwhole.1
    obtain ⟨s₁, hs₁, hend⟩ := ih hholds hvals.2 hwhole.2
    refine ⟨s₁, ?_, ?_⟩
    · rw [writeAll, ht, Option.bind_some, hs₁, Option.map_some, h.readableBytes,
        hholds.readableBytes, List.length_append, Nat.add_sub_cancel_left, List.map_cons]
    · rwa [List.flatMap_cons, ← List.append_assoc]

/-- The numbers of bytes that `operator>>` may take for a value: all three parts, or only the first
two when the state code is no success, so that the value stays as it was, or when an integer is
missing. -/
def Takes (val : ValueT) (n : ℕ) : Prop :=
  (val.stateCode = RPC_SUCCESS ∧
      n = Width.w32.bytes + ((Value.str val.msg).size + val.value.size)) ∨
    (n = Width.w32.bytes + (Value.str val.msg).size ∧
      ((∃ w, val.value.ty = .int w) ∨ val.value = Value.default val.value.ty))

theorem read_takes {s s' : Serializer} {b : Bytes} (h : s.HoldsIn o b)
    (hlong : Width.w32.bytes ≤ b.length)
    (hread : read s (init (some val.value.ty)) = some (val, s')) :
    ∃ b' n, s'.HoldsIn o b' ∧ b.length = b'.length + n ∧ Takes val n := by
  obtain ⟨⟨code, s₁⟩, hcode, hread⟩ := Option.bind_eq_some_iff.mp hread
  obtain ⟨⟨msg, s₂⟩, hmsg, hread⟩ := Option.bind_eq_some_iff.mp hread
  rcases h.outputInt_takes hcode with ⟨b₁, h₁, hlen₁⟩ | ⟨hshort, -⟩
  · obtain ⟨b₂, h₂, hlen₂⟩ := h₁.outputStr_takes hmsg
    have hsize : (Value.str msg).size = 2 + msg.length := rfl
    dsimp only at hread
    split_ifs at hread with hsuccess
    · obtain ⟨⟨value, s₃⟩, hvalue, hlast⟩ := Option.map_eq_some_iff.mp hread
      rw [Prod.mk.injEq] at hlast
      obtain ⟨rfl, rfl⟩ := hlast
      have hvalue' : s₂.outputObj (Value.default value.ty) = some (value, s₃) := hvalue
      obtain ⟨b₃, h₃, hlen₃⟩ := h₂.outputObj_takes hvalue'
      rcases hlen₃ with hlen₃ | ⟨hlen₃, hint⟩
      · refine ⟨b₃, _, h₃, ?_, Or.inl ⟨hsuccess, rfl⟩⟩
        dsimp only
        omega
      · refine ⟨b₃, _, h₃, ?_, Or.inr ⟨rfl, Or.inl hint⟩⟩
        dsimp only
        omega
    · rw [Option.some.injEq, Prod.mk.injEq] at hread
      obtain ⟨hval, rfl⟩ := hread
      have hmsg' : val.msg = msg := by rw [← hval]
      have hdefault : val.value = Value.default val.value.ty := by
        conv_lhs => rw [← hval]
        rfl
      refine ⟨b₂, _, h₂, ?_, Or.inr ⟨rfl, Or.inr hdefault⟩⟩
      rw [hmsg']
      omega
  · omega

/-- The value that is skipped has too few bytes to make up for a string that was written short. -/
theorem whole_of_takes (hval : val.Legal)
    (hmsg : (Value.str val.msg).sent o ≤ (Value.str val.msg).size)
    (hvalue : val.value.sent o ≤ val.value.size) (htakes : Takes val (val.sent o)) :
    val.Whole o := by
  rw [Takes, sent] at htakes
  rcases htakes with ⟨hsuccess, hlen⟩ | ⟨hlen, hshort⟩
  · refine ⟨hsuccess, Value.sent_eq_size.mp ?_, Value.sent_eq_size.mp ?_⟩
    · omega
    · omega
  · have hsmall : 0 < val.value.sent o ∧ val.value.sent o < 255 := by
      cases hv : val.value with
      | int w x =>
        rw [Value.sent]
        cases w <;> decide
      | str data =>
        rw [hv] at hshort
        rcases hshort with ⟨w, hw⟩ | hdefault
        · cases hw
        · cases hdefault
          have hzero : o.count 0 = 0 := (ByteOrder.count_eq_self (by decide)).mpr (Or.inr rfl)
          rw [Value.sent, List.length_nil, hzero]
          decide
    have hgap : o.count val.msg.length + val.value.sent o = val.msg.length := by
      have hmsgSent : (Value.str val.msg).sent o = 2 + o.count val.msg.length := rfl
      have hmsgSize : (Value.str val.msg).size = 2 + val.msg.length := rfl
      omega
    have hdvd := ByteOrder.count_gap hval.1.2 hgap
    exact absurd (Nat.le_of_dvd hsmall.1 hdvd) (not_le_of_gt hsmall.2)

theorem read_whole {s : Serializer} {rest : Bytes} (h : s.HoldsIn o (val.encodeAll o ++ rest))
    (hval : val.Legal) (hsuccess : val.stateCode = RPC_SUCCESS) :
    ∃ s', read s (init (some val.value.ty)) = some (val, s') ∧ s'.HoldsIn o rest := by
  rw [encodeAll, List.append_assoc, List.append_assoc] at h
  obtain ⟨s₁, hcode, h₁⟩ := h.outputInt_encode (init (some val.value.ty)).stateCode
  obtain ⟨s₂, hmsg, h₂⟩ := h₁.outputStr_encode hval.1.2 []
  obtain ⟨s₃, hvalue, h₃⟩ := h₂.outputObj_encode hval.2
  have hmsg' : s₁.outputStr (init (some val.value.ty)).msg = some (val.msg, s₂) := by
    rw [List.append_nil] at hmsg
    exact hmsg
  have hvalue' : s₂.outputObj (init (some val.value.ty)).value = some (val.value, s₃) := hvalue
  refine ⟨s₃, ?_, h₃⟩
  simp only [read, hcode, Option.bind_some, hmsg', if_pos hsuccess, hvalue', Option.map_some]

theorem readAll_takes {s s₃ : Serializer} {b : Bytes} (h : s.HoldsIn o b)
    (hlong : (vals.map (sent o)).sum ≤ b.length) (hvals : ∀ val ∈ vals, val.Legal)
    (hsizes : ∀ val ∈ vals, (Value.str val.msg).sent o ≤ (Value.str val.msg).size ∧
      val.value.sent o ≤ val.value.size)
    (hread : readAll (vals.map fun val => val.value.ty) s =
      some (vals.zip (vals.map (sent o)), s₃)) : ∀ val ∈ vals, val.Whole o := by
  induction vals generalizing s b with
  | nil => simp
  | cons val vals ih =>
    rw [List.forall_mem_cons] at hvals hsizes ⊢
    rw [List.map_cons, List.sum_cons] at hlong
    obtain ⟨⟨val', t⟩, hval, hread⟩ := Option.bind_eq_some_iff.mp hread
    obtain ⟨⟨rs, u⟩, hrs, hlast⟩ := Option.map_eq_some_iff.mp hread
    simp only [List.map_cons, List.zip_cons_cons, Prod.mk.injEq, List.cons.injEq] at hlast
    obtain ⟨⟨⟨rfl, hcount⟩, rfl⟩, rfl⟩ := hlast
    have hfirst : Width.w32.bytes ≤ b.length := by
      rw [sent] at hlong
      omega
    obtain ⟨b', n, hb', hlen, htakes⟩ := read_takes h hfirst hval
    rw [h.readableBytes, hb'.readableBytes, hlen, Nat.add_sub_cancel_left] at hcount
    subst hcount
    have hwhole := whole_of_takes hvals.1 hsizes.1.1 hsizes.1.2 htakes
    exact ⟨hwhole, ih hb' (by omega) hvals.2 hsizes.2 hrs⟩

theorem readAll_whole {s : Serializer} {rest : Bytes}
    (h : s.HoldsIn o (vals.flatMap (encodeAll o) ++ rest)) (hvals : ∀ val ∈ vals, val.Legal)
    (hwhole : ∀ val ∈ vals, val.Whole o) :
    ∃ s₃, readAll (vals.map fun val => val.value.ty) s =
      some (vals.zip (vals.map fun val => (val.encodeAll o).length), s₃) ∧ s₃.HoldsIn o rest := by
  induction vals generalizing s with
  | nil => exact ⟨s, rfl, h⟩
  | cons val vals ih =>
    rw [List.forall_mem_cons] at hvals hwhole
    rw [List.flatMap_cons, List.append_assoc] at h
    obtain ⟨t, ht, hbehind⟩ := read_whole h hvals.1 hwhole.1.success
    obtain ⟨s₃, hs₃, hend⟩ := ih hbehind hvals.2 hwhole.2
    refine ⟨s₃, ?_, hend⟩
    rw [List.map_cons, readAll, ht, Option.bind_some, hs₃, Option.map_some, h.readableBytes,
      hbehind.readableBytes, List.length_append, Nat.add_sub_cancel, List.map_cons,
      List.zip_cons_cons]

theorem roundTrip_iff_whole (s : Serializer) (hvals : ∀ val ∈ vals, val.Legal) (rest : Bytes) :
    RoundTrip s vals rest ↔ ∀ val ∈ vals, val.Whole s.byteOrder := by
  have h : s.HoldsIn s.byteOrder s.streamBuffer.readable := ⟨rfl, rfl⟩
  have hskip : ∀ {s₁ : Serializer} {bytes : Bytes},
      s₁.HoldsIn s.byteOrder (s.streamBuffer.readable ++ bytes) →
      ∃ s₂, (s₁.append rest).retrieve s.readableBytes = some s₂ ∧
        s₂.HoldsIn s.byteOrder (bytes ++ rest) := by
    intro s₁ bytes h₁
    have hall := h₁.append rest
    rw [List.append_assoc] at hall
    obtain ⟨s₂, hs₂, h₂⟩ := hall.retrieve (n := s.readableBytes) (by
      rw [h.readableBytes, List.length_append]
      exact Nat.le_add_right _ _)
    rw [h.readableBytes, List.drop_left] at h₂
    exact ⟨s₂, hs₂, h₂⟩
  constructor
  · rintro ⟨counts, s₁, s₂, s₃, hwrite, hs₂, hread, -⟩
    obtain ⟨rfl, hsizes, bytes, hlen, h₁⟩ := writeAll_sent h hvals hwrite
    obtain ⟨t, ht, h₂⟩ := hskip h₁
    cases hs₂.symm.trans ht
    refine readAll_takes h₂ ?_ hvals hsizes hread
    rw [List.length_append, hlen]
    exact Nat.le_add_right _ _
  · intro hwhole
    obtain ⟨s₁, hs₁, h₁⟩ := writeAll_whole h hvals hwhole
    obtain ⟨s₂, hs₂, h₂⟩ := hskip h₁
    obtain ⟨s₃, hs₃, h₃⟩ := readAll_whole h₂ hvals hwhole
    exact ⟨_, s₁, s₂, s₃, hs₁, hs₂, hs₃, h₃.2⟩

/-- A list of `value_t` is read back exactly when all of them are successes and, in the order
`BigEndian`, the lengths of their strings are multiples of 257. -/
theorem roundTrip_iff {s : Serializer} {vals : List ValueT} (hvals : ∀ val ∈ vals, val.Legal)
    (rest : Bytes) :
    RoundTrip s vals rest ↔ ∀ val ∈ vals, val.stateCode = RPC_SUCCESS ∧
      (s.byteOrder = .LittleEndian ∨
        (val.msg.length % 257 = 0 ∧ ∀ data, val.value = .str data → data.length % 257 = 0)) := by
  rw [roundTrip_iff_whole s hvals rest]
  refine forall₂_congr fun val hval => ?_
  have hmsg := Value.kept_iff (o := s.byteOrder) (hvals val hval).1
  have hvalue := Value.kept_iff (o := s.byteOrder) (hvals val hval).2
  simp only [Value.str.injEq, forall_eq'] at hmsg
  constructor
  · rintro ⟨hsuccess, hm, hv⟩
    refine ⟨hsuccess, ?_⟩
    by_cases horder : s.byteOrder = .LittleEndian
    · exact Or.inl horder
    · exact Or.inr ⟨(hmsg.mp hm).resolve_left horder, (hvalue.mp hv).resolve_left horder⟩
  · rintro ⟨hsuccess, horder | ⟨hm, hv⟩⟩
    · exact ⟨hsuccess, hmsg.mpr (Or.inl horder), hvalue.mpr (Or.inl horder)⟩
    · exact ⟨hsuccess, hmsg.mpr (Or.inr hm), hvalue.mpr (Or.inr hv)⟩

def sampleReplies : List ValueT :=
  [⟨RPC_SUCCESS, [104, 105], .int .w32 7⟩, ⟨RPC_SUCCESS, [], .str [97, 98]⟩]

theorem sampleReplies_legal : ∀ val ∈ sampleReplies, val.Legal := by
  simp only [sampleReplies, List.forall_mem_cons, Legal]
  decide

theorem sampleReplies_roundTrip : RoundTrip Serializer.init sampleReplies [9] := by
  have hsuccess : ∀ val ∈ sampleReplies, val.stateCode = RPC_SUCCESS := by decide
  rw [roundTrip_iff sampleReplies_legal]
  intro val hval
  exact ⟨hsuccess val hval, Or.inl rfl⟩

/-- The value behind the state code for an unbound name stays in the serializer. -/
theorem notBound_not_roundTrip :
    ¬ RoundTrip Serializer.init [⟨RPC_FUNCTION_NOTBIND, [], .int .w32 5⟩] [] := by
  rw [roundTrip_iff_whole Serializer.init (by simp [Legal, Value.Legal])]
  intro h
  exact absurd (h _ List.mem_cons_self).success (by decide)

end ValueT

end Matelib
