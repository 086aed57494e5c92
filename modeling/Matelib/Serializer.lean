import Matelib.Codec
import Matelib.Text
import Matelib.ValidBuffer

/-!
# The serializer of the RPC library

`Serializer` writes and reads fixed-size integers and strings through a buffer. A read fails
(`none`) when an assertion of the buffer does, and a write when it would read behind the end of its
string. `HoldsIn` says in which byte order a serializer is and what it holds, and `Holds` says so
for the default order, in which the operations are the codec `Value.codec`.
-/

namespace Matelib

/-- The sizes of the integer types. -/
inductive Width where
  | w8 | w16 | w32 | w64
  deriving DecidableEq, Repr

def Width.bytes : Width → ℕ
  | .w8 => 1
  | .w16 => 2
  | .w32 => 4
  | .w64 => 8

/-- The types for which `operator<<` and `operator>>` are instantiated. -/
inductive Ty where
  | int (w : Width)
  | str
  deriving DecidableEq, Repr

inductive Value where
  | int (w : Width) (x : BitVec (8 * w.bytes))
  | str (data : Bytes)
  deriving DecidableEq, Repr

def Value.ty : Value → Ty
  | .int w _ => .int w
  | .str _ => .str

def Value.default : Ty → Value
  | .int w => .int w 0
  | .str => .str []

inductive ByteOrder where
  | BigEndian | LittleEndian
  deriving DecidableEq, Repr

structure Serializer where
  byteOrder : ByteOrder
  streamBuffer : ValidBuffer
  deriving DecidableEq

namespace Serializer

def init : Serializer := ⟨.LittleEndian, ValidBuffer.empty⟩

def readableBytes (s : Serializer) : ℕ := s.streamBuffer.readableBytes

/-- The first `n` bytes at `current()`. -/
def current (s : Serializer) (n : ℕ) : Bytes := s.streamBuffer.readable.take n

def retrieve (s : Serializer) (n : ℕ) : Option Serializer :=
  (s.streamBuffer.retrieve n).map fun buf => { s with streamBuffer := buf }

def append (s : Serializer) (data : Bytes) : Serializer :=
  { s with streamBuffer := s.streamBuffer.append data }

def clear (s : Serializer) : Serializer :=
  { s with streamBuffer := s.streamBuffer.clear.retrieveAll }

def reverse2LittleEndian (s : Serializer) (data : Bytes) : Bytes :=
  match s.byteOrder with
  | .BigEndian => data.reverse
  | .LittleEndian => data

/-- `outputObj` for an integer; the target keeps its value when too few bytes are readable. -/
def outputInt (s : Serializer) (w : Width) (obj : BitVec (8 * w.bytes)) :
    Option (BitVec (8 * w.bytes) × Serializer) :=
  if w.bytes ≤ s.readableBytes then
    let buf := s.reverse2LittleEndian (s.current w.bytes)
    (s.retrieve w.bytes).map fun s => (BitVec.ofNat _ (fromLittleEndian buf), s)
  else some (obj, s)

/-- `outputObj` for a string, which is inserted in front of the content of the target. -/
def outputStr (s : Serializer) (str : Bytes) : Option (Bytes × Serializer) :=
  let marklen := 2
  let buf := s.reverse2LittleEndian (s.current marklen)
  (s.retrieve marklen).bind fun s =>
    let len := fromLittleEndian buf
    if len = 0 then some (str, s)
    else (s.retrieve len).map fun s' => (s.current len ++ str, s')

def outputObj (s : Serializer) : Value → Option (Value × Serializer)
  | .int w obj => (s.outputInt w obj).map fun p => (.int w p.1, p.2)
  | .str str => (s.outputStr str).map fun p => (.str p.1, p.2)

def inputInt (s : Serializer) (w : Width) (obj : BitVec (8 * w.bytes)) : Serializer :=
  s.append (s.reverse2LittleEndian (littleEndian w.bytes obj.toNat))

/-- `inputObj` for a string, of which it sees the part before the first zero. The length is reversed
in place, so the count of appended bytes is the reversed one. -/
def inputStr (s : Serializer) (str : Bytes) : Option Serializer :=
  let p := s.reverse2LittleEndian (littleEndian 2 (cstr str).length)
  let len := fromLittleEndian p
  let s := s.append p
  if len = 0 then some s
  else if len ≤ str.length + 1 then some (s.append ((str ++ [0]).take len))
  else none

def inputObj (s : Serializer) : Value → Option Serializer
  | .int w obj => some (s.inputInt w obj)
  | .str str => s.inputStr str

/-- `getTuple`: the elements are read in order into a value-initialised tuple. -/
def getTuple : List Ty → Serializer → Option (List Value × Serializer)
  | [], s => some ([], s)
  | t :: ts, s => (s.outputObj (Value.default t)).bind fun p =>
    (getTuple ts p.2).map fun q => (p.1 :: q.1, q.2)

def packageArgs (s : Serializer) (args : List Value) : Option Serializer :=
  args.foldlM inputObj s

end Serializer

/-- What the default byte order writes. -/
def Value.write : Value → Bytes
  | .int w x => littleEndian w.bytes x.toNat
  | .str data => littleEndian 2 data.length ++ data

/-- What the default byte order writes for any value. Of a string it sees the part before the first
zero, and it writes its length modulo 65536 and that many of its bytes. -/
def Value.written : Value → Bytes
  | .int w x => (Value.int w x).write
  | .str data => (Value.str ((cstr data).take ((cstr data).length % 65536))).write

/-- What the default byte order reads into a value-initialised object. -/
def Value.read : Ty → Bytes → Option (Value × Bytes)
  | .int w, a =>
    if w.bytes ≤ a.length then
      some (.int w (BitVec.ofNat _ (fromLittleEndian (a.take w.bytes))), a.drop w.bytes)
    else some (.int w 0, a)
  | .str, a =>
    let len := fromLittleEndian (a.take 2)
    if 2 + len ≤ a.length then some (.str ((a.drop 2).take len), (a.drop 2).drop len) else none

/-- A value that the wire format can carry: strings are free of zero bytes and shorter than
65536. -/
def Value.Legal : Value → Prop
  | .int _ _ => True
  | .str data => 0 ∉ data ∧ data.length < 65536

instance (v : Value) : Decidable v.Legal :=
  match v with
  | .int _ _ => isTrue trivial
  | .str _ => inferInstanceAs (Decidable (_ ∧ _))

def Value.Fits : Value → Prop
  | .int _ _ => True
  | .str data => data.length < 65536

theorem Value.Legal.fits {v : Value} (h : v.Legal) : v.Fits := by
  cases v with
  | int w x => trivial
  | str data => exact h.2

theorem Value.Legal.written {v : Value} (h : v.Legal) : v.written = v.write := by
  cases v with
  | int w x => rfl
  | str data => rw [Value.written, cstr_eq_self h.1, Nat.mod_eq_of_lt h.2, List.take_length]

theorem Value.read_write_fits (v : Value) (rest : Bytes) (h : v.Fits) :
    Value.read v.ty (v.write ++ rest) = some (v, rest) := by
  cases v with
  | int w x =>
    have hlen := length_littleEndian w.bytes x.toNat
    have hx : x.toNat < 256 ^ w.bytes := by
      have hlt := x.isLt
      rwa [pow_mul] at hlt
    have hfit : w.bytes ≤ (littleEndian w.bytes x.toNat ++ rest).length := by
      rw [List.length_append, hlen]
      exact Nat.le_add_right _ _
    rw [ty, write, read, if_pos hfit, List.take_left' hlen, List.drop_left' hlen,
      fromLittleEndian_of_lt hx, BitVec.ofNat_toNat, BitVec.setWidth_eq]
  | str data =>
    have hlen := length_littleEndian 2 data.length
    have hdata : data.length < 256 ^ 2 := h
    have hfit : 2 + data.length ≤ (littleEndian 2 data.length ++ (data ++ rest)).length := by
      rw [List.length_append, List.length_append, hlen]
      omega
    rw [ty, write, read, List.append_assoc, List.take_left' hlen, List.drop_left' hlen,
      fromLittleEndian_of_lt hdata]
    simp only [if_pos hfit, List.take_left, List.drop_left]

theorem Value.read_write (v : Value) (rest : Bytes) (h : v.Legal) :
    Value.read v.ty (v.write ++ rest) = some (v, rest) :=
  v.read_write_fits rest h.fits

theorem Value.read_str {a : Bytes} {p : Value × Bytes} (h : Value.read .str a = some p) :
    ∃ data, p.1 = .str data ∧ (Value.str data).Fits ∧ a = (Value.str data).write ++ p.2 := by
  simp only [read] at h
  split_ifs at h with hfit
  cases h
  have hmark : (a.take 2).length = 2 := by
    rw [List.length_take]
    omega
  have hlen : ((a.drop 2).take (fromLittleEndian (a.take 2))).length =
      fromLittleEndian (a.take 2) := by
    rw [List.length_take, List.length_drop]
    omega
  refine ⟨_, rfl, ?_, ?_⟩
  · have hlt := fromLittleEndian_lt (a.take 2)
    rw [hmark] at hlt
    rw [Fits, hlen]
    exact hlt
  · have hdigits := littleEndian_fromLittleEndian (a.take 2)
    rw [hmark] at hdigits
    rw [write, hlen, hdigits, List.append_assoc, List.take_append_drop, List.take_append_drop]

def Value.codec : Codec Ty Value UInt8 where
  tag := Value.ty
  write := Value.write
  read := Value.read
  Legal := Value.Legal
  read_write := Value.read_write

/-- The same codec for strings that may contain zero bytes, which `inputObj` never writes. -/
def Value.fitCodec : Codec Ty Value UInt8 where
  tag := Value.ty
  write := Value.write
  read := Value.read
  Legal := Value.Fits
  read_write := Value.read_write_fits

namespace Serializer

/-- The serializer is in the order `o` and its readable bytes are `a`. -/
def HoldsIn (s : Serializer) (o : ByteOrder) (a : Bytes) : Prop :=
  s.byteOrder = o ∧ s.streamBuffer.readable = a

namespace HoldsIn

variable {s : Serializer} {o : ByteOrder} {a : Bytes}

theorem append (h : s.HoldsIn o a) (data : Bytes) : (s.append data).HoldsIn o (a ++ data) :=
  ⟨h.1, by rw [Serializer.append, ValidBuffer.readable_append, h.2]⟩

theorem retrieve (h : s.HoldsIn o a) {n : ℕ} (hn : n ≤ a.length) :
    ∃ s', s.retrieve n = some s' ∧ s'.HoldsIn o (a.drop n) := by
  rw [← h.2] at hn ⊢
  obtain ⟨buf, hbuf, hr⟩ := ValidBuffer.retrieve_of_le _ hn
  exact ⟨{ s with streamBuffer := buf }, by rw [Serializer.retrieve, hbuf, Option.map_some],
    h.1, hr⟩

theorem retrieve_none (h : s.HoldsIn o a) {n : ℕ} (hn : a.length < n) : s.retrieve n = none := by
  rw [← h.2] at hn
  rw [Serializer.retrieve, ValidBuffer.retrieve_of_lt _ hn, Option.map_none]

theorem of_retrieve (h : s.HoldsIn o a) {n : ℕ} {s' : Serializer} (hs' : s.retrieve n = some s') :
    n ≤ a.length ∧ s'.HoldsIn o (a.drop n) := by
  by_cases hn : n ≤ a.length
  · obtain ⟨t, ht, hrest⟩ := h.retrieve hn
    cases hs'.symm.trans ht
    exact ⟨hn, hrest⟩
  · rw [h.retrieve_none (not_le.mp hn)] at hs'
    cases hs'

theorem current (h : s.HoldsIn o a) (n : ℕ) : s.current n = a.take n := by
  rw [Serializer.current, h.2]

theorem readableBytes (h : s.HoldsIn o a) : s.readableBytes = a.length := by
  rw [Serializer.readableBytes, ← ValidBuffer.length_readable, h.2]

end HoldsIn

/-- The serializer is in the default byte order and its readable bytes are `a`. -/
def Holds (s : Serializer) (a : Bytes) : Prop :=
  s.byteOrder = .LittleEndian ∧ s.streamBuffer.readable = a

theorem Holds.holdsIn {s : Serializer} {a : Bytes} (h : s.Holds a) : s.HoldsIn .LittleEndian a := h

theorem holds_init : init.Holds [] := ⟨rfl, ValidBuffer.readable_empty⟩

theorem Holds.clear {s : Serializer} {a : Bytes} (h : s.Holds a) : s.clear.Holds [] :=
  ⟨h.1, ValidBuffer.readable_retrieveAll _⟩

theorem Holds.append {s : Serializer} {a : Bytes} (h : s.Holds a) (data : Bytes) :
    (s.append data).Holds (a ++ data) :=
  h.holdsIn.append data

theorem Holds.retrieve {s : Serializer} {a : Bytes} (h : s.Holds a) {n : ℕ} (hn : n ≤ a.length) :
    ∃ s', s.retrieve n = some s' ∧ s'.Holds (a.drop n) :=
  h.holdsIn.retrieve hn

theorem Holds.retrieve_none {s : Serializer} {a : Bytes} (h : s.Holds a) {n : ℕ}
    (hn : a.length < n) : s.retrieve n = none :=
  h.holdsIn.retrieve_none hn

theorem Holds.reverse2LittleEndian {s : Serializer} {a : Bytes} (h : s.Holds a) (data : Bytes) :
    s.reverse2LittleEndian data = data := by
  rw [Serializer.reverse2LittleEndian, h.1]

theorem Holds.current {s : Serializer} {a : Bytes} (h : s.Holds a) (n : ℕ) :
    s.current n = a.take n :=
  h.holdsIn.current n

theorem Holds.readableBytes {s : Serializer} {a : Bytes} (h : s.Holds a) :
    s.readableBytes = a.length :=
  h.holdsIn.readableBytes

theorem Holds.outputInt {s : Serializer} {a : Bytes} (h : s.Holds a) (w : Width) :
    ∃ x s' rest, Value.read (.int w) a = some (.int w x, rest) ∧ s.outputInt w 0 = some (x, s') ∧
      s'.Holds rest := by
  rw [Serializer.outputInt, h.readableBytes, Value.read]
  by_cases hfit : w.bytes ≤ a.length
  · obtain ⟨s', hs', hrest⟩ := h.retrieve hfit
    rw [if_pos hfit, if_pos hfit, hs', h.current, h.reverse2LittleEndian]
    exact ⟨_, _, _, rfl, rfl, hrest⟩
  · rw [if_neg hfit, if_neg hfit]
    exact ⟨_, _, _, rfl, rfl, h⟩

/-- In the default byte order reading a string puts what `Value.read` gives in front of the
target. -/
theorem Holds.outputStr_into {s : Serializer} {a : Bytes} (h : s.Holds a) (target : Bytes) :
    (Value.read .str a = none ∧ s.outputStr target = none) ∨
      ∃ str s' rest, Value.read .str a = some (.str str, rest) ∧
        s.outputStr target = some (str ++ target, s') ∧ s'.Holds rest := by
  simp only [Serializer.outputStr, h.current, h.reverse2LittleEndian, Value.read]
  by_cases hmark : 2 ≤ a.length
  · obtain ⟨t, ht, htail⟩ := h.retrieve hmark
    rw [ht, Option.bind_some]
    have htlen : (a.drop 2).length = a.length - 2 := List.length_drop
    by_cases hlen : fromLittleEndian (a.take 2) = 0
    · rw [if_pos hlen, hlen, if_pos hmark, List.take_zero, List.drop_zero]
      exact Or.inr ⟨_, _, _, rfl, rfl, htail⟩
    · rw [if_neg hlen]
      by_cases hfit : 2 + fromLittleEndian (a.take 2) ≤ a.length
      · obtain ⟨s', hs', hrest⟩ := htail.retrieve (n := fromLittleEndian (a.take 2)) (by omega)
        rw [if_pos hfit, hs', htail.current, Option.map_some]
        exact Or.inr ⟨_, _, _, rfl, rfl, hrest⟩
      · rw [if_neg hfit, htail.retrieve_none (n := fromLittleEndian (a.take 2)) (by omega)]
        exact Or.inl ⟨rfl, rfl⟩
  · have hfit : ¬ 2 + fromLittleEndian (a.take 2) ≤ a.length := by omega
    rw [if_neg hfit, h.retrieve_none (Nat.lt_of_not_le hmark)]
    exact Or.inl ⟨rfl, rfl⟩

theorem Holds.outputStr {s : Serializer} {a : Bytes} (h : s.Holds a) :
    (Value.read .str a = none ∧ s.outputStr [] = none) ∨
      ∃ str s' rest, Value.read .str a = some (.str str, rest) ∧ s.outputStr [] = some (str, s') ∧
        s'.Holds rest := by
  rcases h.outputStr_into [] with hnone | ⟨str, s', rest, hread, hout, hs'⟩
  · exact Or.inl hnone
  · rw [List.append_nil] at hout
    exact Or.inr ⟨str, s', rest, hread, hout, hs'⟩

/-- A result of the serializer and a result on bytes: both fail, or both give the same value and the
serializer holds the bytes that are left. -/
def Agree {α : Type} : Option (α × Serializer) → Option (α × Bytes) → Prop
  | none, none => True
  | some p, some q => p.1 = q.1 ∧ p.2.Holds q.2
  | _, _ => False

theorem Agree.of_some {α : Type} {o : Option (α × Serializer)} {x : α} {rest : Bytes}
    (h : Agree o (some (x, rest))) : ∃ s', o = some (x, s') ∧ s'.Holds rest := by
  match o, h with
  | some (_, s'), ⟨rfl, hs'⟩ => exact ⟨s', rfl, hs'⟩

theorem Agree.of_none {α : Type} {o : Option (α × Serializer)} (h : Agree o none) : o = none := by
  match o, h with
  | none, _ => rfl

theorem Holds.outputObj {s : Serializer} {a : Bytes} (h : s.Holds a) (t : Ty) :
    Agree (s.outputObj (Value.default t)) (Value.read t a) := by
  cases t with
  | int w =>
    obtain ⟨x, s', rest, hx, hout, hs'⟩ := h.outputInt w
    rw [hx, Value.default, Serializer.outputObj, hout]
    exact ⟨rfl, hs'⟩
  | str =>
    rw [Value.default, Serializer.outputObj]
    rcases h.outputStr with ⟨hnone, hout⟩ | ⟨str, s', rest, hstr, hout, hs'⟩
    · rw [hnone, hout]
      exact trivial
    · rw [hstr, hout]
      exact ⟨rfl, hs'⟩

theorem Holds.getTuple {s : Serializer} {a : Bytes} (h : s.Holds a) (ts : List Ty) :
    Agree (Serializer.getTuple ts s) (Value.codec.readAll ts a) := by
  induction ts generalizing s a with
  | nil => exact ⟨rfl, h⟩
  | cons t ts ih =>
    have hfirst := h.outputObj t
    rw [Serializer.getTuple, Codec.readAll]
    change Agree _ ((Value.read t a).bind _)
    cases hread : Value.read t a with
    | none =>
      rw [hread] at hfirst
      rw [hfirst.of_none]
      exact trivial
    | some p =>
      rw [hread] at hfirst
      obtain ⟨s', hout, hs'⟩ := hfirst.of_some
      rw [hout, Option.bind_some, Option.bind_some]
      have hrest := ih hs'
      cases hargs : Value.codec.readAll ts p.2 with
      | none =>
        rw [hargs] at hrest
        rw [hrest.of_none]
        exact trivial
      | some q =>
        rw [hargs] at hrest
        obtain ⟨s'', hout'', hs''⟩ := hrest.of_some
        rw [hout'']
        exact ⟨rfl, hs''⟩

theorem Holds.getTuple_write {s : Serializer} {args : List Value} {rest : Bytes}
    (h : s.Holds (args.flatMap Value.write ++ rest)) (hargs : ∀ v ∈ args, v.Legal) :
    ∃ s', Serializer.getTuple (args.map Value.ty) s = some (args, s') ∧ s'.Holds rest := by
  have hread := h.getTuple (args.map Value.ty)
  have hwrite : Value.codec.readAll (args.map Value.ty) (args.flatMap Value.write ++ rest) =
      some (args, rest) := Value.codec.readAll_write hargs rest
  rw [hwrite] at hread
  exact hread.of_some

theorem Holds.outputObj_write {s : Serializer} {v : Value} {rest : Bytes}
    (h : s.Holds (v.write ++ rest)) (hv : v.Legal) :
    ∃ s', s.outputObj (Value.default v.ty) = some (v, s') ∧ s'.Holds rest := by
  have hread := h.outputObj v.ty
  rw [v.read_write rest hv] at hread
  exact hread.of_some

theorem Holds.outputInt_write {s : Serializer} {w : Width} {x : BitVec (8 * w.bytes)} {rest : Bytes}
    (h : s.Holds (littleEndian w.bytes x.toNat ++ rest)) :
    ∃ s', s.outputInt w 0 = some (x, s') ∧ s'.Holds rest := by
  obtain ⟨y, s', rest', hread, hout, hs'⟩ := h.outputInt w
  have hwrite := (Value.int w x).read_write rest trivial
  rw [Value.ty, Value.write, hread, Option.some.injEq, Prod.mk.injEq, Value.int.injEq] at hwrite
  obtain ⟨⟨_, hyx⟩, rfl⟩ := hwrite
  cases hyx
  exact ⟨s', hout, hs'⟩

theorem Holds.outputStr_write {s : Serializer} {data rest : Bytes}
    (h : s.Holds ((Value.str data).write ++ rest)) (hdata : (Value.str data).Legal) :
    ∃ s', s.outputStr [] = some (data, s') ∧ s'.Holds rest := by
  have hwrite := (Value.str data).read_write rest hdata
  rw [Value.ty] at hwrite
  rcases h.outputStr with ⟨hnone, _⟩ | ⟨str, s', rest', hread, hout, hs'⟩
  · rw [hnone] at hwrite
    cases hwrite
  · rw [hread, Option.some.injEq, Prod.mk.injEq, Value.str.injEq] at hwrite
    obtain ⟨rfl, rfl⟩ := hwrite
    exact ⟨s', hout, hs'⟩

theorem Holds.inputInt {s : Serializer} {a : Bytes} (h : s.Holds a) (w : Width)
    (x : BitVec (8 * w.bytes)) : (s.inputInt w x).Holds (a ++ littleEndian w.bytes x.toNat) := by
  rw [Serializer.inputInt, h.reverse2LittleEndian]
  exact h.append _

theorem Holds.inputStr_written {s : Serializer} {a : Bytes} (h : s.Holds a) (data : Bytes) :
    ∃ s', s.inputStr data = some s' ∧ s'.Holds (a ++ (Value.str data).written) := by
  obtain ⟨rest, hrest⟩ : cstr data <+: data := List.takeWhile_prefix _
  have hle : (cstr data).length % 65536 ≤ (cstr data).length := Nat.mod_le _ _
  have hmark : littleEndian 2 ((cstr data).length % 65536) = littleEndian 2 (cstr data).length :=
    littleEndian_mod 2 (cstr data).length
  have hlen : fromLittleEndian (littleEndian 2 (cstr data).length) = (cstr data).length % 65536 :=
    fromLittleEndian_littleEndian 2 (cstr data).length
  have hfit : (cstr data).length % 65536 ≤ data.length + 1 := by
    have := congrArg List.length hrest
    rw [List.length_append] at this
    omega
  have htake : (data ++ [0]).take ((cstr data).length % 65536) =
      (cstr data).take ((cstr data).length % 65536) := by
    have hpre : cstr data ++ (rest ++ [0]) = data ++ [0] := by rw [← List.append_assoc, hrest]
    rw [← hpre, List.take_append_of_le_length hle]
  have hwritten : (Value.str data).written =
      littleEndian 2 (cstr data).length ++ (cstr data).take ((cstr data).length % 65536) := by
    rw [Value.written, Value.write, List.length_take_of_le hle, hmark]
  simp only [Serializer.inputStr, h.reverse2LittleEndian, hlen]
  by_cases hzero : (cstr data).length % 65536 = 0
  · rw [if_pos hzero]
    refine ⟨_, rfl, ?_⟩
    rw [hwritten, hzero, List.take_zero, List.append_nil]
    exact h.append _
  · rw [if_neg hzero, if_pos hfit, htake]
    refine ⟨_, rfl, ?_⟩
    rw [hwritten, ← List.append_assoc]
    exact (h.append _).append _

theorem Holds.inputStr {s : Serializer} {a data : Bytes} (h : s.Holds a) (hdata : 0 ∉ data) :
    ∃ s', s.inputStr data = some s' ∧
      s'.Holds (a ++ (Value.str (data.take (data.length % 65536))).write) := by
  have hall := h.inputStr_written data
  rwa [Value.written, cstr_eq_self hdata] at hall

theorem Holds.inputObj_written {s : Serializer} {a : Bytes} (h : s.Holds a) (v : Value) :
    ∃ s', s.inputObj v = some s' ∧ s'.Holds (a ++ v.written) := by
  cases v with
  | int w x => exact ⟨_, rfl, h.inputInt w x⟩
  | str data => exact h.inputStr_written data

theorem Holds.inputObj {s : Serializer} {a : Bytes} (h : s.Holds a) {v : Value} (hv : v.Legal) :
    ∃ s', s.inputObj v = some s' ∧ s'.Holds (a ++ v.write) := by
  have hall := h.inputObj_written v
  rwa [hv.written] at hall

theorem Holds.packageArgs_written {s : Serializer} {a : Bytes} (h : s.Holds a) (args : List Value) :
    ∃ s', s.packageArgs args = some s' ∧ s'.Holds (a ++ args.flatMap Value.written) := by
  induction args generalizing s a with
  | nil => exact ⟨s, rfl, by rw [List.flatMap_nil, List.append_nil]; exact h⟩
  | cons v args ih =>
    obtain ⟨t, ht, hholds⟩ := h.inputObj_written v
    obtain ⟨s', hs', hrest⟩ := ih hholds
    refine ⟨s', ?_, ?_⟩
    · rw [Serializer.packageArgs, List.foldlM_cons, ht]
      exact hs'
    · rw [List.flatMap_cons, ← List.append_assoc]
      exact hrest

theorem Holds.packageArgs {s : Serializer} {a : Bytes} (h : s.Holds a) {args : List Value}
    (hargs : ∀ v ∈ args, v.Legal) :
    ∃ s', s.packageArgs args = some s' ∧ s'.Holds (a ++ args.flatMap Value.write) := by
  have hall := h.packageArgs_written args
  rwa [List.flatMap_congr fun v hv => (hargs v hv).written] at hall

def sentLength (str : Bytes) : ℕ := (cstr str).length % 65536

/-- The string is written behind what the serializer holds, other data follow, and it is read into
the target when everything in front of it has been read: the target is the string, and exactly the
other data are left. -/
def RoundTrips (s : Serializer) (str rest target : Bytes) : Prop :=
  ∃ s₁ s₂ s₃, s.inputStr str = some s₁ ∧ (s₁.append rest).retrieve s.readableBytes = some s₂ ∧
    s₂.outputStr target = some (str, s₃) ∧ s₃.streamBuffer.readable = rest

theorem take_sentLength (str : Bytes) :
    (cstr str).take (sentLength str) = str.take (sentLength str) := by
  obtain ⟨rest, hrest⟩ : cstr str <+: str := List.takeWhile_prefix _
  have hle : sentLength str ≤ (cstr str).length := Nat.mod_le _ _
  have htake : (cstr str ++ rest).take (sentLength str) = (cstr str).take (sentLength str) :=
    List.take_append_of_le_length hle
  rw [hrest] at htake
  exact htake.symm

/-- What becomes of a string that is written and read: its first bytes stand in front of what the
target held, and exactly the data behind it are left. -/
theorem Holds.outputStr_inputStr {s : Serializer} {a : Bytes} (h : s.Holds a)
    (str rest target : Bytes) :
    ∃ s₁ s₂ s₃, s.inputStr str = some s₁ ∧ (s₁.append rest).retrieve s.readableBytes = some s₂ ∧
      s₂.outputStr target = some (str.take (sentLength str) ++ target, s₃) ∧ s₃.Holds rest := by
  obtain ⟨s₁, hs₁, h₁⟩ := h.inputStr_written str
  have h₁' := h₁.append rest
  have hfit : s.readableBytes ≤ (a ++ (Value.str str).written ++ rest).length := by
    rw [h.readableBytes, List.append_assoc, List.length_append]
    exact Nat.le_add_right _ _
  obtain ⟨s₂, hs₂, h₂⟩ := h₁'.retrieve hfit
  rw [h.readableBytes, List.append_assoc, List.drop_left] at h₂
  have hlt : (Value.str (str.take (sentLength str))).Fits := by
    have hle : (str.take (sentLength str)).length ≤ sentLength str := List.length_take_le _ _
    have hmod : sentLength str < 65536 := Nat.mod_lt _ (by decide)
    exact Nat.lt_of_le_of_lt hle hmod
  have hread := Value.read_write_fits _ rest hlt
  rw [Value.written, ← sentLength, take_sentLength] at h₂
  rcases h₂.outputStr_into target with ⟨hnone, -⟩ | ⟨data, s₃, rest', hdata, hout, h₃⟩
  · rw [Value.ty, hnone] at hread
    cases hread
  · rw [Value.ty, hdata, Option.some.injEq, Prod.mk.injEq, Value.str.injEq] at hread
    obtain ⟨rfl, rfl⟩ := hread
    exact ⟨s₁, s₂, s₃, hs₁, hs₂, hout, h₃⟩

theorem Holds.roundTrips_iff {s : Serializer} {a : Bytes} (h : s.Holds a)
    (str rest target : Bytes) :
    RoundTrips s str rest target ↔ str.take (sentLength str) ++ target = str := by
  obtain ⟨s₁, s₂, s₃, hs₁, hs₂, hs₃, h₃⟩ := h.outputStr_inputStr str rest target
  constructor
  · rintro ⟨t₁, t₂, t₃, ht₁, ht₂, ht₃, -⟩
    rw [hs₁, Option.some.injEq] at ht₁
    subst ht₁
    rw [hs₂, Option.some.injEq] at ht₂
    subst ht₂
    rw [hs₃, Option.some.injEq, Prod.mk.injEq] at ht₃
    exact ht₃.1
  · intro hstr
    rw [hstr] at hs₃
    exact ⟨s₁, s₂, s₃, hs₁, hs₂, hs₃, h₃.2⟩

/-- A string comes back exactly when the target holds the part of it that is not written. -/
theorem string_roundTrips_iff (s : Serializer) (h : s.byteOrder = .LittleEndian)
    (str rest target : Bytes) :
    RoundTrips s str rest target ↔ target = str.drop (sentLength str) := by
  have hholds : s.Holds s.streamBuffer.readable := ⟨h, rfl⟩
  rw [hholds.roundTrips_iff]
  constructor
  · intro hstr
    conv_rhs at hstr => rw [← List.take_append_drop (sentLength str) str]
    exact List.append_cancel_left hstr
  · rintro rfl
    exact List.take_append_drop _ _

theorem string_roundTrips_init : RoundTrips init [104, 105] [1, 2] [] :=
  (string_roundTrips_iff init rfl [104, 105] [1, 2] []).mpr (by decide)

/-- A string with a zero byte is cut there, and a second read into one target leaves the first
string behind the second. -/
theorem string_not_roundTrips :
    ¬ RoundTrips init [97, 0, 98] [] [] ∧ ¬ RoundTrips init [97] [] [98] := by
  rw [holds_init.roundTrips_iff, holds_init.roundTrips_iff]
  decide

theorem drop_sentLength_eq_nil (str : Bytes) :
    [] = str.drop (sentLength str) ↔ (Value.str str).Legal := by
  rw [eq_comm, List.drop_eq_nil_iff]
  constructor
  · intro hle
    have hmod : sentLength str ≤ (cstr str).length := Nat.mod_le _ _
    have hcstr : cstr str <+: str := List.takeWhile_prefix _
    have heq : cstr str = str := hcstr.eq_of_length (by have := hcstr.length_le; omega)
    refine ⟨fun hzero => ?_, ?_⟩
    · rw [← heq] at hzero
      have := List.mem_takeWhile_imp hzero
      simp at this
    · have hlt : sentLength str < 65536 := Nat.mod_lt _ (by decide)
      omega
  · rintro ⟨hzero, hlt⟩
    rw [sentLength, cstr_eq_self hzero, Nat.mod_eq_of_lt hlt]

end Serializer

end Matelib
