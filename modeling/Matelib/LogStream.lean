import Matelib.AsyncLogging
import Matelib.IntegerText
import Matelib.TcpConnection

/-!
# The log stream and the memory of its buffer

`FixedBuffer` with the array that it writes to. Texts are appended when they are shorter than what
is available, by a comparison of two `int`s; numbers are formatted in place when there are at least
`kMaxNumericSize` bytes. A function fails when it would write outside the array. What the buffer
holds is the part of the array before `cur_`.
-/

namespace Matelib.LogStream

open TcpConnection (toInt toInt_eq_self)
open Transition

def kSmallBuffer : ℕ := 4096
def kMaxNumericSize : ℤ := 32

structure Buffer (size : ℕ) where
  data : Bytes
  cur : ℕ
  length_data : data.length = size

namespace Buffer

variable {size : ℕ}

def new (data : Bytes) (h : data.length = size) : Buffer size := ⟨data, 0, h⟩

def length (b : Buffer size) : ℤ := toInt b.cur
def avail (b : Buffer size) : ℤ := toInt (size - b.cur)
def add (b : Buffer size) (len : ℕ) : Buffer size := { b with cur := b.cur + len }
def reset (b : Buffer size) : Buffer size := { b with cur := 0 }

def bzero (b : Buffer size) : Buffer size :=
  { b with data := List.replicate size 0, length_data := List.length_replicate }

/-- Bytes are written at `cur_`, if they are inside the array. -/
def write (b : Buffer size) (bytes : Bytes) : Option (Buffer size) :=
  if h : b.cur + bytes.length ≤ size then
    some { b with
      data := b.data.take b.cur ++ (bytes ++ b.data.drop (b.cur + bytes.length))
      length_data := by
        have hdata := b.length_data
        simp only [List.length_append, List.length_take, List.length_drop]
        omega }
  else none

def append (b : Buffer size) (str : Bytes) : Option (Buffer size) :=
  if b.avail > toInt str.length then (b.write str).map fun b => b.add str.length else some b

def debugString (b : Buffer size) : Option (Buffer size) := b.write [0]

end Buffer

/-- A floating-point number, as the text that `%.12g` prints for it: at most a sign, twelve digits
with a point, and an exponent of a sign and three digits. -/
structure Floating where
  text : Bytes
  length_text : text.length ≤ 19

/-- What `operator<<` is called with. The text of a `const char*` ends before its first zero. -/
inductive Value where
  | bool (v : Bool)
  | char (v : UInt8)
  | short (v : Int16)
  | unsignedShort (v : UInt16)
  | int (v : Int32)
  | unsignedInt (v : UInt32)
  | long (v : Int64)
  | unsignedLong (v : UInt64)
  | longLong (v : Int64)
  | unsignedLongLong (v : UInt64)
  | float (v : Floating)
  | double (v : Floating)
  | pointer (p : UInt64)
  | chars (str : Option Bytes)
  | string (str : Bytes)

section Operators

variable {size : ℕ}

def formatInterger {T : Type} [Integral T] (b : Buffer size) (v : T) : Option (Buffer size) :=
  if kMaxNumericSize ≤ b.avail then
    (convertInt v).bind fun r => (b.write r.1).map fun b => b.add r.2
  else some b

def formatDouble (b : Buffer size) (v : Floating) : Option (Buffer size) :=
  if kMaxNumericSize ≤ b.avail then
    (b.write (snprintf 32 v.text ++ [0])).map fun b => b.add v.text.length
  else some b

def formatPointer (b : Buffer size) (p : UInt64) : Option (Buffer size) :=
  if kMaxNumericSize ≤ b.avail then
    (convertHex p).bind fun r => (b.write (ascii "0x" ++ r.1)).map fun b => b.add (r.2 + 2)
  else some b

def insert (b : Buffer size) : Value → Option (Buffer size)
  | .bool v => b.append (if v then ascii "true" else ascii "false")
  | .char v => b.append [v]
  | .short v => formatInterger b v.toInt32
  | .unsignedShort v => formatInterger b v.toUInt32
  | .int v => formatInterger b v
  | .unsignedInt v => formatInterger b v
  | .long v => formatInterger b v
  | .unsignedLong v => formatInterger b v
  | .longLong v => formatInterger b v
  | .unsignedLongLong v => formatInterger b v
  | .float v => formatDouble b v
  | .double v => formatDouble b v
  | .pointer p => formatPointer b p
  | .chars (some str) => b.append (cstr str)
  | .chars none => b.append (ascii "(null)")
  | .string str => b.append str

/-- The operations on the stream and on its buffer. The memory behind a pointer has a byte at every
offset; its length is an `int` that becomes a `size_t`. -/
inductive Op where
  | insert (v : Value)
  | append (data : ℕ → UInt8) (len : Int32)
  | resetBuffer
  | bzero
  | debugString

def copied (data : ℕ → UInt8) (len : Int32) : Bytes :=
  (List.range len.toInt64.toUInt64.toNat).map data

def step (b : Buffer size) : Op → Option (Buffer size)
  | .insert v => insert b v
  | .append data len => b.append (copied data len)
  | .resetBuffer => some b.reset
  | .bzero => some b.bzero
  | .debugString => b.debugString

end Operators

variable {size : ℕ}

namespace Buffer

/-- There is a byte left for the terminating zero. -/
def Sound (b : Buffer size) : Prop := b.cur < size

def contents (b : Buffer size) : FixedBuffer size :=
  ⟨b.data.take b.cur, (List.length_take_le' _ _).trans b.length_data.le⟩

theorem sound_new (data : Bytes) (h : data.length = size) (hpos : 0 < size) :
    (new data h).Sound :=
  hpos

variable {b : Buffer size}

theorem length_contents (h : b.Sound) : b.contents.length = b.cur := by
  have hdata := b.length_data
  rw [Sound] at h
  change (b.data.take b.cur).length = b.cur
  rw [List.length_take]
  omega

theorem avail_contents (h : b.Sound) : (b.contents.avail : ℤ) = size - b.cur := by
  rw [Sound] at h
  rw [FixedBuffer.avail, length_contents h]
  omega

theorem avail_eq (hsize : size < 2 ^ 31) (h : b.Sound) : b.avail = b.contents.avail := by
  rw [avail_contents h]
  rw [Sound] at h
  exact toInt_eq_self (by omega) (by omega)

theorem write_add {bytes : Bytes} {len : ℕ} (hlen : len ≤ bytes.length)
    (hfits : b.cur + bytes.length ≤ size) :
    ∃ b', (b.write bytes).map (fun b => b.add len) = some b' ∧ b'.cur = b.cur + len ∧
      b'.contents.data = b.contents.data ++ bytes.take len := by
  have hdata := b.length_data
  refine ⟨_, by rw [write, dif_pos hfits, Option.map_some], rfl, ?_⟩
  change List.take (b.cur + len) (b.data.take b.cur ++ (bytes ++ _)) = b.data.take b.cur ++ _
  have hcur : (b.data.take b.cur).length = b.cur := by
    rw [List.length_take]
    omega
  rw [List.take_append, hcur, List.take_of_length_le (by omega), Nat.add_sub_cancel_left,
    List.take_append_of_le_length hlen]

theorem write_none {bytes : Bytes} (h : size < b.cur + bytes.length) : b.write bytes = none := by
  rw [write, dif_neg (by omega)]

theorem contents_eq {b' : Buffer size} {c : FixedBuffer size}
    (h : b'.contents.data = c.data) : b'.contents = c := by
  cases c
  simp only [contents] at h ⊢
  subst h
  rfl

/-- The narrowing of a length to `int` keeps it, or leaves it too large for the buffer. -/
def Narrows (b : Buffer size) (str : Bytes) : Prop :=
  str.length < 2 ^ 31 ∨ b.avail ≤ toInt str.length

instance (b : Buffer size) (str : Bytes) : Decidable (b.Narrows str) :=
  inferInstanceAs (Decidable (_ ∨ _))

/-- A text that is not too long for an `int` is appended, or dropped when there is no room. -/
theorem append_contents (hsize : size < 2 ^ 31) (hb : b.Sound) {str : Bytes}
    (hstr : str.length < 2 ^ 31) :
    ∃ b', b.append str = some b' ∧ b'.Sound ∧ b'.contents = b.contents.append str := by
  have havail := avail_eq hsize hb
  have hroom := avail_contents hb
  have hlen : toInt str.length = str.length := toInt_eq_self (by omega) (by omega)
  rw [append, havail, hlen, FixedBuffer.append]
  by_cases hfits : str.length < b.contents.avail
  · obtain ⟨b', hb', hcur, hdata⟩ := write_add (b := b) (le_refl str.length) (by omega)
    rw [if_pos (by omega), dif_pos hfits]
    refine ⟨b', hb', ?_, contents_eq ?_⟩
    · rw [Sound, hcur]
      omega
    · rw [hdata, List.take_length]
  · rw [if_neg (by omega), dif_neg hfits]
    exact ⟨b, rfl, hb, rfl⟩

/-- `append` stays inside the array exactly when the narrowing is right. -/
theorem append_isSome_iff (hsize : size < 2 ^ 31) (hb : b.Sound) (str : Bytes) :
    (b.append str).isSome = true ↔ b.Narrows str := by
  have hroom := avail_contents hb
  have havail := avail_eq hsize hb
  by_cases hstr : str.length < 2 ^ 31
  · obtain ⟨b', hb', -⟩ := append_contents hsize hb hstr
    rw [hb']
    exact iff_of_true rfl (.inl hstr)
  · rw [append, Narrows]
    by_cases hfits : b.avail > toInt str.length
    · rw [if_pos hfits, write_none (by omega)]
      refine iff_of_false (by simp) ?_
      rintro (hlt | hle)
      · exact hstr hlt
      · omega
    · rw [if_neg hfits]
      exact iff_of_true rfl (.inr (not_lt.mp hfits))

theorem append_sound (hsize : size < 2 ^ 31) (hb : b.Sound) {str : Bytes} {b' : Buffer size}
    (h : b.append str = some b') : b'.Sound := by
  by_cases hstr : str.length < 2 ^ 31
  · obtain ⟨b'', hb'', hsound, -⟩ := append_contents hsize hb hstr
    cases h.symm.trans hb''
    exact hsound
  · have hroom := avail_contents hb
    have havail := avail_eq hsize hb
    rw [append, write_none (by omega)] at h
    split_ifs at h
    · cases h
    · cases h
      exact hb

end Buffer

/-- A number is appended only when there is room for any number. -/
def appendNumber (c : FixedBuffer size) (text : Bytes) : FixedBuffer size :=
  if kMaxNumericSize ≤ c.avail then c.append text else c

/-- What every number does: its text is written with a terminating zero and becomes a part of the
contents, or nothing happens. -/
theorem number_contents (hsize : size < 2 ^ 31) {b : Buffer size} (hb : b.Sound) {text : Bytes}
    (htext : text.length + 1 ≤ 32) :
    ∃ b', (if kMaxNumericSize ≤ b.avail then
        (b.write (text ++ [0])).map fun b => b.add text.length else some b) = some b' ∧
      b'.Sound ∧ b'.contents = appendNumber b.contents text := by
  have hroom := Buffer.avail_contents hb
  rw [appendNumber, Buffer.avail_eq hsize hb]
  by_cases hfits : kMaxNumericSize ≤ b.contents.avail
  · have hmax : (32 : ℤ) ≤ b.contents.avail := hfits
    have hlen : (text ++ [0]).length = text.length + 1 := List.length_append
    obtain ⟨b', hb', hcur, hdata⟩ := Buffer.write_add (b := b)
      (show text.length ≤ (text ++ [0]).length by omega) (by omega)
    rw [if_pos hfits, if_pos hfits, hb']
    refine ⟨b', rfl, ?_, Buffer.contents_eq ?_⟩
    · rw [Buffer.Sound, hcur]
      omega
    · rw [hdata, FixedBuffer.append_data (by omega), List.take_left]
  · rw [if_neg hfits, if_neg hfits]
    exact ⟨b, rfl, hb, rfl⟩

def Value.text : Value → Bytes
  | .bool v => if v then ascii "true" else ascii "false"
  | .char v => [v]
  | .short v => decimal v.toInt
  | .unsignedShort v => decimal v.toNat
  | .int v => decimal v.toInt
  | .unsignedInt v => decimal v.toNat
  | .long v | .longLong v => decimal v.toInt
  | .unsignedLong v | .unsignedLongLong v => decimal v.toNat
  | .float v | .double v => v.text
  | .pointer p => ascii "0x" ++ hexadecimal p.toNat
  | .chars (some str) => cstr str
  | .chars none => ascii "(null)"
  | .string str => str

def Value.isNumber : Value → Bool
  | .bool _ | .char _ | .chars _ | .string _ => false
  | _ => true

def put (c : FixedBuffer size) (v : Value) : FixedBuffer size :=
  if v.isNumber then appendNumber c v.text else c.append v.text

theorem insert_text {v : Value} (h : v.isNumber = false) (b : Buffer size) :
    insert b v = b.append v.text := by
  cases v with
  | chars str => cases str <;> rfl
  | bool | char | string => rfl
  | _ => cases h

theorem formatInterger_eq {T : Type} [Integral T] (b : Buffer size) (v : T) :
    formatInterger b v =
      if kMaxNumericSize ≤ b.avail then
        (b.write (decimal (Integral.value v) ++ [0])).map fun b =>
          b.add (decimal (Integral.value v)).length
      else some b := by
  rw [formatInterger, convertInt_eq]
  rfl

theorem insert_number {v : Value} (h : v.isNumber = true) (b : Buffer size) :
    insert b v =
      if kMaxNumericSize ≤ b.avail then
        (b.write (v.text ++ [0])).map fun b => b.add v.text.length
      else some b := by
  cases v with
  | short v =>
    change formatInterger b v.toInt32 = _
    rw [formatInterger_eq, show Integral.value v.toInt32 = v.toInt from Int16.toInt_toInt32 v]
    rfl
  | unsignedShort v =>
    change formatInterger b v.toUInt32 = _
    rw [formatInterger_eq,
      show Integral.value v.toUInt32 = v.toNat from congrArg Nat.cast (UInt16.toNat_toUInt32 v)]
    rfl
  | int v | unsignedInt v | long v | unsignedLong v | longLong v | unsignedLongLong v =>
    exact formatInterger_eq b v
  | float v | double v =>
    have hshort : snprintf 32 v.text = v.text :=
      List.take_of_length_le (v.length_text.trans (by decide))
    change formatDouble b v = _
    rw [formatDouble, hshort]
    rfl
  | pointer p =>
    have hlen : (ascii "0x" ++ hexadecimal p.toNat).length = (hexadecimal p.toNat).length + 2 := by
      rw [List.length_append, Nat.add_comm]
      rfl
    change formatPointer b p = _
    rw [formatPointer, convertHex_eq, Option.bind_some, ← List.append_assoc, ← hlen]
    rfl
  | _ => cases h

theorem length_number {v : Value} (h : v.isNumber = true) : v.text.length + 1 ≤ 32 := by
  cases v with
  | short v =>
    have hlen := length_decimal_value v.toInt32
    rw [show Integral.value v.toInt32 = v.toInt from Int16.toInt_toInt32 v] at hlen
    exact hlen.trans (by decide)
  | unsignedShort v =>
    have hlen := length_decimal_value v.toUInt32
    rw [show Integral.value v.toUInt32 = v.toNat from
      congrArg Nat.cast (UInt16.toNat_toUInt32 v)] at hlen
    exact hlen.trans (by decide)
  | int v | unsignedInt v | long v | unsignedLong v | longLong v | unsignedLongLong v =>
    exact (length_decimal_value v).trans (by decide)
  | float v | double v => exact (Nat.succ_le_succ v.length_text).trans (by decide)
  | pointer p =>
    have hlen := length_hexadecimal p
    change (ascii "0x" ++ hexadecimal p.toNat).length + 1 ≤ 32
    rw [List.length_append, show (ascii "0x").length = 2 from rfl]
    omega
  | _ => cases h

theorem insert_contents (hsize : size < 2 ^ 31) {b : Buffer size} (hb : b.Sound) {v : Value}
    (hv : v.isNumber = false → v.text.length < 2 ^ 31) :
    ∃ b', insert b v = some b' ∧ b'.Sound ∧ b'.contents = put b.contents v := by
  rw [put]
  cases hnumber : v.isNumber with
  | true =>
    rw [insert_number hnumber, if_pos rfl]
    exact number_contents hsize hb (length_number hnumber)
  | false =>
    rw [insert_text hnumber, if_neg Bool.false_ne_true]
    exact Buffer.append_contents hsize hb (hv hnumber)

def Op.appended : Op → Option Bytes
  | .insert v => if v.isNumber then none else some v.text
  | .append data len => some (copied data len)
  | _ => none

/-- The operation appends no text whose length is too long for an `int` and looks short enough. -/
def Narrows (b : Buffer size) (op : Op) : Prop := ∀ str ∈ op.appended, b.Narrows str

/-- There is always a byte left behind what the buffer holds. -/
def InBounds (b : Buffer size) : Prop := 0 ≤ b.length ∧ b.length < size

theorem step_isSome_iff (hsize : size < 2 ^ 31) {b : Buffer size} (hb : b.Sound) (op : Op) :
    (step b op).isSome = true ↔ Narrows b op := by
  cases op with
  | insert v =>
    change (insert b v).isSome = true ↔ ∀ str ∈ (if v.isNumber then none else some v.text), _
    cases hnumber : v.isNumber with
    | true =>
      obtain ⟨b', hb', -⟩ := insert_contents hsize hb (v := v) (by simp [hnumber])
      rw [hb']
      exact iff_of_true rfl nofun
    | false =>
      rw [insert_text hnumber, Buffer.append_isSome_iff hsize hb]
      simp
  | append data len =>
    change (b.append _).isSome = true ↔ ∀ str ∈ some (copied data len), _
    rw [Buffer.append_isSome_iff hsize hb]
    simp
  | resetBuffer => exact iff_of_true rfl nofun
  | bzero => exact iff_of_true rfl nofun
  | debugString =>
    rw [Buffer.Sound] at hb
    refine iff_of_true ?_ nofun
    change (b.write [0]).isSome = true
    rw [Buffer.write, dif_pos (by rw [List.length_singleton]; omega)]
    rfl

theorem step_sound (hpos : 0 < size) (hsize : size < 2 ^ 31) {b b' : Buffer size} (hb : b.Sound)
    {op : Op} (h : step b op = some b') : b'.Sound := by
  cases op with
  | insert v =>
    change insert b v = some b' at h
    cases hnumber : v.isNumber with
    | true =>
      obtain ⟨b'', hb'', hsound, -⟩ := insert_contents hsize hb (v := v) (by simp [hnumber])
      cases h.symm.trans hb''
      exact hsound
    | false =>
      rw [insert_text hnumber] at h
      exact Buffer.append_sound hsize hb h
  | append data len => exact Buffer.append_sound hsize hb h
  | resetBuffer =>
    cases h
    exact hpos
  | bzero =>
    cases h
    exact hb
  | debugString =>
    change b.write [0] = some b' at h
    rw [Buffer.write] at h
    split_ifs at h
    cases h
    exact hb

theorem inBounds_of_sound (hsize : size < 2 ^ 31) {b : Buffer size} (hb : b.Sound) :
    InBounds b := by
  rw [Buffer.Sound] at hb
  have hlen : b.length = b.cur := toInt_eq_self (by omega) (by omega)
  rw [InBounds, hlen]
  omega

/-- From a new buffer, a sequence of operations writes only inside the array, and leaves a byte free
after each of them, exactly when none of them appends a text whose length is at least `2 ^ 31` and,
narrowed to `int`, less than what is available. -/
theorem in_bounds_iff_narrows (hpos : 0 < size) (hsize : size < 2 ^ 31) (data : Bytes)
    (hdata : data.length = size) (ops : List Op) :
    ((runFrom step (Buffer.new data hdata) ops).isSome = true ∧
      Throughout step InBounds (Buffer.new data hdata) ops) ↔
    Along step Narrows (Buffer.new data hdata) ops := by
  have hsound := Buffer.sound_new data hdata hpos
  have hkeep : ∀ (b : Buffer size) (op : Op) (b' : Buffer size), b.Sound → step b op = some b' →
      b'.Sound := fun _ _ _ hb h => step_sound hpos hsize hb h
  rw [runFrom_isSome_iff_along hkeep (fun _ op hb => step_isSome_iff hsize hb op) hsound]
  exact and_iff_left
    (throughout_of_invariant hkeep (fun _ hb => inBounds_of_sound hsize hb) hsound ops)

/-- A text, numbers of both widths, an address and a text of a given length. -/
def sampleOps : List Op :=
  [.insert (.string (ascii "n=")), .insert (.int (-12)), .insert (.unsignedLong 7),
    .insert (.pointer 255), .append (fun _ => 65) 3, .debugString]

theorem small_buffer_in_bounds :
    ((runFrom step (Buffer.new (List.replicate kSmallBuffer 0) List.length_replicate)
        sampleOps).isSome = true ∧
      Throughout step InBounds (Buffer.new (List.replicate kSmallBuffer 0) List.length_replicate)
        sampleOps) ↔
    Along step Narrows (Buffer.new (List.replicate kSmallBuffer 0) List.length_replicate)
      sampleOps :=
  in_bounds_iff_narrows (by decide) (by decide) _ _ _

/-- A string whose length looks negative is copied, whatever the buffer. -/
theorem insert_long_string (hsize : size < 2 ^ 31) {b : Buffer size} (hb : b.Sound) {str : Bytes}
    (hlong : 2 ^ 31 ≤ str.length) (hneg : toInt str.length < b.avail) :
    runFrom step b [.insert (.string str)] = none := by
  have hnone : b.append str = none := by
    rw [← Option.not_isSome_iff_eq_none, Buffer.append_isSome_iff hsize hb, Buffer.Narrows]
    omega
  rw [runFrom]
  change (b.append str).bind _ = none
  rw [hnone, Option.bind_none]

/-- A string of two gigabytes is copied into a buffer of four kilobytes. -/
theorem long_string_overflows :
    runFrom step (Buffer.new (List.replicate kSmallBuffer 0) List.length_replicate)
      [.insert (.string (List.replicate 2147483648 65))] = none := by
  have hneg : toInt (2147483648 : ℕ) < toInt ((kSmallBuffer : ℤ) - (0 : ℕ)) := by decide
  apply insert_long_string (by decide) (Buffer.sound_new _ _ (by decide))
  · rw [List.length_replicate]
    omega
  · rw [List.length_replicate]
    exact hneg

/-- The canonical decimal numeral of an integer: a minus for a negative one, and digits without
leading zeros that denote its absolute value. -/
def IsDecimalOf (v : ℤ) (text : Bytes) : Prop :=
  ∃ digits, text = (if v < 0 then minus :: digits else digits) ∧ (∀ b ∈ digits, isDigit b) ∧
    (digits.head? = some 48 → digits = [48]) ∧ parseDecimal digits = some v.natAbs

def IsHexadecimalOf (n : ℕ) (text : Bytes) : Prop :=
  (∀ b ∈ text, b ∈ ascii "0123456789ABCDEF") ∧ (text.head? = some 48 → text = [48]) ∧
    parseHexadecimal text = some n

theorem numeral_head {base : ℕ} {digit : ℕ → UInt8} (hbase : 1 < base)
    (hdigit : ∀ d < base, digit d = digit 0 → d = 0) {n : ℕ}
    (h : (numeral base digit n).head? = some (digit 0)) : numeral base digit n = [digit 0] := by
  rcases eq_or_ne n 0 with rfl | hn
  · rfl
  · exact absurd h (head_numeral_ne hbase hdigit hn)

theorem isDecimalOf_decimal (v : ℤ) : IsDecimalOf v (decimal v) := by
  refine ⟨decimal v.natAbs, ?_, fun b hb => isDigit_decimal hb, ?_, parseDecimal_decimal _⟩
  · split_ifs with hneg
    · exact decimal_of_neg hneg
    · exact decimal_of_nonneg (not_lt.mp hneg)
  · rw [decimal_eq_numeral]
    exact numeral_head (by decide) (by decide)

theorem isHexadecimalOf_hexadecimal (n : ℕ) : IsHexadecimalOf n (hexadecimal n) := by
  refine ⟨?_, numeral_head (by decide) (by decide), parseHexadecimal_hexadecimal n⟩
  have hdigits : ∀ d < 16, hexDigit d ∈ ascii "0123456789ABCDEF" := by decide
  intro b hb
  obtain ⟨d, hd, rfl⟩ := mem_numeral (by decide) hb
  exact hdigits d hd

def Value.integer : Value → Option ℤ
  | .short v => some v.toInt
  | .unsignedShort v => some v.toNat
  | .int v => some v.toInt
  | .unsignedInt v => some v.toNat
  | .long v | .longLong v => some v.toInt
  | .unsignedLong v | .unsignedLongLong v => some v.toNat
  | _ => none

theorem text_of_integer {v : Value} {n : ℤ} (h : v.integer = some n) :
    v.isNumber = true ∧ v.text = decimal n := by
  cases v <;> cases h <;> exact ⟨rfl, rfl⟩

theorem insert_number_data (hsize : size < 2 ^ 31) {b : Buffer size} (hb : b.Sound) {v : Value}
    (h : v.isNumber = true) :
    ∃ b', insert b v = some b' ∧ b'.contents.data =
      if kMaxNumericSize ≤ b.avail then b.contents.data ++ v.text else b.contents.data := by
  obtain ⟨b', hb', -, hcontents⟩ := insert_contents hsize hb (v := v) (by simp [h])
  have hlen := length_number h
  refine ⟨b', hb', ?_⟩
  rw [hcontents, put, if_pos h, appendNumber, Buffer.avail_eq hsize hb]
  split_ifs with hfits
  · have hmax : (32 : ℤ) ≤ b.contents.avail := hfits
    exact FixedBuffer.append_data (by omega)
  · rfl

/-- Every value of an integer type is printed as its canonical decimal numeral, and every address
as its canonical hexadecimal numeral; no table is read outside its bounds, each text denotes its
value, and takes at most 32 bytes with its terminating zero. The stream appends it as a whole or
not at all. -/
theorem integers_printed_exactly (b : Buffer kSmallBuffer) (hb : b.Sound) :
    (∀ (T : Type) [Integral T] (v : T), ∃ text, convertInt v = some (text ++ [0], text.length) ∧
      IsDecimalOf (Integral.value v) text ∧ parseSigned text = some (Integral.value v) ∧
      (text ++ [0]).length ≤ 32) ∧
    (∀ p : UInt64, ∃ text, convertHex p = some (text ++ [0], text.length) ∧
      IsHexadecimalOf p.toNat text ∧ (ascii "0x" ++ text ++ [0]).length ≤ 32) ∧
    (∀ v n, v.integer = some n → ∃ text b', IsDecimalOf n text ∧ insert b v = some b' ∧
      b'.contents.data =
        if kMaxNumericSize ≤ b.avail then b.contents.data ++ text else b.contents.data) ∧
    (∀ p : UInt64, ∃ text b', IsHexadecimalOf p.toNat text ∧ insert b (.pointer p) = some b' ∧
      b'.contents.data =
        if kMaxNumericSize ≤ b.avail then b.contents.data ++ (ascii "0x" ++ text)
        else b.contents.data) := by
  have hsize : kSmallBuffer < 2 ^ 31 := by decide
  refine ⟨?_, ?_, ?_, ?_⟩
  · intro T _ v
    have hlen := length_decimal_value v
    refine ⟨_, convertInt_eq v, isDecimalOf_decimal _, parseSigned_decimal _, ?_⟩
    rw [List.length_append, List.length_singleton]
    omega
  · intro p
    have hlen := length_number (v := .pointer p) rfl
    refine ⟨_, convertHex_eq p, isHexadecimalOf_hexadecimal _, ?_⟩
    rw [List.length_append]
    exact hlen
  · intro v n hv
    obtain ⟨hnumber, htext⟩ := text_of_integer hv
    obtain ⟨b', hb', hdata⟩ := insert_number_data hsize hb hnumber
    exact ⟨decimal n, b', isDecimalOf_decimal n, hb', htext ▸ hdata⟩
  · intro p
    obtain ⟨b', hb', hdata⟩ := insert_number_data hsize hb (v := .pointer p) rfl
    exact ⟨_, b', isHexadecimalOf_hexadecimal _, hb', hdata⟩

theorem integers_printed_into_new_buffer :
    ∃ text b', IsDecimalOf Int64.minValue.toInt text ∧
      insert (Buffer.new (List.replicate kSmallBuffer 0) List.length_replicate)
        (.long Int64.minValue) = some b' ∧ b'.contents.data =
          if kMaxNumericSize ≤
            (Buffer.new (List.replicate kSmallBuffer 0) List.length_replicate).avail
          then (Buffer.new (List.replicate kSmallBuffer 0)
            List.length_replicate).contents.data ++ text
          else (Buffer.new (List.replicate kSmallBuffer 0) List.length_replicate).contents.data :=
  (integers_printed_exactly _ (Buffer.sound_new _ _ (by decide))).2.2.1 _ _ rfl

end Matelib.LogStream
