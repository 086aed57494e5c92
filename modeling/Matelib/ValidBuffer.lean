import Matelib.Buffer

/-!
# Buffers that carry their index invariant

`ValidBuffer` packs a buffer with its index invariant. The operations without a precondition are
total on it, and the only operation of the upper layers that can fail is `retrieve`. The layers
above the buffer are written with these operations and see it through its readable bytes.
-/

namespace Matelib

open Search Segment

structure ValidBuffer where
  buf : Buffer
  valid : buf.Valid
  deriving DecidableEq

namespace ValidBuffer

def empty : ValidBuffer := ⟨Buffer.empty, Buffer.empty_valid⟩

def readable (b : ValidBuffer) : Bytes := b.buf.readable

def readableBytes (b : ValidBuffer) : ℕ := b.buf.readableBytes

@[simp] theorem length_readable (b : ValidBuffer) : b.readable.length = b.readableBytes :=
  Buffer.length_readable b.valid

@[simp] theorem readable_empty : empty.readable = [] := Buffer.readable_empty

theorem readableBytes_eq_zero {b : ValidBuffer} : b.readableBytes = 0 ↔ b.readable = [] := by
  rw [← length_readable, List.length_eq_zero_iff]

def append (b : ValidBuffer) (data : Bytes) : ValidBuffer :=
  ⟨(b.buf.append data).get (by
      obtain ⟨b', hb', _⟩ := Buffer.append_spec b.valid data
      rw [hb', Option.isSome_some]),
    by
      obtain ⟨b', hb', hv, _⟩ := Buffer.append_spec b.valid data
      simpa only [hb', Option.get_some] using hv⟩

theorem val_append (b : ValidBuffer) (data : Bytes) :
    b.buf.append data = some (b.append data).buf :=
  (Option.some_get _).symm

@[simp] theorem readable_append (b : ValidBuffer) (data : Bytes) :
    (b.append data).readable = b.readable ++ data := by
  obtain ⟨b', hb', _, hr⟩ := Buffer.append_spec b.valid data
  have hval := val_append b data
  rw [hb', Option.some.injEq] at hval
  rw [readable, ← hval, hr]
  rfl

/-- `retrieve`, which fails exactly when its assertion does. -/
def retrieve (b : ValidBuffer) (n : ℕ) : Option ValidBuffer :=
  if h : (b.buf.retrieve n).isSome then
    some ⟨(b.buf.retrieve n).get h, by
      obtain ⟨b', hb', hv, _⟩ := Buffer.retrieve_spec b.valid (Buffer.retrieve_isSome.mp h)
      simpa only [hb', Option.get_some] using hv⟩
  else none

theorem retrieve_of_le (b : ValidBuffer) {n : ℕ} (h : n ≤ b.readable.length) :
    ∃ b', b.retrieve n = some b' ∧ b'.readable = b.readable.drop n := by
  rw [length_readable] at h
  obtain ⟨c, hc, hv, hr⟩ := Buffer.retrieve_spec b.valid h
  refine ⟨⟨c, hv⟩, ?_, hr⟩
  unfold retrieve
  simp only [hc, Option.isSome_some, dif_pos, Option.get_some]

theorem retrieve_of_lt (b : ValidBuffer) {n : ℕ} (h : b.readable.length < n) :
    b.retrieve n = none := by
  have : ¬ (b.buf.retrieve n).isSome := by
    rw [Buffer.retrieve_isSome]
    rw [length_readable] at h
    exact not_le_of_gt h
  rw [retrieve, dif_neg this]

/-- `retrieveAsString`, with the assertion that it makes of its own. -/
def retrieveAsString (b : ValidBuffer) (n : ℕ) : Option (Bytes × ValidBuffer) :=
  if n ≤ b.readableBytes then (b.retrieve n).map (b.readable.take n, ·) else none

def retrieveAllAsString (b : ValidBuffer) : Option (Bytes × ValidBuffer) :=
  b.retrieveAsString b.readableBytes

theorem retrieveAllAsString_spec (b : ValidBuffer) :
    ∃ b', b.retrieveAllAsString = some (b.readable, b') ∧ b'.readable = [] := by
  obtain ⟨b', hb', hr⟩ := b.retrieve_of_le (length_readable b).ge
  refine ⟨b', ?_, ?_⟩
  · rw [retrieveAllAsString, retrieveAsString, if_pos le_rfl, hb', Option.map_some,
      List.take_of_length_le (length_readable b).le]
  · rw [hr, List.drop_eq_nil_of_le (length_readable b).le]

/-- A position inside the vector, as `findCRLF` gives it too. -/
def peek (b : ValidBuffer) : ℕ := b.buf.readIndex

def findCRLF (b : ValidBuffer) : Option ℕ := b.buf.findCRLF

def upTo (b : ValidBuffer) (stop : ℕ) : Bytes := segment b.buf.buffer b.peek stop

def retrieveUntil (b : ValidBuffer) (stop : ℕ) : Option ValidBuffer :=
  if b.peek ≤ stop ∧ stop ≤ b.buf.writeIndex then b.retrieve (stop - b.peek) else none

theorem findCRLF_eq_none {b : ValidBuffer} :
    b.findCRLF = none ↔ search Buffer.kCRLF b.readable = none := Option.map_eq_none_iff

theorem findCRLF_spec {b : ValidBuffer} {stop : ℕ} (h : b.findCRLF = some stop) :
    ∃ i, search Buffer.kCRLF b.readable = some i ∧ b.upTo stop = b.readable.take i ∧
      ∃ b', b.retrieveUntil (stop + 2) = some b' ∧ b'.readable = b.readable.drop (i + 2) := by
  obtain ⟨i, hi, rfl⟩ := Option.map_eq_some_iff.mp h
  have hbound : i + 2 ≤ b.readable.length := search_bound hi
  have hcount := length_readable b
  have hrw := b.valid.read_le_write
  unfold readableBytes Buffer.readableBytes at hcount
  obtain ⟨b', hb', hr⟩ := b.retrieve_of_le hbound
  refine ⟨i, hi, ?_, b', ?_, hr⟩
  · rw [upTo, readable, Buffer.readable, take_segment (by omega)]
    rfl
  · have hoff : b.buf.readIndex + i + 2 - b.buf.readIndex = i + 2 := by omega
    rw [retrieveUntil, peek, if_pos (by omega), hoff, hb']

def retrieveAll (b : ValidBuffer) : ValidBuffer :=
  ⟨b.buf.retrieveAll, Buffer.retrieveAll_valid b.valid⟩

@[simp] theorem readable_retrieveAll (b : ValidBuffer) : b.retrieveAll.readable = [] :=
  Buffer.readable_retrieveAll b.buf

def clear (b : ValidBuffer) : ValidBuffer := ⟨b.buf.clear, (Buffer.clear_spec b.valid).1⟩

/-- `readFd`: the return value with `savedErrno`, and the buffer with the bytes that arrived. -/
def readFd (b : ValidBuffer) (r : ReadvResult) : (ℤ × Option ℕ) × ValidBuffer :=
  have hsome : (b.buf.readFd r).isSome := by
    obtain ⟨b', hb', _⟩ := Buffer.readFd_spec b.valid r
    rw [hb', Option.isSome_some]
  (((b.buf.readFd r).get hsome).1, ⟨((b.buf.readFd r).get hsome).2, by
    obtain ⟨b', hb', hv, _⟩ := Buffer.readFd_spec b.valid r
    simpa only [hb', Option.get_some] using hv⟩)

@[simp] theorem readable_readFd (b : ValidBuffer) (r : ReadvResult) :
    (b.readFd r).2.readable = b.readable ++ r.bytes := by
  obtain ⟨b', hb', _, hr⟩ := Buffer.readFd_spec b.valid r
  simpa only [readFd, readable, hb', Option.get_some] using hr

@[simp] theorem readFd_fst (b : ValidBuffer) (r : ReadvResult) : (b.readFd r).1 = r.report := by
  obtain ⟨b', hb', _⟩ := Buffer.readFd_spec b.valid r
  simp only [readFd, hb', Option.get_some]

end ValidBuffer

end Matelib
