import Matelib.Search
import Matelib.Segment
import Mathlib.Tactic

/-!
# The byte buffer

`Buffer` is the vector with a read index and a write index that every connection uses for input
and output. The operations follow the source, with positions inside the vector as indices; an
operation returns `none` exactly when one of its assertions fails. `Valid` is the index invariant,
and each operation has one specification lemma: it keeps `Valid` and acts on the readable bytes as
on a byte queue.
-/

namespace Matelib

open Segment

abbrev Bytes := List UInt8

structure Buffer where
  buffer : Bytes
  readIndex : ℕ
  writeIndex : ℕ
  deriving DecidableEq, Repr

/-- What `readv` reports: the bytes it delivered, or an error number. -/
inductive ReadvResult where
  | got (data : Bytes)
  | failed (errno : ℕ)
  deriving DecidableEq, Repr

def ReadvResult.bytes : ReadvResult → Bytes
  | .got data => data
  | .failed _ => []

/-- The return value of `readFd` with the error number it stores for the caller. -/
def ReadvResult.report : ReadvResult → ℤ × Option ℕ
  | .got data => (data.length, none)
  | .failed errno => (-1, some errno)

namespace Buffer

def kCheapPrepend : ℕ := 8
def kInitialSize : ℕ := 1024
def kExtraSize : ℕ := 65536
def kCRLF : Bytes := [13, 10]

def empty : Buffer where
  buffer := List.replicate (kCheapPrepend + kInitialSize) 0
  readIndex := kCheapPrepend
  writeIndex := kCheapPrepend

def readableBytes (b : Buffer) : ℕ := b.writeIndex - b.readIndex
def writeableBytes (b : Buffer) : ℕ := b.buffer.length - b.writeIndex
def prependableBytes (b : Buffer) : ℕ := b.readIndex

def readable (b : Buffer) : Bytes := segment b.buffer b.readIndex b.writeIndex

/-- The position of the first CRLF; `std::search` gives `beginWrite()` when there is none. -/
def findCRLF (b : Buffer) : Option ℕ := (Search.search kCRLF b.readable).map (b.readIndex + ·)

def retrieveAll (b : Buffer) : Buffer :=
  { b with readIndex := kCheapPrepend, writeIndex := kCheapPrepend }

def retrieve (b : Buffer) (n : ℕ) : Option Buffer :=
  if n ≤ b.readableBytes then
    if n < b.readableBytes then some { b with readIndex := b.readIndex + n }
    else some b.retrieveAll
  else none

def retrieveUntil (b : Buffer) (stop : ℕ) : Option Buffer :=
  if b.readIndex ≤ stop ∧ stop ≤ b.writeIndex then b.retrieve (stop - b.readIndex) else none

def retrieveAsString (b : Buffer) (n : ℕ) : Option (Bytes × Buffer) :=
  if n ≤ b.readableBytes then
    (b.retrieve n).map fun b' => (segment b.buffer b.readIndex (b.readIndex + n), b')
  else none

def retrieveAllAsString (b : Buffer) : Option (Bytes × Buffer) :=
  b.retrieveAsString b.readableBytes

/-- `std::vector::resize`, which fills new places with zero. -/
def resize (v : Bytes) (n : ℕ) : Bytes := v.take n ++ List.replicate (n - v.length) 0

def ensureWritableBytes (b : Buffer) (len : ℕ) : Option Buffer :=
  if b.writeableBytes < len then
    if b.writeableBytes + b.prependableBytes < len + kCheapPrepend then
      some { b with buffer := resize b.buffer (b.writeIndex + len) }
    else if kCheapPrepend < b.readIndex then
      -- move the readable bytes to the front
      let moved : Buffer :=
        { buffer := overwrite b.buffer kCheapPrepend b.readable
          readIndex := kCheapPrepend
          writeIndex := kCheapPrepend + b.readableBytes }
      if b.readableBytes = moved.readableBytes then some moved else none
    else none
  else some b

def append (b : Buffer) (data : Bytes) : Option Buffer :=
  (b.ensureWritableBytes data.length).map fun b' =>
    { b' with
      buffer := overwrite b'.buffer b'.writeIndex data
      writeIndex := b'.writeIndex + data.length }

def ofData (data : Bytes) : Option Buffer := empty.append data

def copy (rhs : Buffer) : Option Buffer :=
  { buffer := List.replicate (kCheapPrepend + kInitialSize + rhs.readableBytes) 0
    readIndex := kCheapPrepend
    writeIndex := kCheapPrepend : Buffer }.append rhs.readable

/-- `swap` exchanges all three members; the pair is (`*this`, `rhs`) afterwards. -/
def swap (b rhs : Buffer) : Buffer × Buffer := (rhs, b)

/-- The move constructor; the pair is the new object and what it leaves in `rhs`. -/
def move (rhs : Buffer) : Buffer × Buffer := swap empty rhs

def erase (b : Buffer) (start len : ℕ) : Option Buffer :=
  if b.readIndex ≤ start ∧ start + len ≤ b.writeIndex then
    if start = b.readIndex then b.retrieve len
    else some { b with
      buffer := eraseRange b.buffer start (start + len)
      writeIndex := b.writeIndex - len }
  else none

def clear (b : Buffer) : Buffer :=
  retrieveAll { b with
    buffer := overwrite b.buffer kCheapPrepend
      (List.replicate (b.writeIndex - kCheapPrepend) 0) }

def readFd (b : Buffer) : ReadvResult → Option ((ℤ × Option ℕ) × Buffer)
  | .failed errno => some ((-1, some errno), b)
  | .got data =>
    let writable := b.writeableBytes
    -- `readv` fills the free part of the vector first, then `extrabuf`
    let filled := overwrite b.buffer b.writeIndex (data.take writable)
    if data.length ≤ writable then
      some ((data.length, none),
        { b with buffer := filled, writeIndex := b.writeIndex + data.length })
    else
      ({ b with buffer := filled, writeIndex := filled.length }.append (data.drop writable)).map
        fun b' => ((data.length, none), b')

structure Valid (b : Buffer) : Prop where
  prepend_le_read : kCheapPrepend ≤ b.readIndex
  read_le_write : b.readIndex ≤ b.writeIndex
  write_le_size : b.writeIndex ≤ b.buffer.length

theorem length_readable {b : Buffer} (h : b.Valid) : b.readable.length = b.readableBytes :=
  length_segment h.write_le_size

theorem empty_valid : empty.Valid where
  prepend_le_read := le_rfl
  read_le_write := le_rfl
  write_le_size := by
    rw [empty, List.length_replicate]
    exact Nat.le_add_right _ _

@[simp] theorem readable_empty : empty.readable = [] := segment_self _ _

theorem retrieveAll_valid {b : Buffer} (h : b.Valid) : b.retrieveAll.Valid where
  prepend_le_read := le_rfl
  read_le_write := le_rfl
  write_le_size := h.prepend_le_read.trans (h.read_le_write.trans h.write_le_size)

@[simp] theorem readable_retrieveAll (b : Buffer) : b.retrieveAll.readable = [] := segment_self _ _

theorem retrieve_spec {b : Buffer} (h : b.Valid) {n : ℕ} (hn : n ≤ b.readableBytes) :
    ∃ b', b.retrieve n = some b' ∧ b'.Valid ∧ b'.readable = b.readable.drop n := by
  rw [retrieve, if_pos hn]
  by_cases hlt : n < b.readableBytes
  · rw [if_pos hlt]
    have hread := h.prepend_le_read
    unfold readableBytes at hlt
    exact ⟨_, rfl, ⟨by simp only; omega, by simp only; omega, h.write_le_size⟩,
      (drop_segment ..).symm⟩
  · rw [if_neg hlt]
    refine ⟨_, rfl, retrieveAll_valid h, ?_⟩
    rw [readable_retrieveAll, List.drop_of_length_le]
    rw [length_readable h]
    omega

theorem retrieve_isSome {b : Buffer} {n : ℕ} : (b.retrieve n).isSome ↔ n ≤ b.readableBytes := by
  unfold retrieve
  split_ifs <;> simp_all

theorem retrieveUntil_spec {b : Buffer} (h : b.Valid) {stop : ℕ} (hr : b.readIndex ≤ stop)
    (hw : stop ≤ b.writeIndex) :
    ∃ b', b.retrieveUntil stop = some b' ∧ b'.Valid ∧
      b'.readable = b.readable.drop (stop - b.readIndex) := by
  rw [retrieveUntil, if_pos ⟨hr, hw⟩]
  exact retrieve_spec h (Nat.sub_le_sub_right hw _)

theorem retrieveAsString_spec {b : Buffer} (h : b.Valid) {n : ℕ} (hn : n ≤ b.readableBytes) :
    ∃ b', b.retrieveAsString n = some (b.readable.take n, b') ∧ b'.Valid ∧
      b'.readable = b.readable.drop n := by
  obtain ⟨b', hb', hv, hr⟩ := retrieve_spec h hn
  refine ⟨b', ?_, hv, hr⟩
  rw [retrieveAsString, if_pos hn, hb', Option.map_some, readable, take_segment]
  have := h.read_le_write
  unfold readableBytes at hn
  omega

theorem length_resize {v : Bytes} {n : ℕ} : (resize v n).length = n := by
  simp only [resize, List.length_append, List.length_take, List.length_replicate]
  omega

theorem resize_of_le {v : Bytes} {n : ℕ} (h : v.length ≤ n) :
    resize v n = v ++ List.replicate (n - v.length) 0 := by
  rw [resize, List.take_of_length_le h]

/-- `ensureWritableBytes` keeps the readable bytes and makes room for `len` more. Neither of its
assertions fires: when the free space suffices without the prepend area, the read index has moved
past that area. -/
theorem ensureWritableBytes_spec {b : Buffer} (h : b.Valid) (len : ℕ) :
    ∃ b', b.ensureWritableBytes len = some b' ∧ b'.Valid ∧ len ≤ b'.writeableBytes ∧
      b'.readable = b.readable := by
  obtain ⟨hp, hr, hw⟩ := h
  by_cases hlen : b.writeableBytes < len
  · by_cases hroom : b.writeableBytes + b.prependableBytes < len + kCheapPrepend
    · rw [ensureWritableBytes, if_pos hlen, if_pos hroom]
      unfold writeableBytes at hlen
      refine ⟨_, rfl, ⟨hp, hr, ?_⟩, ?_, ?_⟩
      · rw [length_resize]
        exact Nat.le_add_right _ _
      · rw [writeableBytes, length_resize]
        exact (Nat.add_sub_cancel_left ..).ge
      · rw [readable, resize_of_le (by omega), segment_append_right _ hw]
        rfl
    · have hmoved : kCheapPrepend < b.readIndex := by
        unfold prependableBytes at hroom
        omega
      have hcount : b.readable.length = b.readableBytes := length_readable ⟨hp, hr, hw⟩
      have hfit : kCheapPrepend + b.readable.length ≤ b.buffer.length := by
        rw [hcount, readableBytes]
        omega
      have hsize := length_overwrite hfit
      have hkept : b.readableBytes = kCheapPrepend + b.readableBytes - kCheapPrepend :=
        (Nat.add_sub_cancel_left ..).symm
      rw [ensureWritableBytes, if_pos hlen, if_neg hroom, if_pos hmoved]
      refine ⟨_, if_pos hkept, ⟨le_rfl, Nat.le_add_right _ _, ?_⟩, ?_, ?_⟩
      · change kCheapPrepend + b.readableBytes ≤
          (overwrite b.buffer kCheapPrepend b.readable).length
        rw [hsize, ← hcount]
        exact hfit
      · change len ≤ (overwrite b.buffer kCheapPrepend b.readable).length -
          (kCheapPrepend + b.readableBytes)
        rw [hsize]
        unfold writeableBytes prependableBytes readableBytes at *
        omega
      · change segment (overwrite b.buffer kCheapPrepend b.readable) kCheapPrepend
          (kCheapPrepend + b.readableBytes) = b.readable
        rw [← hcount]
        exact segment_overwrite_self _ (by omega)
  · rw [ensureWritableBytes, if_neg hlen]
    exact ⟨b, rfl, ⟨hp, hr, hw⟩, not_lt.mp hlen, rfl⟩

/-- The sums of `ensureWritableBytes` do not wrap around in a 64-bit `size_t`, as long as the vector
stays below its maximal size and the request below `2 ^ 63`. -/
theorem ensureWritableBytes_no_wrap {b : Buffer} (h : b.Valid) (hsize : b.buffer.length < 2 ^ 63)
    {len : ℕ} (hlen : len < 2 ^ 63) :
    b.writeableBytes + b.prependableBytes < 2 ^ 64 ∧ len + kCheapPrepend < 2 ^ 64 ∧
      b.writeIndex + len < 2 ^ 64 := by
  obtain ⟨_, hr, hw⟩ := h
  unfold writeableBytes prependableBytes kCheapPrepend
  omega

theorem write_spec {b : Buffer} (h : b.Valid) {data : Bytes}
    (hroom : data.length ≤ b.writeableBytes) :
    Valid { b with
      buffer := overwrite b.buffer b.writeIndex data
      writeIndex := b.writeIndex + data.length } ∧
    readable { b with
      buffer := overwrite b.buffer b.writeIndex data
      writeIndex := b.writeIndex + data.length } = b.readable ++ data := by
  have hw := h.write_le_size
  have hfit : b.writeIndex + data.length ≤ b.buffer.length := by
    unfold writeableBytes at hroom
    omega
  constructor
  · refine ⟨h.prepend_le_read, h.read_le_write.trans (Nat.le_add_right _ _), ?_⟩
    rw [length_overwrite hfit]
    exact hfit
  · unfold readable
    rw [← segment_append_segment h.read_le_write (Nat.le_add_right b.writeIndex data.length),
      segment_overwrite_of_le data le_rfl hw, segment_overwrite_self data hw]

theorem append_spec {b : Buffer} (h : b.Valid) (data : Bytes) :
    ∃ b', b.append data = some b' ∧ b'.Valid ∧ b'.readable = b.readable ++ data := by
  obtain ⟨b₁, hb₁, hv₁, hroom, hr₁⟩ := ensureWritableBytes_spec h data.length
  obtain ⟨hv, hr⟩ := write_spec hv₁ hroom
  refine ⟨_, ?_, hv, ?_⟩
  · rw [append, hb₁, Option.map_some]
  · rw [hr, hr₁]

theorem ofData_spec (data : Bytes) :
    ∃ b, ofData data = some b ∧ b.Valid ∧ b.readable = data := by
  obtain ⟨b, hb, hv, hr⟩ := append_spec empty_valid data
  exact ⟨b, hb, hv, by rw [hr, readable_empty, List.nil_append]⟩

theorem copy_spec (rhs : Buffer) :
    ∃ b, copy rhs = some b ∧ b.Valid ∧ b.readable = rhs.readable := by
  have hv : Valid
      { buffer := List.replicate (kCheapPrepend + kInitialSize + rhs.readableBytes) 0
        readIndex := kCheapPrepend
        writeIndex := kCheapPrepend } := by
    refine ⟨le_rfl, le_rfl, ?_⟩
    rw [List.length_replicate, Nat.add_assoc]
    exact Nat.le_add_right _ _
  obtain ⟨b, hb, hb', hr⟩ := append_spec hv rhs.readable
  refine ⟨b, hb, hb', ?_⟩
  rw [hr, readable, segment_self, List.nil_append]

theorem erase_spec {b : Buffer} (h : b.Valid) {start len : ℕ} (hs : b.readIndex ≤ start)
    (he : start + len ≤ b.writeIndex) :
    ∃ b', b.erase start len = some b' ∧ b'.Valid ∧
      b'.readable = eraseRange b.readable (start - b.readIndex) (start - b.readIndex + len) := by
  obtain ⟨hp, hr, hw⟩ := h
  rw [erase, if_pos ⟨hs, he⟩]
  by_cases hfront : start = b.readIndex
  · rw [if_pos hfront]
    obtain ⟨b', hb', hv, hd⟩ := retrieve_spec ⟨hp, hr, hw⟩ (n := len)
      (by unfold readableBytes; omega)
    refine ⟨b', hb', hv, ?_⟩
    rw [hd, eraseRange, hfront, Nat.sub_self, Nat.zero_add, List.take_zero, List.nil_append]
  · rw [if_neg hfront]
    refine ⟨_, rfl, ⟨hp, ?_, ?_⟩, ?_⟩
    · simp only
      omega
    · simp only
      rw [length_eraseRange (by omega) (by omega)]
      omega
    · have hcut := segment_eraseRange (l := b.buffer) hs (Nat.le_add_right start len) he hw
      rw [Nat.add_sub_cancel_left] at hcut
      rw [readable, hcut, eraseRange, readable, drop_segment, take_segment (by omega)]
      congr 2 <;> omega

theorem clear_spec {b : Buffer} (h : b.Valid) : b.clear.Valid ∧ b.clear.readable = [] := by
  obtain ⟨hp, hr, hw⟩ := h
  have hfit : kCheapPrepend + (List.replicate (b.writeIndex - kCheapPrepend) (0 : UInt8)).length ≤
      b.buffer.length := by
    rw [List.length_replicate]
    omega
  refine ⟨⟨le_rfl, le_rfl, ?_⟩, segment_self _ _⟩
  rw [clear, retrieveAll, length_overwrite hfit]
  exact hp.trans (hr.trans hw)

/-- `readFd` appends exactly the bytes that `readv` delivered, whether they fit into the free part
of the vector or overflow into `extrabuf`. -/
theorem readFd_spec {b : Buffer} (h : b.Valid) (r : ReadvResult) :
    ∃ b', b.readFd r = some (r.report, b') ∧ b'.Valid ∧ b'.readable = b.readable ++ r.bytes := by
  cases r with
  | failed errno => exact ⟨b, rfl, h, (List.append_nil _).symm⟩
  | got data =>
    unfold readFd
    by_cases hfit : data.length ≤ b.writeableBytes
    · obtain ⟨hv, hr⟩ := write_spec h hfit
      simp only [List.take_of_length_le hfit, if_pos hfit]
      exact ⟨_, rfl, hv, hr⟩
    · -- the first part fills the vector, so its new write index is the size of the vector
      have hw := h.write_le_size
      have hlen : (data.take b.writeableBytes).length = b.writeableBytes := by
        rw [List.length_take]
        omega
      obtain ⟨hv, hr⟩ := write_spec h hlen.le
      have hfull : (overwrite b.buffer b.writeIndex (data.take b.writeableBytes)).length =
          b.writeIndex + (data.take b.writeableBytes).length := by
        rw [length_overwrite] <;> rw [hlen, writeableBytes] <;> omega
      obtain ⟨b', hb', hv', hr'⟩ := append_spec hv (data.drop b.writeableBytes)
      simp only [if_neg hfit, hfull]
      refine ⟨b', by rw [hb', Option.map_some]; rfl, hv', ?_⟩
      rw [hr', hr, List.append_assoc, List.take_append_drop, ReadvResult.bytes]

end Buffer

end Matelib
