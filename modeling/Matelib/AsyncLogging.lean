import Mathlib.Tactic
import Matelib.Text
import Matelib.Transition

/-!
# Asynchronous logging

Any number of threads append messages to the buffer in front; the thread of `threadFunc` collects
the full buffers, writes them to the log file and hands two of them back. The steps are the critical
sections of the mutex and the statements of the consumer between them. A step fails where the code
would run into an `assert`, a null pointer or the back of an empty vector, so `running_` stays true
and every other step is possible in every state: the wait for the condition can end at any time.
-/

namespace Matelib

open Transition

def kLargeBuffer : ℕ := 4096 * 1024

/-- A buffer with its bytes up to `cur_`. -/
structure FixedBuffer (size : ℕ) where
  data : Bytes
  fits : data.length ≤ size

namespace FixedBuffer

variable {size : ℕ}

def empty : FixedBuffer size := ⟨[], Nat.zero_le size⟩

def length (b : FixedBuffer size) : ℕ := b.data.length

def avail (b : FixedBuffer size) : ℕ := size - b.length

def append (b : FixedBuffer size) (str : Bytes) : FixedBuffer size :=
  if h : str.length < b.avail then
    ⟨b.data ++ str, by
      rw [List.length_append]
      unfold avail length at h
      omega⟩
  else b

def reset (_ : FixedBuffer size) : FixedBuffer size := empty

theorem append_data {b : FixedBuffer size} {str : Bytes} (h : str.length < b.avail) :
    (b.append str).data = b.data ++ str := by
  rw [append, dif_pos h]

end FixedBuffer

namespace AsyncLogging

abbrev BufferPtr := Option (FixedBuffer kLargeBuffer)

/-- The members that the mutex guards. -/
structure Shared where
  currentBuffer : BufferPtr
  nextBuffer : BufferPtr
  fullBuffers : List BufferPtr

def append (s : Shared) (data : Bytes) : Option Shared :=
  s.currentBuffer.bind fun current =>
    if data.length < current.avail then
      some { s with currentBuffer := some (current.append data) }
    else
      let fullBuffers := s.fullBuffers ++ [some current]
      match s.nextBuffer with
      | some next => some ⟨some (next.append data), none, fullBuffers⟩
      | none => some ⟨some (FixedBuffer.empty.append data), none, fullBuffers⟩

/-- What the consumer passes to `LogFile::append`: the notice of discarded buffers, or a buffer. -/
inductive Record where
  | notice (text : Bytes)
  | buffer (data : Bytes)

/-- Where the consumer is in its loop. It holds the mutex in none of these places. -/
inductive Pc where
  | asserts
  | lock
  | waiting
  | discard
  | write (i : ℕ)
  | resize
  | refill1
  | refill2
  | clear
  deriving DecidableEq

/-- The local variables of `threadFunc`. -/
structure Writer where
  newBuffer1 : BufferPtr
  newBuffer2 : BufferPtr
  buffersToWrite : List BufferPtr
  logfile : List Record
  pc : Pc

/-- The last two fields are histories: the messages in the order of the mutex, and the batches whose
size the consumer has tested. -/
structure State where
  shared : Shared
  writer : Writer
  appended : List Bytes
  batches : List (List BufferPtr)

def State.init : State where
  shared := ⟨some .empty, some .empty, []⟩
  writer := ⟨some .empty, some .empty, [], [], .asserts⟩
  appended := []
  batches := []

/-- The three asserts at the top of the loop. -/
def Writer.asserts (w : Writer) : Bool :=
  w.newBuffer1.any (fun b => b.length = 0) && w.newBuffer2.any (fun b => b.length = 0) &&
    w.buffersToWrite.isEmpty

/-- The end of the critical section, behind the wait. -/
def collect (s : Shared) (w : Writer) : Shared × Writer :=
  let fullBuffers := s.fullBuffers ++ [s.currentBuffer]
  ({ currentBuffer := w.newBuffer1
     nextBuffer := if s.nextBuffer.isNone then w.newBuffer2 else s.nextBuffer
     fullBuffers := w.buffersToWrite },
   { w with
     newBuffer1 := none
     newBuffer2 := if s.nextBuffer.isNone then none else w.newBuffer2
     buffersToWrite := fullBuffers
     pc := .discard })

/-- Entering the critical section, and coming back to it from the wait. -/
def enter (s : Shared) (w : Writer) : Shared × Writer :=
  if s.fullBuffers.isEmpty then (s, { w with pc := .waiting }) else collect s w

def wake (s : Shared) (w : Writer) : Option (Shared × Writer) :=
  s.currentBuffer.bind fun current =>
    if 0 < current.length then some (collect s w) else some (enter s w)

/-- `now` is the time that `Timestamp::now().toFormattedString()` gives. -/
def notice (now : Bytes) (size : ℕ) : Bytes :=
  cstr (snprintf 128 (ascii "Discard log messages at " ++ now ++ ascii ", " ++
    decimal (size - 2) ++ ascii " larger buffers\n"))

def discard (w : Writer) (now : Bytes) : Writer :=
  if 25 < w.buffersToWrite.length then
    { w with
      logfile := w.logfile ++ [.notice (notice now w.buffersToWrite.length)]
      buffersToWrite := w.buffersToWrite.take 2
      pc := .write 0 }
  else { w with pc := .write 0 }

def write (w : Writer) (i : ℕ) : Option Writer :=
  match w.buffersToWrite[i]? with
  | some p => p.map fun b =>
    { w with logfile := w.logfile ++ [.buffer b.data], pc := .write (i + 1) }
  | none => some { w with pc := .resize }

def resize (w : Writer) : Writer :=
  if 2 < w.buffersToWrite.length then
    { w with buffersToWrite := w.buffersToWrite.take 2, pc := .refill1 }
  else { w with pc := .refill1 }

/-- A null pointer gets the last buffer of the vector. -/
def refill (newBuffer : BufferPtr) (buffers : List BufferPtr) :
    Option (BufferPtr × List BufferPtr) :=
  match newBuffer with
  | some b => some (some b, buffers)
  | none => match buffers.getLast? with
    | some (some b) => some (some b.reset, buffers.dropLast)
    | _ => none

def threadFunc (s : Shared) (w : Writer) (now : Bytes) : Option (Shared × Writer) :=
  match w.pc with
  | .asserts => if w.asserts then some (s, { w with pc := .lock }) else none
  | .lock => some (enter s w)
  | .waiting => wake s w
  | .discard => some (s, discard w now)
  | .write i => (write w i).map fun w' => (s, w')
  | .resize => some (s, resize w)
  | .refill1 => (refill w.newBuffer1 w.buffersToWrite).map fun r =>
    (s, { w with newBuffer1 := r.1, buffersToWrite := r.2, pc := .refill2 })
  | .refill2 => (refill w.newBuffer2 w.buffersToWrite).map fun r =>
    (s, { w with newBuffer2 := r.1, buffersToWrite := r.2, pc := .clear })
  | .clear => some (s, { w with buffersToWrite := [], pc := .asserts })

inductive Event where
  | append (data : Bytes)
  | consume (now : Bytes)

def step (s : State) : Event → Option State
  | .append data => (append s.shared data).map fun shared =>
    { s with shared, appended := s.appended ++ [data] }
  | .consume now => (threadFunc s.shared s.writer now).map fun r =>
    { s with
      shared := r.1
      writer := r.2
      batches := if s.writer.pc = .discard then s.batches ++ [s.writer.buffersToWrite]
        else s.batches }

def bytes (p : BufferPtr) : Bytes := p.elim [] FixedBuffer.data

def contents (buffers : List BufferPtr) : Bytes := buffers.flatMap bytes

@[simp] theorem contents_nil : contents [] = [] := rfl

@[simp] theorem contents_singleton (p : BufferPtr) : contents [p] = bytes p :=
  List.append_nil _

@[simp] theorem contents_append (a b : List BufferPtr) :
    contents (a ++ b) = contents a ++ contents b :=
  List.flatMap_append

def Shared.bytes (s : Shared) : Bytes :=
  contents s.fullBuffers ++ AsyncLogging.bytes s.currentBuffer

def Record.bytes : Record → Bytes
  | .notice _ => []
  | .buffer data => data

def Writer.written (w : Writer) : Bytes := w.logfile.flatMap Record.bytes

def Writer.unwritten (w : Writer) : List BufferPtr :=
  match w.pc with
  | .discard => w.buffersToWrite
  | .write i => w.buffersToWrite.drop i
  | _ => []

def Writer.untested (w : Writer) : List BufferPtr :=
  match w.pc with
  | .discard => w.buffersToWrite
  | _ => []

theorem Writer.idle {w : Writer} (h : w.pc = .asserts ∨ w.pc = .lock ∨ w.pc = .waiting ∨
    w.pc = .refill1 ∨ w.pc = .refill2 ∨ w.pc = .clear) : w.unwritten = [] ∧ w.untested = [] := by
  rw [unwritten, untested]
  rcases h with h | h | h | h | h | h <;> rw [h] <;> exact ⟨rfl, rfl⟩

def kept (batch : List BufferPtr) : List BufferPtr :=
  if 25 < batch.length then batch.take 2 else batch

/-- While the next buffer is missing there is a full buffer, so the next batch has two. -/
structure Shared.Ready (s : Shared) : Prop where
  current : ∃ b, s.currentBuffer = some b
  next : s.nextBuffer = some .empty ∨ s.nextBuffer = none ∧ s.fullBuffers ≠ []
  full : none ∉ s.fullBuffers

/-- The vector has a buffer for each of the two pointers that is null. -/
def Writer.Stocked (w : Writer) : Prop :=
  match w.pc with
  | .asserts | .lock | .waiting =>
    w.newBuffer1 = some .empty ∧ w.newBuffer2 = some .empty ∧ w.buffersToWrite = []
  | .discard | .write _ | .resize | .refill1 =>
    w.newBuffer1 = none ∧ w.buffersToWrite ≠ [] ∧
      (w.newBuffer2 = some .empty ∨ w.newBuffer2 = none ∧ 2 ≤ w.buffersToWrite.length)
  | .refill2 =>
    w.newBuffer1 = some .empty ∧
      (w.newBuffer2 = some .empty ∨ w.newBuffer2 = none ∧ w.buffersToWrite ≠ [])
  | .clear => w.newBuffer1 = some .empty ∧ w.newBuffer2 = some .empty

structure Sound (s : State) : Prop where
  ready : s.shared.Ready
  stocked : s.writer.Stocked
  solid : none ∉ s.writer.buffersToWrite
  collected : s.appended.flatten =
    contents s.batches.flatten ++ contents s.writer.untested ++ s.shared.bytes
  written : s.writer.written ++ contents s.writer.unwritten =
    contents (s.batches.map kept).flatten ++ contents s.writer.untested

theorem sound_init : Sound State.init where
  ready :=
    { current := ⟨.empty, rfl⟩
      next := .inl rfl
      full := List.not_mem_nil }
  stocked := ⟨rfl, rfl, rfl⟩
  solid := List.not_mem_nil
  collected := rfl
  written := rfl

theorem append_spec {s : Shared} (h : s.Ready) {data : Bytes} (hlen : data.length < kLargeBuffer) :
    ∃ t, append s data = some t ∧ t.Ready ∧ t.bytes = s.bytes ++ data := by
  obtain ⟨current, hcurrent⟩ := h.current
  have hempty : (FixedBuffer.empty.append data : FixedBuffer kLargeBuffer).data = data :=
    FixedBuffer.append_data hlen
  by_cases hfits : data.length < current.avail
  · refine ⟨{ s with currentBuffer := some (current.append data) }, ?_, ?_, ?_⟩
    · rw [append, hcurrent, Option.bind_some, if_pos hfits]
    · exact
        { current := ⟨_, rfl⟩
          next := h.next
          full := h.full }
    · change contents s.fullBuffers ++ (current.append data).data = s.bytes ++ data
      rw [FixedBuffer.append_data hfits, Shared.bytes, hcurrent, List.append_assoc]
      rfl
  · refine ⟨⟨some (FixedBuffer.empty.append data), none, s.fullBuffers ++ [some current]⟩,
      ?_, ?_, ?_⟩
    · rw [append, hcurrent, Option.bind_some, if_neg hfits]
      rcases h.next with hnext | ⟨hnext, -⟩
      · rw [hnext]
      · rw [hnext]
    · have hfull := h.full
      exact
        { current := ⟨_, rfl⟩
          next := .inr ⟨rfl, List.append_ne_nil_of_right_ne_nil _ (List.cons_ne_nil _ _)⟩
          full := by simp [hfull] }
    · change contents (s.fullBuffers ++ [some current]) ++
        (FixedBuffer.empty.append data : FixedBuffer kLargeBuffer).data = s.bytes ++ data
      rw [hempty, contents_append, contents_singleton, Shared.bytes, hcurrent]

theorem append_sound {s : State} (h : Sound s) {data : Bytes} (hlen : data.length < kLargeBuffer) :
    ∃ t, step s (.append data) = some t ∧ Sound t := by
  obtain ⟨shared, happend, hready, hbytes⟩ := append_spec h.ready hlen
  refine ⟨{ s with shared, appended := s.appended ++ [data] }, ?_, ?_⟩
  · rw [step, happend, Option.map_some]
  · refine { h with ready := hready, collected := ?_ }
    rw [List.flatten_append, h.collected, hbytes, List.flatten_singleton]
    simp only [List.append_assoc]

/-- A step of the consumer outside the mutex and outside the test of the size. -/
theorem Sound.move {s : State} (h : Sound s) {w : Writer} (stocked : w.Stocked)
    (solid : none ∉ w.buffersToWrite) (untested : w.untested = s.writer.untested)
    (written : w.written ++ contents w.unwritten =
      s.writer.written ++ contents s.writer.unwritten) :
    Sound { s with writer := w } where
  ready := h.ready
  stocked := stocked
  solid := solid
  collected := by rw [untested, h.collected]
  written := by rw [untested, written, h.written]

theorem Sound.advance {s : State} (h : Sound s) {w : Writer} (stocked : w.Stocked)
    (solid : none ∉ w.buffersToWrite) (logfile : w.logfile = s.writer.logfile)
    (before : s.writer.unwritten = [] ∧ s.writer.untested = [])
    (after : w.unwritten = [] ∧ w.untested = []) : Sound { s with writer := w } := by
  apply h.move stocked solid
  · rw [before.2, after.2]
  · rw [before.1, after.1, Writer.written, logfile]
    rfl

/-- The critical section takes the buffers in front as a batch of one buffer at least, and of two
when the next buffer was missing. -/
theorem Sound.collect {s : State} (h : Sound s)
    (hw : s.writer.newBuffer1 = some .empty ∧ s.writer.newBuffer2 = some .empty ∧
      s.writer.buffersToWrite = [])
    (hunwritten : s.writer.unwritten = []) (huntested : s.writer.untested = []) :
    Sound { s with
      shared := (AsyncLogging.collect s.shared s.writer).1
      writer := (AsyncLogging.collect s.shared s.writer).2 } := by
  obtain ⟨h1, h2, hbuffers⟩ := hw
  obtain ⟨current, hcurrent⟩ := h.ready.current
  have hfull := h.ready.full
  have hwritten := h.written
  have hcollected := h.collected
  rw [hunwritten, huntested, contents_nil, List.append_nil, List.append_nil] at hwritten
  rw [huntested, contents_nil, List.append_nil] at hcollected
  constructor
  · refine { current := ⟨.empty, h1⟩, next := .inl ?_, full := ?_ }
    · rcases h.ready.next with hnext | ⟨hnext, -⟩
      · simp only [AsyncLogging.collect, hnext, Option.isNone_some, Bool.false_eq_true, if_false]
      · simp only [AsyncLogging.collect, hnext, Option.isNone_none, if_true, h2]
    · simp only [AsyncLogging.collect, hbuffers, List.not_mem_nil, not_false_eq_true]
  · refine ⟨rfl, List.append_ne_nil_of_right_ne_nil _ (List.cons_ne_nil _ _), ?_⟩
    rcases h.ready.next with hnext | ⟨hnext, hne⟩
    · left
      simp only [AsyncLogging.collect, hnext, Option.isNone_some, Bool.false_eq_true, if_false, h2]
    · right
      have hpos := List.length_pos_of_ne_nil hne
      simp only [AsyncLogging.collect, hnext, Option.isNone_none, if_true, List.length_append,
        List.length_singleton, true_and]
      omega
  · simp [AsyncLogging.collect, hcurrent, hfull]
  · change s.appended.flatten = contents s.batches.flatten ++
      contents (s.shared.fullBuffers ++ [s.shared.currentBuffer]) ++
        (contents s.writer.buffersToWrite ++ bytes s.writer.newBuffer1)
    rw [hcollected, hbuffers, h1, contents_append, contents_singleton]
    simp only [contents_nil, List.nil_append]
    exact (List.append_nil _).symm
  · change s.writer.written ++ _ = _ ++ _
    rw [hwritten]
    rfl

theorem Sound.idle {s : State} (h : Sound s) (hpc : s.writer.pc = .lock ∨ s.writer.pc = .waiting) :
    (s.writer.newBuffer1 = some .empty ∧ s.writer.newBuffer2 = some .empty ∧
      s.writer.buffersToWrite = []) ∧ s.writer.unwritten = [] ∧ s.writer.untested = [] := by
  have hstocked := h.stocked
  rcases hpc with hpc | hpc
  · rw [Writer.Stocked, hpc] at hstocked
    exact ⟨hstocked, Writer.idle (.inr (.inl hpc))⟩
  · rw [Writer.Stocked, hpc] at hstocked
    exact ⟨hstocked, Writer.idle (.inr (.inr (.inl hpc)))⟩

theorem Sound.enter {s : State} (h : Sound s) (hpc : s.writer.pc = .lock ∨ s.writer.pc = .waiting) :
    Sound { s with
      shared := (AsyncLogging.enter s.shared s.writer).1
      writer := (AsyncLogging.enter s.shared s.writer).2 } := by
  obtain ⟨hw, hunwritten, huntested⟩ := h.idle hpc
  unfold AsyncLogging.enter
  split_ifs
  · exact h.advance (w := { s.writer with pc := .waiting }) hw h.solid rfl
      ⟨hunwritten, huntested⟩ ⟨rfl, rfl⟩
  · exact h.collect hw hunwritten huntested

theorem Sound.wake {s : State} (h : Sound s) (hpc : s.writer.pc = .waiting) :
    ∃ r, AsyncLogging.wake s.shared s.writer = some r ∧
      Sound { s with shared := r.1, writer := r.2 } := by
  obtain ⟨current, hcurrent⟩ := h.ready.current
  obtain ⟨hw, hunwritten, huntested⟩ := h.idle (.inr hpc)
  rw [AsyncLogging.wake, hcurrent, Option.bind_some]
  by_cases hlength : 0 < current.length
  · rw [if_pos hlength]
    exact ⟨_, rfl, h.collect hw hunwritten huntested⟩
  · rw [if_neg hlength]
    exact ⟨_, rfl, h.enter (.inr hpc)⟩

theorem discard_spec (w : Writer) (now : Bytes) :
    (discard w now).pc = .write 0 ∧ (discard w now).buffersToWrite = kept w.buffersToWrite ∧
      (discard w now).written = w.written ∧ (discard w now).newBuffer1 = w.newBuffer1 ∧
      (discard w now).newBuffer2 = w.newBuffer2 := by
  rw [discard, kept]
  split_ifs
  · refine ⟨rfl, rfl, ?_, rfl, rfl⟩
    simp only [Writer.written, List.flatMap_append, List.flatMap_cons, List.flatMap_nil,
      Record.bytes, List.append_nil]
  · exact ⟨rfl, rfl, rfl, rfl, rfl⟩

theorem Sound.discard {s : State} (h : Sound s) (hpc : s.writer.pc = .discard) (now : Bytes) :
    Sound { s with
      writer := AsyncLogging.discard s.writer now
      batches := s.batches ++ [s.writer.buffersToWrite] } := by
  obtain ⟨h1, hne, h2⟩ : s.writer.newBuffer1 = none ∧ s.writer.buffersToWrite ≠ [] ∧
      (s.writer.newBuffer2 = some .empty ∨
        s.writer.newBuffer2 = none ∧ 2 ≤ s.writer.buffersToWrite.length) := by
    have hstocked := h.stocked
    rwa [Writer.Stocked, hpc] at hstocked
  have huntested : s.writer.untested = s.writer.buffersToWrite := by
    rw [Writer.untested, hpc]
  have hunwritten : s.writer.unwritten = s.writer.buffersToWrite := by
    rw [Writer.unwritten, hpc]
  have hcollected := h.collected
  have hwritten := h.written
  rw [huntested] at hcollected hwritten
  rw [hunwritten] at hwritten
  obtain ⟨hwrite, hkept, hsame, hnew1, hnew2⟩ := discard_spec s.writer now
  rw [h1] at hnew1
  have hlong : min 2 s.writer.buffersToWrite.length ≤ (kept s.writer.buffersToWrite).length := by
    unfold kept
    split_ifs
    · rw [List.length_take]
    · exact Nat.min_le_right _ _
  have hpos := List.length_pos_of_ne_nil hne
  constructor
  · exact h.ready
  · simp only [Writer.Stocked, hwrite, hnew1, hnew2, hkept, true_and]
    constructor
    · apply List.ne_nil_of_length_pos
      omega
    · rcases h2 with h2 | ⟨h2, htwo⟩
      · exact .inl h2
      · right
        exact ⟨h2, by omega⟩
  · rw [hkept]
    intro hmem
    apply h.solid
    unfold kept at hmem
    split_ifs at hmem
    · exact List.mem_of_mem_take hmem
    · exact hmem
  · simp only [Writer.untested, hwrite, contents_nil, List.append_nil, List.flatten_append,
      List.flatten_singleton, contents_append]
    exact hcollected
  · simp only [Writer.unwritten, Writer.untested, hwrite, hsame, hkept, List.drop_zero,
      contents_nil,
      List.append_nil, List.map_append, List.map_cons, List.map_nil, List.flatten_append,
      List.flatten_singleton, contents_append]
    rw [List.append_cancel_right hwritten]

theorem Sound.write {s : State} (h : Sound s) {i : ℕ} (hpc : s.writer.pc = .write i) :
    ∃ w, AsyncLogging.write s.writer i = some w ∧ Sound { s with writer := w } := by
  have hstocked := h.stocked
  rw [Writer.Stocked, hpc] at hstocked
  have huntested : s.writer.untested = [] := by
    rw [Writer.untested, hpc]
  have hunwritten : s.writer.unwritten = s.writer.buffersToWrite.drop i := by
    rw [Writer.unwritten, hpc]
  unfold AsyncLogging.write
  by_cases hi : i < s.writer.buffersToWrite.length
  · rw [List.getElem?_eq_getElem hi]
    cases hp : s.writer.buffersToWrite[i] with
    | none => exact absurd (hp ▸ List.getElem_mem hi) h.solid
    | some b =>
      refine ⟨_, rfl, h.move hstocked h.solid huntested.symm ?_⟩
      rw [hunwritten, List.drop_eq_getElem_cons hi, hp]
      simp only [Writer.written, Writer.unwritten, List.flatMap_append, List.flatMap_cons,
        List.flatMap_nil, Record.bytes, List.append_nil, List.append_assoc, contents, bytes,
        Option.elim_some]
  · rw [List.getElem?_eq_none (by omega)]
    refine ⟨_, rfl, h.move hstocked h.solid huntested.symm ?_⟩
    rw [hunwritten, List.drop_eq_nil_of_le (by omega)]
    rfl

theorem Sound.resize {s : State} (h : Sound s) (hpc : s.writer.pc = .resize) :
    Sound { s with writer := AsyncLogging.resize s.writer } := by
  have hstocked := h.stocked
  rw [Writer.Stocked, hpc] at hstocked
  have huntested : s.writer.untested = [] := by
    rw [Writer.untested, hpc]
  have hunwritten : s.writer.unwritten = [] := by
    rw [Writer.unwritten, hpc]
  unfold AsyncLogging.resize
  split_ifs with hlong
  · refine h.advance (w := { s.writer with buffersToWrite := s.writer.buffersToWrite.take 2
                                           pc := .refill1 })
      ?_ ?_ rfl ⟨hunwritten, huntested⟩ ⟨rfl, rfl⟩
    · obtain ⟨h1, -, h2⟩ := hstocked
      refine ⟨h1, ?_, ?_⟩
      · apply List.ne_nil_of_length_pos
        rw [List.length_take]
        omega
      · rcases h2 with h2 | ⟨h2, -⟩
        · exact .inl h2
        · right
          refine ⟨h2, ?_⟩
          rw [List.length_take]
          omega
    · intro hmem
      exact h.solid (List.mem_of_mem_take hmem)
  · exact h.advance (w := { s.writer with pc := .refill1 }) hstocked h.solid rfl
      ⟨hunwritten, huntested⟩ ⟨rfl, rfl⟩

theorem refill_spec {newBuffer : BufferPtr} {buffers : List BufferPtr} (hsolid : none ∉ buffers)
    (h : newBuffer = some .empty ∨ newBuffer = none ∧ buffers ≠ []) :
    ∃ rest, refill newBuffer buffers = some (some .empty, rest) ∧ none ∉ rest ∧
      (newBuffer = none → buffers.length = rest.length + 1) := by
  rcases h with rfl | ⟨rfl, hne⟩
  · exact ⟨buffers, rfl, hsolid, fun hf => nomatch hf⟩
  · cases hlast : buffers.getLast hne with
    | none => exact absurd (hlast ▸ List.getLast_mem hne) hsolid
    | some b =>
      refine ⟨buffers.dropLast, ?_, ?_, ?_⟩
      · rw [refill, List.getLast?_eq_some_getLast hne, hlast]
        rfl
      · intro hmem
        exact hsolid (List.mem_of_mem_dropLast hmem)
      · intro _
        have hpos := List.length_pos_of_ne_nil hne
        rw [List.length_dropLast]
        omega

/-- The consumer's next statement never fails, and keeps the invariant. -/
theorem consume_sound {s : State} (h : Sound s) (now : Bytes) :
    ∃ t, step s (.consume now) = some t ∧ Sound t := by
  have hstocked := h.stocked
  cases hpc : s.writer.pc with
  | asserts =>
    rw [Writer.Stocked, hpc] at hstocked
    have hasserts : s.writer.asserts = true := by
      obtain ⟨h1, h2, hbuffers⟩ := hstocked
      rw [Writer.asserts, h1, h2, hbuffers]
      rfl
    have hidle := Writer.idle (.inl hpc)
    refine ⟨_, ?_, h.advance (w := { s.writer with pc := .lock }) hstocked h.solid rfl hidle
      ⟨rfl, rfl⟩⟩
    simp only [step, threadFunc, hpc, hasserts, if_true, Option.map_some, reduceCtorEq, if_false]
  | lock =>
    refine ⟨_, ?_, h.enter (.inl hpc)⟩
    simp only [step, threadFunc, hpc, Option.map_some, reduceCtorEq, if_false]
  | waiting =>
    obtain ⟨r, hwake, hsound⟩ := h.wake hpc
    refine ⟨_, ?_, hsound⟩
    simp only [step, threadFunc, hpc, hwake, Option.map_some, reduceCtorEq, if_false]
  | discard =>
    refine ⟨_, ?_, h.discard hpc now⟩
    simp only [step, threadFunc, hpc, Option.map_some, if_true]
  | write i =>
    obtain ⟨w, hwrite, hsound⟩ := h.write hpc
    refine ⟨_, ?_, hsound⟩
    simp only [step, threadFunc, hpc, hwrite, Option.map_some, reduceCtorEq, if_false]
  | resize =>
    refine ⟨_, ?_, h.resize hpc⟩
    simp only [step, threadFunc, hpc, Option.map_some, reduceCtorEq, if_false]
  | refill1 =>
    rw [Writer.Stocked, hpc] at hstocked
    obtain ⟨h1, hne, h2⟩ := hstocked
    obtain ⟨rest, hrefill, hsolid, hrest⟩ := refill_spec h.solid (.inr ⟨h1, hne⟩)
    have hlen := hrest h1
    have hidle := Writer.idle (.inr (.inr (.inr (.inl hpc))))
    have hstocked' : s.writer.newBuffer2 = some .empty ∨
        s.writer.newBuffer2 = none ∧ rest ≠ [] := by
      rcases h2 with h2 | ⟨h2, htwo⟩
      · exact .inl h2
      · right
        refine ⟨h2, ?_⟩
        apply List.ne_nil_of_length_pos
        omega
    refine ⟨_, ?_, h.advance (w := { s.writer with
      newBuffer1 := some .empty, buffersToWrite := rest, pc := .refill2 })
      ⟨rfl, hstocked'⟩ hsolid rfl hidle ⟨rfl, rfl⟩⟩
    simp only [step, threadFunc, hpc, hrefill, Option.map_some, reduceCtorEq, if_false]
  | refill2 =>
    rw [Writer.Stocked, hpc] at hstocked
    obtain ⟨h1, h2⟩ := hstocked
    obtain ⟨rest, hrefill, hsolid, -⟩ := refill_spec h.solid h2
    have hidle := Writer.idle (.inr (.inr (.inr (.inr (.inl hpc)))))
    refine ⟨_, ?_, h.advance (w := { s.writer with
      newBuffer2 := some .empty, buffersToWrite := rest, pc := .clear })
      ⟨h1, rfl⟩ hsolid rfl hidle ⟨rfl, rfl⟩⟩
    simp only [step, threadFunc, hpc, hrefill, Option.map_some, reduceCtorEq, if_false]
  | clear =>
    rw [Writer.Stocked, hpc] at hstocked
    have hidle := Writer.idle (.inr (.inr (.inr (.inr (.inr hpc)))))
    refine ⟨_, ?_, h.advance (w := { s.writer with buffersToWrite := [], pc := .asserts })
      ⟨hstocked.1, hstocked.2, rfl⟩ List.not_mem_nil rfl hidle ⟨rfl, rfl⟩⟩
    simp only [step, threadFunc, hpc, Option.map_some, reduceCtorEq, if_false]

/-- An appended message is shorter than a buffer. -/
def Event.Fits : Event → Prop
  | .append data => data.length < kLargeBuffer
  | .consume _ => True

theorem run_sound {events : List Event} (hfits : ∀ e ∈ events, e.Fits) :
    ∃ s, runFrom step State.init events = some s ∧ Sound s := by
  apply runFrom_progress (P := fun _ e => e.Fits) _ sound_init (along_of_forall hfits)
  intro s e h he
  cases e with
  | append data => exact append_sound h he
  | consume now => exact consume_sound h now

/-- No run of producers and consumer fails. In the state it reaches there is a current buffer, the
asserts at the top hold and no pointer is refilled from an empty vector; and the messages in the log
file and in the buffers are the appended ones, but for the batches of more than 25 buffers, of which
only the first two are kept. -/
theorem messages_kept {events : List Event} (hfits : ∀ e ∈ events, e.Fits) :
    ∃ s, runFrom step State.init events = some s ∧
      s.shared.currentBuffer.isSome ∧
      (s.writer.pc = .asserts → s.writer.asserts = true) ∧
      (s.writer.pc = .refill1 → s.writer.newBuffer1 = none → s.writer.buffersToWrite ≠ []) ∧
      (s.writer.pc = .refill2 → s.writer.newBuffer2 = none → s.writer.buffersToWrite ≠ []) ∧
      ∃ later,
        s.appended.flatten = contents s.batches.flatten ++ later ∧
        s.writer.written ++ contents s.writer.unwritten ++ contents s.shared.fullBuffers ++
          bytes s.shared.currentBuffer = contents (s.batches.map kept).flatten ++ later := by
  obtain ⟨s, hrun, h⟩ := run_sound hfits
  have hstocked := h.stocked
  refine ⟨s, hrun, ?_, ?_, ?_, ?_, contents s.writer.untested ++ s.shared.bytes, ?_, ?_⟩
  · obtain ⟨current, hcurrent⟩ := h.ready.current
    rw [hcurrent]
    rfl
  · intro hpc
    rw [Writer.Stocked, hpc] at hstocked
    obtain ⟨h1, h2, hbuffers⟩ := hstocked
    rw [Writer.asserts, h1, h2, hbuffers]
    rfl
  · intro hpc _
    rw [Writer.Stocked, hpc] at hstocked
    exact hstocked.2.1
  · intro hpc hnone
    rw [Writer.Stocked, hpc] at hstocked
    rcases hstocked.2 with h2 | ⟨-, hne⟩
    · rw [hnone] at h2
      cases h2
    · exact hne
  · rw [h.collected, List.append_assoc]
  · rw [h.written, Shared.bytes]
    simp only [List.append_assoc]

/-- The consumer wakes up, and a second message arrives before it has written the first one. -/
def sampleRun : List Event :=
  [.append [97, 98], .consume [], .consume [], .consume [], .append [99], .consume [], .consume []]

theorem sampleRun_messages_kept :
    ∃ s, runFrom step State.init sampleRun = some s ∧ s.writer.written = [97, 98] ∧
      bytes s.shared.currentBuffer = [99] ∧
      ∃ later,
        s.appended.flatten = contents s.batches.flatten ++ later ∧
        s.writer.written ++ contents s.writer.unwritten ++ contents s.shared.fullBuffers ++
          bytes s.shared.currentBuffer = contents (s.batches.map kept).flatten ++ later := by
  have hfits : ∀ e ∈ sampleRun, e.Fits := by
    simp [sampleRun, Event.Fits, kLargeBuffer]
  have hbytes : (runFrom step State.init sampleRun).map
      (fun s => (s.writer.written, bytes s.shared.currentBuffer)) = some ([97, 98], [99]) := by
    decide +kernel
  obtain ⟨s, hrun, -, -, -, -, hstreams⟩ := messages_kept hfits
  rw [hrun, Option.map_some, Option.some.injEq, Prod.mk.injEq] at hbytes
  exact ⟨s, hrun, hbytes.1, hbytes.2, hstreams⟩

end AsyncLogging

end Matelib
