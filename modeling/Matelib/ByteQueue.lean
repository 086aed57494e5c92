import Matelib.Buffer
import Matelib.Transition

/-!
# Buffer programs refine byte queues

A program is a list of operations on named `Buffer` objects. It runs on the faithful buffers and on
abstract byte queues, where a queue is just the list of its bytes. Pointer arguments are given as
offsets from `peek()`. Whenever the asserted preconditions hold along the program, no internal
assertion fires, every index invariant holds, and both runs show the same bytes and outputs.
-/

namespace Matelib.ByteQueue

open Buffer Segment Transition

inductive Op where
  | construct (x : ℕ)
  | constructFrom (x : ℕ) (data : Bytes)
  | copy (x y : ℕ)
  | move (x y : ℕ)
  | swap (x y : ℕ)
  | append (x : ℕ) (data : Bytes)
  | retrieve (x n : ℕ)
  | retrieveUntil (x n : ℕ)
  | retrieveAsString (x n : ℕ)
  | retrieveAll (x : ℕ)
  | erase (x start len : ℕ)
  | clear (x : ℕ)
  | readFd (x : ℕ) (r : ReadvResult)
  deriving DecidableEq, Repr

inductive Output where
  | string (s : Bytes)
  | count (n : ℤ) (savedErrno : Option ℕ)
  deriving DecidableEq, Repr

/-- Named objects of type `β`, and what the program has been given back so far. -/
structure State (β : Type) where
  bufs : ℕ → Option β
  out : List Output

namespace State

variable {β γ : Type}

def init : State β := ⟨fun _ => none, []⟩

def set (s : State β) (x : ℕ) (b : β) : State β :=
  { s with bufs := Function.update s.bufs x (some b) }

def emit (s : State β) (o : Output) : State β := { s with out := s.out ++ [o] }

def map (f : β → γ) (s : State β) : State γ := ⟨fun x => (s.bufs x).map f, s.out⟩

@[simp] theorem map_set (f : β → γ) (s : State β) (x : ℕ) (b : β) :
    (s.set x b).map f = (s.map f).set x (f b) := by
  simp only [map, set, State.mk.injEq, and_true]
  funext y
  by_cases h : y = x <;> simp [h]

end State

def step (s : State Buffer) : Op → Option (State Buffer)
  | .construct x => some (s.set x empty)
  | .constructFrom x data => (ofData data).map (s.set x)
  | .copy x y => (s.bufs y).bind fun b => (Buffer.copy b).map (s.set x)
  | .move x y => (s.bufs y).map fun b => (s.set y (Buffer.move b).2).set x (Buffer.move b).1
  | .swap x y => (s.bufs x).bind fun a => (s.bufs y).map fun b =>
      (s.set x (Buffer.swap a b).1).set y (Buffer.swap a b).2
  | .append x data => (s.bufs x).bind fun b => (b.append data).map (s.set x)
  | .retrieve x n => (s.bufs x).bind fun b => (b.retrieve n).map (s.set x)
  | .retrieveUntil x n => (s.bufs x).bind fun b => (b.retrieveUntil (b.readIndex + n)).map (s.set x)
  | .retrieveAsString x n => (s.bufs x).bind fun b =>
      (b.retrieveAsString n).map fun r => (s.set x r.2).emit (.string r.1)
  | .retrieveAll x => (s.bufs x).map fun b => s.set x b.retrieveAll
  | .erase x start len => (s.bufs x).bind fun b => (b.erase (b.readIndex + start) len).map (s.set x)
  | .clear x => (s.bufs x).map fun b => s.set x b.clear
  | .readFd x r => (s.bufs x).bind fun b =>
      (b.readFd r).map fun p => (s.set x p.2).emit (.count p.1.1 p.1.2)

/-- The same operation on byte queues, the abstract meaning of a buffer. -/
def queueStep (s : State Bytes) : Op → Option (State Bytes)
  | .construct x => some (s.set x [])
  | .constructFrom x data => some (s.set x data)
  | .copy x y => (s.bufs y).map (s.set x)
  | .move x y => (s.bufs y).map fun q => (s.set y []).set x q
  | .swap x y => (s.bufs x).bind fun p => (s.bufs y).map fun q => (s.set x q).set y p
  | .append x data => (s.bufs x).map fun q => s.set x (q ++ data)
  | .retrieve x n => (s.bufs x).map fun q => s.set x (q.drop n)
  | .retrieveUntil x n => (s.bufs x).map fun q => s.set x (q.drop n)
  | .retrieveAsString x n => (s.bufs x).map fun q => (s.set x (q.drop n)).emit (.string (q.take n))
  | .retrieveAll x => (s.bufs x).map fun _ => s.set x []
  | .erase x start len => (s.bufs x).map fun q => s.set x (eraseRange q start (start + len))
  | .clear x => (s.bufs x).map fun _ => s.set x []
  | .readFd x r => (s.bufs x).map fun q =>
      (s.set x (q ++ r.bytes)).emit (.count r.report.1 r.report.2)

/-- The preconditions that the source asserts: the objects exist, no more is taken than is
readable, an erased range is readable, and `readv` fills at most its two blocks. -/
def asserted (s : State Buffer) : Op → Bool
  | .construct _ | .constructFrom _ _ => true
  | .copy _ y => (s.bufs y).isSome
  | .move x y => x ≠ y && (s.bufs y).isSome
  | .swap x y => (s.bufs x).isSome && (s.bufs y).isSome
  | .append x _ | .retrieveAll x | .clear x => (s.bufs x).isSome
  | .retrieve x n | .retrieveUntil x n | .retrieveAsString x n =>
      (s.bufs x).any fun b => n ≤ b.readableBytes
  | .erase x start len => (s.bufs x).any fun b => start + len ≤ b.readableBytes
  | .readFd x r => (s.bufs x).any fun b => r.bytes.length ≤ b.writeableBytes + kExtraSize

def AllValid (s : State Buffer) : Prop := ∀ x b, s.bufs x = some b → b.Valid

def view (s : State Buffer) : State Bytes := s.map readable

theorem bufs_view {s : State Buffer} {x : ℕ} {b : Buffer} (h : s.bufs x = some b) :
    (view s).bufs x = some b.readable := by
  simp only [view, State.map, h, Option.map_some]

theorem allValid_init : AllValid State.init := fun _ _ h => by cases h

theorem allValid_set {s : State Buffer} (h : AllValid s) (x : ℕ) {b : Buffer} (hb : b.Valid) :
    AllValid (s.set x b) := by
  intro y c hy
  by_cases hxy : y = x
  · subst hxy
    simp only [State.set, Function.update_self, Option.some.injEq] at hy
    exact hy ▸ hb
  · simp only [State.set, Function.update_of_ne hxy] at hy
    exact h y c hy

theorem set_spec {s : State Buffer} (h : AllValid s) (x : ℕ) {b' : Buffer} {q : Bytes}
    (hv : b'.Valid) (hr : b'.readable = q) :
    AllValid (s.set x b') ∧ view (s.set x b') = (view s).set x q :=
  ⟨allValid_set h x hv, by rw [view, State.map_set, hr]; rfl⟩

/-- The shape shared by the operations that change one buffer: when `f` succeeds on it and leaves
the bytes `q`, the program's step succeeds and the queue of that object becomes `q`. -/
theorem mutate_spec {s : State Buffer} (h : AllValid s) {x : ℕ} {b : Buffer}
    (hx : s.bufs x = some b) (f : Buffer → Option Buffer) {q : Bytes}
    (hf : ∃ c, f b = some c ∧ c.Valid ∧ c.readable = q) :
    ∃ t, ((s.bufs x).bind fun b => (f b).map (s.set x)) = some t ∧ AllValid t ∧
      view t = (view s).set x q := by
  obtain ⟨c, hc, hcv, hcr⟩ := hf
  obtain ⟨hv, hq⟩ := set_spec h x hcv hcr
  exact ⟨_, by rw [hx, Option.bind_some, hc, Option.map_some], hv, hq⟩

theorem offset_le_writeIndex {b : Buffer} (h : b.Valid) {n : ℕ} (hn : n ≤ b.readableBytes) :
    b.readIndex + n ≤ b.writeIndex := by
  have := h.read_le_write
  unfold readableBytes at hn
  omega

/-- An asserted operation succeeds, keeps every index invariant and acts as on the queues. -/
theorem step_spec (s : State Buffer) (op : Op) (h : AllValid s) (hpre : asserted s op = true) :
    ∃ t, step s op = some t ∧ AllValid t ∧ queueStep (view s) op = some (view t) := by
  cases op with
  | construct x =>
    obtain ⟨hv, hq⟩ := set_spec h x empty_valid readable_empty
    exact ⟨_, rfl, hv, by rw [hq]; rfl⟩
  | constructFrom x data =>
    obtain ⟨b, hb, hbv, hbr⟩ := ofData_spec data
    obtain ⟨hv, hq⟩ := set_spec h x hbv hbr
    exact ⟨_, by rw [step, hb, Option.map_some], hv, by rw [hq]; rfl⟩
  | copy x y =>
    obtain ⟨b, hy⟩ := Option.isSome_iff_exists.mp hpre
    obtain ⟨c, hc, hcv, hcr⟩ := copy_spec b
    obtain ⟨hv, hq⟩ := set_spec h x hcv hcr
    refine ⟨_, by rw [step, hy, Option.bind_some, hc, Option.map_some], hv, ?_⟩
    rw [queueStep, bufs_view hy, Option.map_some, hq]
  | move x y =>
    simp only [asserted, Bool.and_eq_true] at hpre
    obtain ⟨b, hy⟩ := Option.isSome_iff_exists.mp hpre.2
    obtain ⟨hv, hq⟩ := set_spec h y empty_valid readable_empty
    obtain ⟨hv', hq'⟩ := set_spec hv x (h y b hy) rfl
    refine ⟨_, by rw [step, hy, Option.map_some]; rfl, hv', ?_⟩
    rw [queueStep, bufs_view hy, Option.map_some, hq', hq]
  | swap x y =>
    simp only [asserted, Bool.and_eq_true] at hpre
    obtain ⟨a, hx⟩ := Option.isSome_iff_exists.mp hpre.1
    obtain ⟨b, hy⟩ := Option.isSome_iff_exists.mp hpre.2
    obtain ⟨hv, hq⟩ := set_spec h x (h y b hy) rfl
    obtain ⟨hv', hq'⟩ := set_spec hv y (h x a hx) rfl
    refine ⟨_, by rw [step, hx, Option.bind_some, hy, Option.map_some]; rfl, hv', ?_⟩
    rw [queueStep, bufs_view hx, Option.bind_some, bufs_view hy, Option.map_some, hq', hq]
  | append x data =>
    obtain ⟨b, hx⟩ := Option.isSome_iff_exists.mp hpre
    obtain ⟨t, ht, hv, hq⟩ := mutate_spec h hx (·.append data) (append_spec (h x b hx) data)
    exact ⟨t, ht, hv, by rw [queueStep, bufs_view hx, Option.map_some, hq]⟩
  | retrieve x n =>
    obtain ⟨b, hx, hn⟩ := (Option.any_eq_true _ _).mp hpre
    obtain ⟨t, ht, hv, hq⟩ := mutate_spec h hx (·.retrieve n)
      (retrieve_spec (h x b hx) (of_decide_eq_true hn))
    exact ⟨t, ht, hv, by rw [queueStep, bufs_view hx, Option.map_some, hq]⟩
  | retrieveUntil x n =>
    obtain ⟨b, hx, hn⟩ := (Option.any_eq_true _ _).mp hpre
    have hspec := retrieveUntil_spec (h x b hx) (Nat.le_add_right _ n)
      (offset_le_writeIndex (h x b hx) (of_decide_eq_true hn))
    rw [Nat.add_sub_cancel_left] at hspec
    obtain ⟨t, ht, hv, hq⟩ := mutate_spec h hx (fun b => b.retrieveUntil (b.readIndex + n)) hspec
    exact ⟨t, ht, hv, by rw [queueStep, bufs_view hx, Option.map_some, hq]⟩
  | retrieveAsString x n =>
    obtain ⟨b, hx, hn⟩ := (Option.any_eq_true _ _).mp hpre
    obtain ⟨c, hc, hcv, hcr⟩ := retrieveAsString_spec (h x b hx) (of_decide_eq_true hn)
    obtain ⟨hv, hq⟩ := set_spec h x hcv hcr
    refine ⟨(s.set x c).emit (.string (b.readable.take n)), ?_, hv, ?_⟩
    · rw [step, hx, Option.bind_some, hc, Option.map_some]
    · rw [queueStep, bufs_view hx, Option.map_some, ← hq]
      rfl
  | retrieveAll x =>
    obtain ⟨b, hx⟩ := Option.isSome_iff_exists.mp hpre
    obtain ⟨hv, hq⟩ := set_spec h x (retrieveAll_valid (h x b hx)) (readable_retrieveAll b)
    refine ⟨_, by rw [step, hx, Option.map_some], hv, ?_⟩
    rw [queueStep, bufs_view hx, Option.map_some, hq]
  | erase x start len =>
    obtain ⟨b, hx, hn⟩ := (Option.any_eq_true _ _).mp hpre
    have hstop := offset_le_writeIndex (h x b hx) (of_decide_eq_true hn)
    rw [← Nat.add_assoc] at hstop
    have hspec := erase_spec (h x b hx) (Nat.le_add_right _ start) hstop
    rw [Nat.add_sub_cancel_left] at hspec
    obtain ⟨t, ht, hv, hq⟩ := mutate_spec h hx (fun b => b.erase (b.readIndex + start) len) hspec
    exact ⟨t, ht, hv, by rw [queueStep, bufs_view hx, Option.map_some, hq]⟩
  | clear x =>
    obtain ⟨b, hx⟩ := Option.isSome_iff_exists.mp hpre
    obtain ⟨hcv, hcr⟩ := clear_spec (h x b hx)
    obtain ⟨hv, hq⟩ := set_spec h x hcv hcr
    refine ⟨_, by rw [step, hx, Option.map_some], hv, ?_⟩
    rw [queueStep, bufs_view hx, Option.map_some, hq]
  | readFd x r =>
    obtain ⟨b, hx, _⟩ := (Option.any_eq_true _ _).mp hpre
    obtain ⟨c, hc, hcv, hcr⟩ := readFd_spec (h x b hx) r
    obtain ⟨hv, hq⟩ := set_spec h x hcv hcr
    refine ⟨(s.set x c).emit (.count r.report.1 r.report.2), ?_, hv, ?_⟩
    · rw [step, hx, Option.bind_some, hc, Option.map_some]
    · rw [queueStep, bufs_view hx, Option.map_some, ← hq]
      rfl

/-- Every program whose asserted preconditions hold runs to its end. In the state it reaches, and
so after each of its prefixes, the indices of every buffer are ordered and inside the vector, any
`ensureWritableBytes` succeeds without touching the readable bytes, its sums fit into a `size_t`,
and the readable bytes and the outputs are those of the run on byte queues. -/
theorem run_refines_queues (ops : List Op)
    (h : Along step (fun s op => asserted s op = true) .init ops) :
    ∃ s, runFrom step .init ops = some s ∧
      (∀ x b, s.bufs x = some b →
        kCheapPrepend ≤ b.readIndex ∧ b.readIndex ≤ b.writeIndex ∧ b.writeIndex ≤ b.buffer.length ∧
        (∀ len, ∃ b', b.ensureWritableBytes len = some b' ∧ len ≤ b'.writeableBytes ∧
          b'.readable = b.readable) ∧
        (b.buffer.length < 2 ^ 63 → ∀ len < 2 ^ 63,
          b.writeableBytes + b.prependableBytes < 2 ^ 64 ∧ len + kCheapPrepend < 2 ^ 64 ∧
            b.writeIndex + len < 2 ^ 64)) ∧
      runFrom queueStep .init ops = some (view s) := by
  obtain ⟨s, hs, hv, hq⟩ := runFrom_refines (fun s op hI hP => step_spec s op hI hP)
    allValid_init h
  refine ⟨s, hs, ?_, hq⟩
  intro x b hx
  have hb := hv x b hx
  refine ⟨hb.prepend_le_read, hb.read_le_write, hb.write_le_size, fun len => ?_,
    fun hsize len hlen => ensureWritableBytes_no_wrap hb hsize hlen⟩
  obtain ⟨b', hb', _, hroom, hr⟩ := ensureWritableBytes_spec hb len
  exact ⟨b', hb', hroom, hr⟩

/-- A program that grows, compacts, drains and erases: the compaction runs when 1020 readable bytes
are followed by an append that fits only after moving them to the front. -/
def sampleProgram : List Op :=
  [.construct 0, .append 0 (List.replicate 1020 1), .retrieve 0 1000, .append 0 [2, 3, 4, 5, 6],
    .copy 1 0, .erase 1 3 4, .readFd 0 (.got (List.replicate 1100 7)), .swap 0 1,
    .retrieveAsString 0 5, .move 2 1, .clear 2]

theorem sampleProgram_refines :
    Along step (fun s op => asserted s op = true) .init sampleProgram ∧
    ∃ s, runFrom step .init sampleProgram = some s ∧
      (∀ x b, s.bufs x = some b →
        kCheapPrepend ≤ b.readIndex ∧ b.readIndex ≤ b.writeIndex ∧ b.writeIndex ≤ b.buffer.length ∧
        (∀ len, ∃ b', b.ensureWritableBytes len = some b' ∧ len ≤ b'.writeableBytes ∧
          b'.readable = b.readable) ∧
        (b.buffer.length < 2 ^ 63 → ∀ len < 2 ^ 63,
          b.writeableBytes + b.prependableBytes < 2 ^ 64 ∧ len + kCheapPrepend < 2 ^ 64 ∧
            b.writeIndex + len < 2 ^ 64)) ∧
      runFrom queueStep .init sampleProgram = some (view s) := by
  have h : Along step (fun s op => asserted s op = true) .init sampleProgram := by decide +kernel
  exact ⟨h, run_refines_queues sampleProgram h⟩

end Matelib.ByteQueue
