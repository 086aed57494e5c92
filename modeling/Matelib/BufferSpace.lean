import Matelib.ByteQueue

/-!
# The space that buffers take

`retrieve` only moves the read index and no operation gives memory back, but `append` moves the
readable bytes to the front before it lets the vector grow. So a vector stays within twice the most
that a buffer has held at once, however much has gone through it.
-/

namespace Matelib.ByteQueue

open Buffer Segment Transition

def Each (Q : Buffer → Prop) (s : State Buffer) : Prop := ∀ x b, s.bufs x = some b → Q b

def HoldsUpTo (peak : ℕ) : State Buffer → Prop := Each fun b => b.readableBytes ≤ peak

/-- The vector is one that has held at most `peak` bytes. -/
def Within (peak : ℕ) (b : Buffer) : Prop :=
  b.buffer.length ≤ kCheapPrepend + kInitialSize + 2 * peak

theorem each_set {Q : Buffer → Prop} {s : State Buffer} (h : Each Q s) (x : ℕ) {b : Buffer}
    (hb : Q b) : Each Q (s.set x b) := by
  intro y c hy
  by_cases hxy : y = x
  · subst hxy
    simp only [State.set, Function.update_self, Option.some.injEq] at hy
    exact hy ▸ hb
  · simp only [State.set, Function.update_of_ne hxy] at hy
    exact h y c hy

theorem bufs_set (s : State Buffer) (x : ℕ) (b : Buffer) : (s.set x b).bufs x = some b :=
  Function.update_self ..

theorem readableBytes_append {b b' : Buffer} (hb : b.Valid) {data : Bytes}
    (happend : b.append data = some b') : b'.readableBytes = b.readableBytes + data.length := by
  obtain ⟨c, hc, hv, hr⟩ := append_spec hb data
  cases happend.symm.trans hc
  rw [← length_readable hv, hr, List.length_append, length_readable hb]

/-- The vector grows only when the bytes that it is to hold do not fit, even at its front. -/
theorem length_ensureWritableBytes_le {b b' : Buffer} (hb : b.Valid) {len : ℕ}
    (hensure : b.ensureWritableBytes len = some b') :
    b'.buffer.length ≤ max b.buffer.length (2 * (b.readableBytes + len) + kCheapPrepend) := by
  have hcount := length_readable hb
  obtain ⟨hp, hr, hw⟩ := hb
  rw [ensureWritableBytes] at hensure
  by_cases hlen : b.writeableBytes < len
  · rw [if_pos hlen] at hensure
    by_cases hgrow : b.writeableBytes + b.prependableBytes < len + kCheapPrepend
    · rw [if_pos hgrow, Option.some.injEq] at hensure
      rw [← hensure, length_resize]
      unfold writeableBytes prependableBytes readableBytes at *
      omega
    · -- the readable bytes move to the front
      rw [if_neg hgrow] at hensure
      obtain ⟨-, hmoved⟩ := Option.ite_none_right_eq_some.mp hensure
      obtain ⟨-, hmoved⟩ := Option.ite_none_right_eq_some.mp hmoved
      cases hmoved
      have hfront : kCheapPrepend + b.readable.length ≤ b.buffer.length := by
        rw [hcount, readableBytes]
        omega
      simp only [length_overwrite hfront]
      exact Nat.le_max_left ..
  · rw [if_neg hlen, Option.some.injEq] at hensure
    rw [← hensure]
    exact Nat.le_max_left ..

theorem length_append_le {b b' : Buffer} (hb : b.Valid) {data : Bytes}
    (happend : b.append data = some b') :
    b'.buffer.length ≤ max b.buffer.length (2 * b'.readableBytes + kCheapPrepend) := by
  rw [readableBytes_append hb happend]
  obtain ⟨b₁, hensure, rfl⟩ := Option.map_eq_some_iff.mp happend
  obtain ⟨b₂, hb₂, hv, hroom, -⟩ := ensureWritableBytes_spec hb data.length
  cases hensure.symm.trans hb₂
  have hfit : b₁.writeIndex + data.length ≤ b₁.buffer.length := by
    have := hv.write_le_size
    unfold writeableBytes at hroom
    omega
  change (overwrite b₁.buffer b₁.writeIndex data).length ≤ _
  rw [length_overwrite hfit]
  exact length_ensureWritableBytes_le hb hensure

theorem Within.append {peak : ℕ} {b b' : Buffer} (h : Within peak b) (hb : b.Valid) {data : Bytes}
    (happend : b.append data = some b') (hpeak : b'.readableBytes ≤ peak) : Within peak b' := by
  have hlength := length_append_le hb happend
  unfold Within kCheapPrepend kInitialSize at *
  omega

theorem Within.retrieve {peak n : ℕ} {b b' : Buffer} (h : Within peak b)
    (hretrieve : b.retrieve n = some b') : Within peak b' := by
  rw [Buffer.retrieve] at hretrieve
  split_ifs at hretrieve
  · cases hretrieve
    exact h
  · cases hretrieve
    exact h

theorem Within.retrieveUntil {peak stop : ℕ} {b b' : Buffer} (h : Within peak b)
    (hretrieve : b.retrieveUntil stop = some b') : Within peak b' :=
  h.retrieve (Option.ite_none_right_eq_some.mp hretrieve).2

theorem Within.erase {peak start len : ℕ} {b b' : Buffer} (h : Within peak b) (hb : b.Valid)
    (herase : b.erase start len = some b') : Within peak b' := by
  obtain ⟨⟨hfirst, hstop⟩, herase⟩ := Option.ite_none_right_eq_some.mp herase
  split_ifs at herase
  · exact h.retrieve herase
  · cases herase
    have hw := hb.write_le_size
    have hlength := length_eraseRange (Nat.le_add_right start len) (hstop.trans hw)
    unfold Within at *
    simp only [hlength]
    omega

theorem Within.readFd {peak : ℕ} {b b' : Buffer} (h : Within peak b) (hb : b.Valid)
    {r : ReadvResult} {report : ℤ × Option ℕ} (hread : b.readFd r = some (report, b'))
    (hpeak : b'.readableBytes ≤ peak) : Within peak b' := by
  cases r with
  | failed errno =>
    cases hread
    exact h
  | got data =>
    have hw := hb.write_le_size
    have htake : (data.take b.writeableBytes).length ≤ b.writeableBytes := by
      rw [List.length_take]
      exact Nat.min_le_left ..
    have hfit : b.writeIndex + (data.take b.writeableBytes).length ≤ b.buffer.length := by
      unfold writeableBytes at htake ⊢
      omega
    have hfilled := length_overwrite hfit
    simp only [Buffer.readFd] at hread
    split_ifs at hread with hroom
    · cases hread
      unfold Within at *
      simp only [hfilled]
      exact h
    · -- the vector is full, and the rest comes out of `extrabuf`
      obtain ⟨c, happend, hc⟩ := Option.map_eq_some_iff.mp hread
      cases hc
      have hlen : (data.take b.writeableBytes).length = b.writeableBytes := by
        rw [List.length_take]
        omega
      obtain ⟨hv, -⟩ := write_spec hb htake
      have hfull : b.writeIndex + (data.take b.writeableBytes).length =
          (overwrite b.buffer b.writeIndex (data.take b.writeableBytes)).length := by
        rw [hfilled, hlen, writeableBytes]
        omega
      rw [hfull] at hv
      refine Within.append ?_ hv happend hpeak
      unfold Within at *
      simp only [hfilled]
      exact h

theorem within_copy {peak : ℕ} {b b' : Buffer} (hb : b.Valid) (hcopy : b.copy = some b')
    (hpeak : b'.readableBytes ≤ peak) : Within peak b' := by
  obtain ⟨c, hc, hv, hr⟩ := copy_spec b
  cases hcopy.symm.trans hc
  have hsame : b'.readableBytes = b.readableBytes := by
    rw [← length_readable hv, hr, length_readable hb]
  have hvalid : Valid
      { buffer := List.replicate (kCheapPrepend + kInitialSize + b.readableBytes) 0
        readIndex := kCheapPrepend
        writeIndex := kCheapPrepend } := by
    refine ⟨le_rfl, le_rfl, ?_⟩
    rw [List.length_replicate, Nat.add_assoc]
    exact Nat.le_add_right ..
  have hwithin : Within peak
      { buffer := List.replicate (kCheapPrepend + kInitialSize + b.readableBytes) 0
        readIndex := kCheapPrepend
        writeIndex := kCheapPrepend } := by
    unfold Within
    rw [List.length_replicate]
    omega
  exact hwithin.append hvalid hcopy hpeak

theorem Within.clear {peak : ℕ} {b : Buffer} (h : Within peak b) (hb : b.Valid) :
    Within peak b.clear := by
  obtain ⟨hp, hr, hw⟩ := hb
  have hfit : kCheapPrepend + (List.replicate (b.writeIndex - kCheapPrepend) (0 : UInt8)).length ≤
      b.buffer.length := by
    rw [List.length_replicate]
    omega
  unfold Within at *
  rw [Buffer.clear, retrieveAll, length_overwrite hfit]
  exact h

theorem within_empty (peak : ℕ) : Within peak Buffer.empty := by
  unfold Within
  rw [Buffer.empty, List.length_replicate]
  exact Nat.le_add_right ..

theorem step_within {peak : ℕ} {s t : State Buffer} {op : Op} (hv : AllValid s)
    (h : Each (Within peak) s) (hstep : step s op = some t) (hpeak : HoldsUpTo peak t) :
    Each (Within peak) t := by
  cases op with
  | construct x =>
    cases hstep
    exact each_set h x (within_empty peak)
  | constructFrom x data =>
    rw [step, Option.map_eq_some_iff] at hstep
    obtain ⟨b, hb, rfl⟩ := hstep
    exact each_set h x ((within_empty peak).append empty_valid hb (hpeak x b (bufs_set ..)))
  | copy x y =>
    obtain ⟨b, hy, hmap⟩ := Option.bind_eq_some_iff.mp hstep
    obtain ⟨c, hc, rfl⟩ := Option.map_eq_some_iff.mp hmap
    exact each_set h x (within_copy (hv y b hy) hc (hpeak x c (bufs_set ..)))
  | move x y =>
    obtain ⟨b, hy, rfl⟩ := Option.map_eq_some_iff.mp hstep
    exact each_set (each_set h y (within_empty peak)) x (h y b hy)
  | swap x y =>
    obtain ⟨a, hx, hmap⟩ := Option.bind_eq_some_iff.mp hstep
    obtain ⟨b, hy, rfl⟩ := Option.map_eq_some_iff.mp hmap
    exact each_set (each_set h x (h y b hy)) y (h x a hx)
  | append x data =>
    obtain ⟨b, hx, hmap⟩ := Option.bind_eq_some_iff.mp hstep
    obtain ⟨c, hc, rfl⟩ := Option.map_eq_some_iff.mp hmap
    exact each_set h x ((h x b hx).append (hv x b hx) hc (hpeak x c (bufs_set ..)))
  | retrieve x n =>
    obtain ⟨b, hx, hmap⟩ := Option.bind_eq_some_iff.mp hstep
    obtain ⟨c, hc, rfl⟩ := Option.map_eq_some_iff.mp hmap
    exact each_set h x ((h x b hx).retrieve hc)
  | retrieveUntil x n =>
    obtain ⟨b, hx, hmap⟩ := Option.bind_eq_some_iff.mp hstep
    obtain ⟨c, hc, rfl⟩ := Option.map_eq_some_iff.mp hmap
    exact each_set h x ((h x b hx).retrieveUntil hc)
  | retrieveAsString x n =>
    obtain ⟨b, hx, hmap⟩ := Option.bind_eq_some_iff.mp hstep
    obtain ⟨r, hr, rfl⟩ := Option.map_eq_some_iff.mp hmap
    obtain ⟨-, hr⟩ := Option.ite_none_right_eq_some.mp hr
    obtain ⟨c, hc, rfl⟩ := Option.map_eq_some_iff.mp hr
    exact each_set h x ((h x b hx).retrieve hc)
  | retrieveAll x =>
    obtain ⟨b, hx, rfl⟩ := Option.map_eq_some_iff.mp hstep
    exact each_set h x (h x b hx)
  | erase x start len =>
    obtain ⟨b, hx, hmap⟩ := Option.bind_eq_some_iff.mp hstep
    obtain ⟨c, hc, rfl⟩ := Option.map_eq_some_iff.mp hmap
    exact each_set h x ((h x b hx).erase (hv x b hx) hc)
  | clear x =>
    obtain ⟨b, hx, rfl⟩ := Option.map_eq_some_iff.mp hstep
    exact each_set h x ((h x b hx).clear (hv x b hx))
  | readFd x r =>
    obtain ⟨b, hx, hmap⟩ := Option.bind_eq_some_iff.mp hstep
    obtain ⟨⟨report, c⟩, hc, rfl⟩ := Option.map_eq_some_iff.mp hmap
    exact each_set h x ((h x b hx).readFd (hv x b hx) hc (hpeak x c (bufs_set ..)))

/-- In every program the vector of every buffer stays within the initial size and twice the number
of bytes that a buffer has held at once up to then. -/
theorem space_bounded {peak : ℕ} {ops : List Op} {s : State Buffer}
    (hasserted : Along step (fun s op => asserted s op = true) .init ops)
    (hpeak : Throughout step (HoldsUpTo peak) .init ops)
    (hrun : runFrom step .init ops = some s) : Each (Within peak) s := by
  have hrun_within : ∀ {ops : List Op} {s t : State Buffer}, AllValid s → Each (Within peak) s →
      Along step (fun s op => asserted s op = true) s ops → Throughout step (HoldsUpTo peak) s ops →
      runFrom step s ops = some t → Each (Within peak) t := by
    intro ops
    induction ops with
    | nil =>
      intro s t _ h _ _ hrun
      cases hrun
      exact h
    | cons op ops ih =>
      intro s t hv h hasserted hpeak hrun
      obtain ⟨u, hu, hrun⟩ := (runFrom_cons ..).mp hrun
      obtain ⟨v, hstep, hvalid, -⟩ := step_spec s op hv hasserted.1
      cases hu.symm.trans hstep
      have hpeak' := hpeak.2 u hu
      exact ih hvalid (step_within hv h hu (throughout_head hpeak')) (hasserted.2 u hu) hpeak' hrun
  exact hrun_within allValid_init nofun hasserted hpeak hrun

def Op.targets : Op → List ℕ
  | .move x y => [x, y]
  | .swap x y => [x, y]
  | .construct x => [x]
  | .constructFrom x _ => [x]
  | .copy x _ => [x]
  | .append x _ => [x]
  | .retrieve x _ => [x]
  | .retrieveUntil x _ => [x]
  | .retrieveAsString x _ => [x]
  | .retrieveAll x => [x]
  | .erase x _ _ => [x]
  | .clear x => [x]
  | .readFd x _ => [x]

theorem bufs_set_of_notMem {s : State Buffer} {x y : ℕ} (b : Buffer) (hy : y ∉ [x]) :
    (s.set x b).bufs y = s.bufs y :=
  Function.update_of_ne (List.ne_of_not_mem_cons hy) _ _

theorem bufs_step {s t : State Buffer} {op : Op} (h : step s op = some t) {y : ℕ}
    (hy : y ∉ op.targets) : t.bufs y = s.bufs y := by
  cases op with
  | construct x =>
    rw [step, Option.some.injEq] at h
    exact h ▸ bufs_set_of_notMem empty hy
  | constructFrom x data =>
    rw [step] at h
    obtain ⟨c, -, rfl⟩ := Option.map_eq_some_iff.mp h
    exact bufs_set_of_notMem c hy
  | move x y =>
    obtain ⟨b, -, rfl⟩ := Option.map_eq_some_iff.mp h
    obtain ⟨hx, hy⟩ := List.ne_and_not_mem_of_not_mem_cons hy
    exact (bufs_set_of_notMem _ (by rwa [List.mem_singleton])).trans (bufs_set_of_notMem _ hy)
  | swap x y =>
    obtain ⟨a, -, hmap⟩ := Option.bind_eq_some_iff.mp h
    obtain ⟨b, -, rfl⟩ := Option.map_eq_some_iff.mp hmap
    obtain ⟨hx, hy⟩ := List.ne_and_not_mem_of_not_mem_cons hy
    exact (bufs_set_of_notMem _ hy).trans (bufs_set_of_notMem _ (by rwa [List.mem_singleton]))
  | retrieveAll x | clear x =>
    obtain ⟨b, -, rfl⟩ := Option.map_eq_some_iff.mp h
    exact bufs_set_of_notMem _ hy
  | retrieveAsString x n | readFd x r =>
    obtain ⟨b, -, hmap⟩ := Option.bind_eq_some_iff.mp h
    obtain ⟨p, -, rfl⟩ := Option.map_eq_some_iff.mp hmap
    exact bufs_set_of_notMem p.2 hy
  | copy x z | append x data | retrieve x n | retrieveUntil x n | erase x start len =>
    obtain ⟨b, -, hmap⟩ := Option.bind_eq_some_iff.mp h
    obtain ⟨c, -, rfl⟩ := Option.map_eq_some_iff.mp hmap
    exact bufs_set_of_notMem c hy

/-- To see that all buffers hold up to `peak` bytes in a run, it is enough to look at the objects
that each operation changes. -/
theorem throughout_holdsUpTo {peak : ℕ} {ops : List Op} {s : State Buffer} (hs : HoldsUpTo peak s)
    (h : Along step (fun s op => ∀ t ∈ step s op, ∀ x ∈ op.targets, ∀ b ∈ t.bufs x,
      b.readableBytes ≤ peak) s ops) : Throughout step (HoldsUpTo peak) s ops := by
  induction ops generalizing s with
  | nil => exact hs
  | cons op ops ih =>
    refine ⟨hs, ?_⟩
    intro t ht
    refine ih ?_ (h.2 t ht)
    intro x b hx
    by_cases htarget : x ∈ op.targets
    · exact h.1 t ht x htarget b hx
    · exact hs x b ((bufs_step ht htarget).symm.trans hx)

theorem each_init (Q : Buffer → Prop) : Each Q State.init := nofun

theorem sampleProgram_space_bounded :
    ∃ s, runFrom step .init sampleProgram = some s ∧ Each (Within 1125) s := by
  have hsome : (runFrom step .init sampleProgram).isSome := by decide +kernel
  obtain ⟨s, hrun⟩ := Option.isSome_iff_exists.mp hsome
  exact ⟨s, hrun, space_bounded (by decide +kernel)
    (throughout_holdsUpTo (each_init _) (by decide +kernel)) hrun⟩
end Matelib.ByteQueue
