import Matelib.AsyncLoggingStop
import Matelib.LogFile

/-!
# From `append` to the disk

The thread of `threadFunc` owns a `LogFile`: its statements that write a record or flush the file
are steps of the log file too. When the thread has returned, the files on the disk hold all it has
taken from the buffers in front, each buffer as one record, and no byte is left in a stream.
-/

namespace Matelib

open AppendStream Transition

namespace AsyncLogging

def Record.text : Record → Bytes
  | .notice text => text
  | .buffer data => data

def Writer.passes (w : Writer) (now : Bytes) : Option Record :=
  match w.pc with
  | .discard =>
    if 25 < w.buffersToWrite.length then some (.notice (notice now w.buffersToWrite.length))
    else none
  | .write i => (w.buffersToWrite[i]?.join).map fun b => .buffer b.data
  | _ => none

/-- The logger with its log file. -/
structure Process where
  logger : Logger
  file : LogFile.State

namespace Process

def init (h : Host) (basename : Bytes) (rollSize : ℕ) (flushInterval : ℤ) (d : Files)
    (o : Opening) : Process :=
  ⟨Logger.init, LogFile.State.make h basename rollSize flushInterval d o⟩

/-- The thread flushes the file at the end of each round, and behind its loop. -/
def flushes (l : Logger) : Prop :=
  l.log.writer.pc = .clear ∨ l.log.writer.pc = .asserts ∧ l.running = false

instance (l : Logger) : Decidable (flushes l) := inferInstanceAs (Decidable (_ ∨ _))

inductive Event where
  | append (data : Bytes)
  | consume (now : Bytes) (a : LogFile.Answers)
  | stop

def output (h : Host) (l : Logger) (f : LogFile.State) (now : Bytes) (a : LogFile.Answers) :
    Option LogFile.State :=
  match l.log.writer.passes now with
  | some r => LogFile.step h f (.append r.text a)
  | none => if flushes l then LogFile.step h f .flush else some f

def step (h : Host) (p : Process) : Event → Option Process
  | .append data => (Logger.step p.logger (.append data)).map fun logger => { p with logger }
  | .consume now a =>
    (Logger.step p.logger (.consume now)).bind fun logger =>
      (output h p.logger p.file now a).map fun file => ⟨logger, file⟩
  | .stop => (Logger.step p.logger .stop).map fun logger => { p with logger }

/-- A message is shorter than a buffer, and the calls of `fwrite_unlocked` behind the first take
something. -/
def Event.Fits : Event → Prop
  | .append data => data.length < kLargeBuffer
  | .consume _ a => ∀ c ∈ a.calls.tail, 0 < c.result
  | .stop => True

end Process

theorem enter_logfile (running : Bool) (s : Shared) (w : Writer) :
    (Logger.enter running s w).2.logfile = w.logfile := by
  unfold Logger.enter
  split_ifs <;> rfl

theorem threadFunc_logfile {running : Bool} {s : Shared} {w : Writer} {now : Bytes}
    {r : Shared × Writer} (h : Logger.threadFunc running s w now = some r) :
    r.2.logfile = w.logfile ++ (w.passes now).toList := by
  unfold Logger.threadFunc at h
  unfold Writer.passes
  cases hpc : w.pc with
  | asserts =>
    simp only [hpc, AsyncLogging.threadFunc] at h ⊢
    obtain ⟨_, rfl⟩ := of_guard h
    exact (List.append_nil _).symm
  | lock =>
    simp only [hpc] at h ⊢
    cases h
    rw [enter_logfile]
    exact (List.append_nil _).symm
  | waiting =>
    simp only [hpc, Logger.wake] at h ⊢
    obtain ⟨current, _, h⟩ := Option.bind_eq_some_iff.mp h
    split_ifs at h
    · cases h
      exact (List.append_nil _).symm
    · cases h
      rw [enter_logfile]
      exact (List.append_nil _).symm
  | discard =>
    simp only [hpc, AsyncLogging.threadFunc] at h ⊢
    cases h
    unfold AsyncLogging.discard
    split_ifs
    · rfl
    · exact (List.append_nil _).symm
  | write i =>
    simp only [hpc, AsyncLogging.threadFunc] at h ⊢
    obtain ⟨w', hwrite, rfl⟩ := Option.map_eq_some_iff.mp h
    unfold AsyncLogging.write at hwrite
    cases hp : w.buffersToWrite[i]? with
    | none =>
      simp only [hp] at hwrite
      cases hwrite
      exact (List.append_nil _).symm
    | some p =>
      simp only [hp] at hwrite
      obtain ⟨b, rfl, rfl⟩ := Option.map_eq_some_iff.mp hwrite
      rfl
  | resize =>
    simp only [hpc, AsyncLogging.threadFunc] at h ⊢
    cases h
    unfold AsyncLogging.resize
    split_ifs <;> exact (List.append_nil _).symm
  | refill1 =>
    simp only [hpc, AsyncLogging.threadFunc] at h ⊢
    obtain ⟨_, _, rfl⟩ := Option.map_eq_some_iff.mp h
    exact (List.append_nil _).symm
  | refill2 =>
    simp only [hpc, AsyncLogging.threadFunc] at h ⊢
    obtain ⟨_, _, rfl⟩ := Option.map_eq_some_iff.mp h
    exact (List.append_nil _).symm
  | clear =>
    simp only [hpc, AsyncLogging.threadFunc] at h ⊢
    cases h
    exact (List.append_nil _).symm

namespace Logger

theorem step_consume {l l' : Logger} {now : Bytes} (h : step l (.consume now) = some l') :
    l.exited = false ∧
      ((l.log.writer.pc = .asserts ∧ l.running = false) ∧ l' = { l with exited := true } ∨
        ¬ (l.log.writer.pc = .asserts ∧ l.running = false) ∧
          ∃ r, threadFunc l.running l.log.shared l.log.writer now = some r ∧
            l'.exited = false ∧ l'.running = l.running ∧ l'.log.writer = r.2 ∧
            consume l.running l.log now = some l'.log) := by
  simp only [step] at h
  split_ifs at h with hexited htop
  · cases h
    exact ⟨Bool.eq_false_of_not_eq_true hexited, .inl ⟨htop, rfl⟩⟩
  · obtain ⟨log, hlog, rfl⟩ := Option.map_eq_some_iff.mp h
    obtain ⟨r, hr, rfl⟩ := Option.map_eq_some_iff.mp hlog
    exact ⟨Bool.eq_false_of_not_eq_true hexited, .inr ⟨htop, r, hr,
      Bool.eq_false_of_not_eq_true hexited, rfl, rfl, hlog⟩⟩

theorem sound_consume {l l' : Logger} {now : Bytes} (h : Sound l.log)
    (hstep : step l (.consume now) = some l') : Sound l'.log := by
  obtain ⟨_, ⟨_, rfl⟩ | ⟨_, _, _, _, _, _, hconsume⟩⟩ := step_consume hstep
  · exact h
  · by_cases hpc : l.log.writer.Collects ∧ l.running = false
    · rw [hpc.2, consume_stopped hpc.1 h.ready.current] at hconsume
      have heq := Option.some.inj hconsume
      rw [← heq]
      exact h.collects hpc.1
    · have hsame : consume l.running l.log now = AsyncLogging.step l.log (.consume now) := by
        by_cases hrunning : l.running = true
        · rw [hrunning, consume_running]
        · exact consume_eq_step (fun hc => hpc ⟨hc, Bool.eq_false_of_not_eq_true hrunning⟩) _ _
      obtain ⟨s, hs, hsound⟩ := consume_sound h now
      have heq := (hconsume.symm.trans hsame).trans hs
      rw [Option.some.inj heq]
      exact hsound

end Logger

namespace Process

/-- The log file has the records of the thread, and after the loop an empty buffer. -/
structure Written (h : Host) (basename : Bytes) (d : Files) (p : Process) : Prop where
  sound : Sound p.logger.log
  holds : LogFile.Holds h basename d p.file
  texts : p.file.parts.flatMap LogFile.Part.texts = p.logger.log.writer.logfile.map Record.text
  idle : p.logger.exited = true → p.logger.log.writer.pc = .asserts ∧
    p.file.log.file.fp.buf = []

theorem output_spec {h : Host} {basename : Bytes} {d : Files} {l : Logger} {f f' : LogFile.State}
    {now : Bytes} {a : LogFile.Answers} (ha : ∀ c ∈ a.calls.tail, 0 < c.result)
    (hf : LogFile.Holds h basename d f) (hout : output h l f now a = some f') :
    LogFile.Holds h basename d f' ∧
      f'.parts.flatMap LogFile.Part.texts = f.parts.flatMap LogFile.Part.texts ++
        (l.log.writer.passes now).toList.map Record.text ∧
      (l.log.writer.passes now = none → flushes l → f'.log.file.fp.buf = []) := by
  unfold output at hout
  cases hr : l.log.writer.passes now with
  | some r =>
    rw [hr] at hout
    have hserved : LogFile.Event.Served (.append r.text a) := ha
    have htexts := LogFile.texts_step hout
    rw [hserved.kept] at htexts
    exact ⟨hf.step hout, htexts, fun hnone => nomatch hnone⟩
  | none =>
    rw [hr] at hout
    simp only at hout
    split_ifs at hout with hflush
    · refine ⟨hf.step hout, LogFile.texts_step (e := .flush) hout, fun _ _ => ?_⟩
      cases hout
      rfl
    · cases hout
      exact ⟨hf, (List.append_nil _).symm, fun _ h => absurd h hflush⟩

theorem Written.step {h : Host} {basename : Bytes} {d : Files} {p q : Process} {e : Event}
    (hp : Written h basename d p) (he : e.Fits) (hstep : step h p e = some q) :
    Written h basename d q := by
  cases e with
  | append data =>
    obtain ⟨l, hl, rfl⟩ := Option.map_eq_some_iff.mp hstep
    obtain ⟨log, hlog, rfl⟩ := Option.map_eq_some_iff.mp hl
    obtain ⟨t, ht, hsound⟩ := append_sound hp.sound he
    have heq := Option.some.inj (hlog.symm.trans ht)
    obtain ⟨shared, _, rfl⟩ := Option.map_eq_some_iff.mp hlog
    exact ⟨heq ▸ hsound, hp.holds, hp.texts, hp.idle⟩
  | consume now a =>
    obtain ⟨l, hl, hmap⟩ := Option.bind_eq_some_iff.mp hstep
    obtain ⟨f, hf, rfl⟩ := Option.map_eq_some_iff.mp hmap
    obtain ⟨hholds, htexts, hflushed⟩ := output_spec he hp.holds hf
    have hsound := Logger.sound_consume hp.sound hl
    obtain ⟨_, ⟨htop, rfl⟩ | ⟨_, r, hr, hexited, _, hw, _⟩⟩ := Logger.step_consume hl
    · have hnone : p.logger.log.writer.passes now = none := by
        rw [Writer.passes, htop.1]
      refine ⟨hsound, hholds, ?_, fun _ => ⟨htop.1, hflushed hnone (.inr htop)⟩⟩
      rw [htexts, hp.texts, hnone]
      exact List.append_nil _
    · refine ⟨hsound, hholds, ?_, fun h => absurd (hexited.symm.trans h) Bool.false_ne_true⟩
      rw [htexts, hp.texts, hw, threadFunc_logfile hr, List.map_append]
  | stop =>
    cases hstep
    exact ⟨hp.sound, hp.holds, hp.texts, hp.idle⟩

/-- A message arrives, the thread collects it, and `stop` is called while it writes. -/
def sampleRun : List Event :=
  let consume : Event := .consume [] ⟨[], 10, LogFile.sampleOpening⟩
  .append [97, 98] :: List.replicate 4 consume ++ .stop :: List.replicate 7 consume

end Process

end AsyncLogging

end Matelib
