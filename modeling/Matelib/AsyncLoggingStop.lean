import Matelib.AsyncLogging

/-!
# Stopping the asynchronous logging

`stop` clears `running_` and joins the thread of `threadFunc`, which tests `running_` at the top of
its loop and inside the critical section, but writes nothing behind the loop. What was appended
before reaches the log file exactly when the thread still has its critical section in front of it,
or when nothing waits in the buffers in front.
-/

namespace Matelib

namespace AsyncLogging

open Transition

/-- The logger with `running_`; `exited` says that `threadFunc` has returned. -/
structure Logger where
  log : State
  running : Bool
  exited : Bool

namespace Logger

def init : Logger := ⟨State.init, true, false⟩

/-- The loop around the wait, with its test of `running_`. -/
def enter (running : Bool) (s : Shared) (w : Writer) : Shared × Writer :=
  if s.fullBuffers.isEmpty && running then (s, { w with pc := .waiting }) else collect s w

def wake (running : Bool) (s : Shared) (w : Writer) : Option (Shared × Writer) :=
  s.currentBuffer.bind fun current =>
    if 0 < current.length then some (collect s w) else some (enter running s w)

def threadFunc (running : Bool) (s : Shared) (w : Writer) (now : Bytes) :
    Option (Shared × Writer) :=
  match w.pc with
  | .lock => some (enter running s w)
  | .waiting => wake running s w
  | _ => AsyncLogging.threadFunc s w now

def consume (running : Bool) (s : State) (now : Bytes) : Option State :=
  (threadFunc running s.shared s.writer now).map fun r =>
    { s with
      shared := r.1
      writer := r.2
      batches := if s.writer.pc = .discard then s.batches ++ [s.writer.buffersToWrite]
        else s.batches }

inductive Event where
  | append (data : Bytes)
  | consume (now : Bytes)
  | stop

/-- `stop` is its first statement; it returns when the thread has exited. The thread tests
`running_` at the top of its loop. -/
def step (l : Logger) : Event → Option Logger
  | .append data => (AsyncLogging.step l.log (.append data)).map fun log => { l with log }
  | .consume now =>
    if l.exited then none
    else if l.log.writer.pc = .asserts ∧ l.running = false then some { l with exited := true }
    else (consume l.running l.log now).map fun log => { l with log }
  | .stop => some { l with running := false }

/-- A message is shorter than a buffer, a batch has at most 25 buffers, `stop` is called once. -/
def Allowed (l : Logger) : Event → Prop
  | .append data => data.length < kLargeBuffer
  | .consume _ => l.log.writer.pc = .discard → l.log.writer.buffersToWrite.length ≤ 25
  | .stop => l.running = true

instance (l : Logger) (e : Event) : Decidable (Allowed l e) :=
  match e with
  | .append _ => inferInstanceAs (Decidable (_ < _))
  | .consume _ => inferInstanceAs (Decidable (_ → _))
  | .stop => inferInstanceAs (Decidable (_ = _))

end Logger

/-- The thread has its critical section in front of it, or waits in it. -/
def Writer.Collects (w : Writer) : Prop := w.pc = .lock ∨ w.pc = .waiting

instance (w : Writer) : Decidable w.Collects := inferInstanceAs (Decidable (_ ∨ _))

def Writer.taken (w : Writer) : Bytes := w.written ++ contents w.unwritten

theorem Sound.collects {s : State} (h : Sound s) (hpc : s.writer.Collects) :
    Sound { s with
      shared := (AsyncLogging.collect s.shared s.writer).1
      writer := (AsyncLogging.collect s.shared s.writer).2 } := by
  obtain ⟨hw, hunwritten, huntested⟩ := h.idle hpc
  exact h.collect hw hunwritten huntested

theorem Sound.shared_collect {s : State} (h : Sound s) (hpc : s.writer.Collects) :
    (AsyncLogging.collect s.shared s.writer).1.bytes = [] := by
  obtain ⟨⟨h1, _, hbuffers⟩, _⟩ := h.idle hpc
  change contents s.writer.buffersToWrite ++ bytes s.writer.newBuffer1 = []
  rw [h1, hbuffers]
  rfl

namespace Logger

theorem consume_running (s : State) (now : Bytes) :
    consume true s now = AsyncLogging.step s (.consume now) := by
  rw [consume, AsyncLogging.step, threadFunc]
  cases hpc : s.writer.pc with
  | lock => simp only [AsyncLogging.threadFunc, hpc, enter, AsyncLogging.enter, Bool.and_true]
  | waiting =>
    simp only [AsyncLogging.threadFunc, hpc, wake, AsyncLogging.wake, enter, AsyncLogging.enter,
      Bool.and_true]
  | _ => simp only [AsyncLogging.threadFunc, hpc]

theorem consume_eq_step {s : State} (hpc : ¬ s.writer.Collects) (running : Bool) (now : Bytes) :
    consume running s now = AsyncLogging.step s (.consume now) := by
  rw [consume, AsyncLogging.step, threadFunc]
  cases hw : s.writer.pc with
  | lock => exact absurd (Or.inl hw) hpc
  | waiting => exact absurd (Or.inr hw) hpc
  | _ => simp only

theorem consume_stopped {s : State} (hpc : s.writer.Collects)
    (hcurrent : ∃ b, s.shared.currentBuffer = some b) (now : Bytes) :
    consume false s now = some { s with
      shared := (collect s.shared s.writer).1
      writer := (collect s.shared s.writer).2 } := by
  obtain ⟨current, hcurrent⟩ := hcurrent
  rw [consume, threadFunc]
  rcases hpc with hw | hw
  · simp only [hw, enter, Bool.and_false, Bool.false_eq_true, if_false, Option.map_some,
      reduceCtorEq]
  · simp only [hw, wake, hcurrent, Option.bind_some, enter, Bool.and_false, Bool.false_eq_true,
      if_false, ite_self, Option.map_some, reduceCtorEq]

theorem consume_spec {running : Bool} {s t : State} {now : Bytes}
    (h : consume running s now = some t) :
    t.appended = s.appended ∧
      t.batches = if s.writer.pc = .discard then s.batches ++ [s.writer.buffersToWrite]
        else s.batches := by
  obtain ⟨r, _, rfl⟩ := Option.map_eq_some_iff.mp h
  exact ⟨rfl, rfl⟩

theorem consume_outside {running : Bool} {s t : State} {now : Bytes} (hpc : ¬ s.writer.Collects)
    (htop : s.writer.pc ≠ .asserts) (h : consume running s now = some t) :
    t.shared = s.shared ∧ ¬ t.writer.Collects := by
  rw [consume_eq_step hpc] at h
  obtain ⟨r, hr, rfl⟩ := Option.map_eq_some_iff.mp h
  unfold AsyncLogging.threadFunc at hr
  cases hw : s.writer.pc with
  | asserts => exact absurd hw htop
  | lock => exact absurd (Or.inl hw) hpc
  | waiting => exact absurd (Or.inr hw) hpc
  | discard =>
    simp only [hw] at hr
    cases hr
    refine ⟨rfl, ?_⟩
    unfold AsyncLogging.discard
    split_ifs <;> simp [Writer.Collects]
  | write i =>
    simp only [hw] at hr
    obtain ⟨w, hwrite, rfl⟩ := Option.map_eq_some_iff.mp hr
    refine ⟨rfl, ?_⟩
    unfold AsyncLogging.write at hwrite
    cases hp : s.writer.buffersToWrite[i]? with
    | none =>
      simp only [hp] at hwrite
      cases hwrite
      simp [Writer.Collects]
    | some p =>
      simp only [hp] at hwrite
      obtain ⟨b, _, rfl⟩ := Option.map_eq_some_iff.mp hwrite
      simp [Writer.Collects]
  | resize =>
    simp only [hw] at hr
    cases hr
    refine ⟨rfl, ?_⟩
    unfold AsyncLogging.resize
    split_ifs <;> simp [Writer.Collects]
  | refill1 =>
    simp only [hw] at hr
    obtain ⟨p, _, rfl⟩ := Option.map_eq_some_iff.mp hr
    simp [Writer.Collects]
  | refill2 =>
    simp only [hw] at hr
    obtain ⟨p, _, rfl⟩ := Option.map_eq_some_iff.mp hr
    simp [Writer.Collects]
  | clear =>
    simp only [hw] at hr
    cases hr
    simp [Writer.Collects]

structure Intact (l : Logger) : Prop where
  sound : Sound l.log
  small : ∀ batch ∈ l.log.batches, batch.length ≤ 25
  exits : l.exited = true → l.log.writer.pc = .asserts ∧ l.running = false

theorem intact_init : Intact init where
  sound := sound_init
  small := List.forall_mem_nil _
  exits h := nomatch h

/-- Nothing is discarded, so the appended messages are what the thread has taken and what waits in
the buffers in front. -/
theorem Intact.stream {l : Logger} (h : Intact l) :
    l.log.appended.flatten = l.log.writer.taken ++ l.log.shared.bytes := by
  have hsame : ∀ batch ∈ l.log.batches, kept batch = id batch := fun batch hbatch =>
    if_neg (Nat.not_lt.mpr (h.small batch hbatch))
  have hkept : l.log.batches.map kept = l.log.batches := by
    rw [List.map_congr_left hsame, List.map_id]
  rw [Writer.taken, h.sound.written, hkept, h.sound.collected]

theorem Intact.written_of_exited {l : Logger} (h : Intact l) (hexited : l.exited = true) :
    l.log.writer.taken = l.log.writer.written ∧ ¬ l.log.writer.Collects := by
  have hpc := (h.exits hexited).1
  constructor
  · rw [Writer.taken, Writer.unwritten, hpc]
    exact List.append_nil _
  · simp [Writer.Collects, hpc]

end Logger

namespace Logger

theorem Intact.step {l l' : Logger} {e : Event} (h : Intact l) (he : Allowed l e)
    (hstep : step l e = some l') : Intact l' := by
  cases e with
  | append data =>
    obtain ⟨log, hlog, rfl⟩ := Option.map_eq_some_iff.mp hstep
    obtain ⟨s, hs, hsound⟩ := append_sound h.sound he
    cases hlog.symm.trans hs
    obtain ⟨shared, _, rfl⟩ := Option.map_eq_some_iff.mp hlog
    exact ⟨hsound, h.small, h.exits⟩
  | consume now =>
    simp only [Logger.step] at hstep
    split_ifs at hstep with hexited htop
    · cases hstep
      exact ⟨h.sound, h.small, fun _ => htop⟩
    · obtain ⟨log, hlog, rfl⟩ := Option.map_eq_some_iff.mp hstep
      obtain ⟨_, hbatches⟩ := consume_spec hlog
      refine ⟨?_, ?_, fun hex => absurd hex hexited⟩
      · by_cases hpc : l.log.writer.Collects ∧ l.running = false
        · rw [hpc.2, consume_stopped hpc.1 h.sound.ready.current] at hlog
          cases hlog
          exact h.sound.collects hpc.1
        · have hsame : consume l.running l.log now = AsyncLogging.step l.log (.consume now) := by
            by_cases hrunning : l.running = true
            · rw [hrunning, consume_running]
            · exact consume_eq_step (fun hc => hpc ⟨hc, Bool.eq_false_of_not_eq_true hrunning⟩) _ _
          obtain ⟨s, hs, hsound⟩ := consume_sound h.sound now
          cases (hlog.symm.trans hsame).trans hs
          exact hsound
      · intro batch hbatch
        change batch ∈ log.batches at hbatch
        rw [hbatches] at hbatch
        split_ifs at hbatch with hdiscard
        · rcases List.mem_append.mp hbatch with hold | hnew
          · exact h.small batch hold
          · rw [List.mem_singleton.mp hnew]
            exact he hdiscard
        · exact h.small batch hbatch
  | stop =>
    cases hstep
    exact ⟨h.sound, h.small, fun hex => ⟨(h.exits hex).1, rfl⟩⟩

/-- The thread has taken the bytes `b`, or it will when it collects. -/
def Reaches (b : Bytes) (w : Writer) : Prop := w.Collects ∨ b <+: w.taken

/-- Once `running_` is cleared, no step changes whether the thread gets hold of what was appended
before. -/
theorem Intact.reaches_step {l l' : Logger} {e : Event} (h : Intact l)
    (hstopped : l.running = false)
    {b : Bytes} (hb : b <+: l.log.appended.flatten) (he : Allowed l e)
    (hstep : Logger.step l e = some l') :
    Reaches b l'.log.writer ↔ Reaches b l.log.writer := by
  have h' := h.step he hstep
  cases e with
  | append data =>
    obtain ⟨log, hlog, rfl⟩ := Option.map_eq_some_iff.mp hstep
    obtain ⟨shared, _, rfl⟩ := Option.map_eq_some_iff.mp hlog
    exact Iff.rfl
  | consume now =>
    simp only [Logger.step] at hstep
    split_ifs at hstep with hexited htop
    · cases hstep
      exact Iff.rfl
    · obtain ⟨log, hlog, rfl⟩ := Option.map_eq_some_iff.mp hstep
      have happended := (consume_spec hlog).1
      have hstream := h'.stream
      by_cases hpc : l.log.writer.Collects
      · -- the thread takes everything in its critical section
        rw [hstopped, consume_stopped hpc h.sound.ready.current] at hlog
        cases hlog
        have htaken := hstream
        rw [h.sound.shared_collect hpc, List.append_nil] at htaken
        exact iff_of_true (Or.inr (htaken ▸ hb)) (Or.inl hpc)
      · have htop' : l.log.writer.pc ≠ .asserts := fun hw => htop ⟨hw, hstopped⟩
        obtain ⟨hshared, hpc'⟩ := consume_outside hpc htop' hlog
        have htaken : log.writer.taken = l.log.writer.taken := by
          change log.appended.flatten = log.writer.taken ++ log.shared.bytes at hstream
          rw [happended, hshared, h.stream] at hstream
          exact (List.append_cancel_right hstream).symm
        rw [Reaches, Reaches]
        change log.writer.Collects ∨ b <+: log.writer.taken ↔ _
        rw [htaken, or_iff_right hpc', or_iff_right hpc]
  | stop =>
    cases hstep
    exact Iff.rfl

theorem appended_step {l l' : Logger} {e : Event} (hstep : step l e = some l') :
    l.log.appended.flatten <+: l'.log.appended.flatten ∧
      (l.running = false → l'.running = false) := by
  cases e with
  | append data =>
    obtain ⟨log, hlog, rfl⟩ := Option.map_eq_some_iff.mp hstep
    obtain ⟨shared, _, rfl⟩ := Option.map_eq_some_iff.mp hlog
    refine ⟨?_, id⟩
    rw [List.flatten_append]
    exact List.prefix_append _ _
  | consume now =>
    simp only [step] at hstep
    split_ifs at hstep
    · cases hstep
      exact ⟨List.prefix_rfl, id⟩
    · obtain ⟨log, hlog, rfl⟩ := Option.map_eq_some_iff.mp hstep
      rw [(consume_spec hlog).1]
      exact ⟨List.prefix_rfl, id⟩
  | stop =>
    cases hstep
    exact ⟨List.prefix_rfl, fun _ => rfl⟩

/-- All of `messages` are in the log file, each once and in order: the file is the beginning of what
was appended, and reaches at least as far as they do. -/
def Logged (messages : List Bytes) (l : Logger) : Prop :=
  messages.flatten <+: l.log.writer.written ∧ l.log.writer.written <+: l.log.appended.flatten

/-- When `stop` returns, the messages that were appended before its call are all in the log file
exactly when, at the call, the thread still had its critical section in front of it, or no message
waited in the buffers in front. -/
theorem logged_iff_collects {before after : List Event} {s t : Logger}
    (hallowed : Along step Allowed init (before ++ .stop :: after))
    (hbefore : runFrom step init before = some s)
    (hrun : runFrom step s (.stop :: after) = some t) (hexited : t.exited = true) :
    Logged s.log.appended t ↔ s.log.writer.Collects ∨ s.log.shared.bytes = [] := by
  obtain ⟨hfirst, hlast⟩ := (along_append hbefore).mp hallowed
  have hs : Intact s := runFrom_invariant_along (fun _ _ _ h he hstep => h.step he hstep)
    intact_init hfirst hbefore
  obtain ⟨u, hu, hafter⟩ := (runFrom_cons ..).mp hrun
  have hstop : u = { s with running := false } := (Option.some.inj hu).symm
  -- what is appended before the call stays appended, and the thread gets hold of it or not
  have hrest : Intact t ∧ t.running = false ∧
      s.log.appended.flatten <+: t.log.appended.flatten ∧
      (Reaches s.log.appended.flatten t.log.writer ↔
        Reaches s.log.appended.flatten s.log.writer) := by
    refine runFrom_invariant_along (I := fun l => Intact l ∧ l.running = false ∧
      s.log.appended.flatten <+: l.log.appended.flatten ∧
      (Reaches s.log.appended.flatten l.log.writer ↔
        Reaches s.log.appended.flatten s.log.writer)) ?_ ?_ (hlast.2 u hu) hafter
    · rintro l e l' ⟨hl, hstopped, hb, hiff⟩ he hstep
      obtain ⟨hmore, hkept⟩ := appended_step hstep
      exact ⟨hl.step he hstep, hkept hstopped, hb.trans hmore,
        (hl.reaches_step hstopped hb he hstep).trans hiff⟩
    · refine ⟨hs.step hlast.1 hu, ?_⟩
      subst hstop
      exact ⟨rfl, List.prefix_rfl, Iff.rfl⟩
  obtain ⟨ht, _, hb, hiff⟩ := hrest
  obtain ⟨htaken, hpc⟩ := ht.written_of_exited hexited
  have hwritten : t.log.writer.written <+: t.log.appended.flatten := by
    rw [ht.stream, htaken]
    exact List.prefix_append _ _
  have hend : Reaches s.log.appended.flatten t.log.writer ↔ Logged s.log.appended t := by
    rw [Reaches, htaken, or_iff_right hpc, Logged, and_iff_left hwritten]
  have hstart : Reaches s.log.appended.flatten s.log.writer ↔
      s.log.writer.Collects ∨ s.log.shared.bytes = [] := by
    rw [Reaches, hs.stream]
    apply or_congr_right
    constructor
    · intro h
      have hlen := h.length_le
      rw [List.length_append] at hlen
      exact List.length_eq_zero_iff.mp (by omega)
    · intro h
      rw [h, List.append_nil]
  exact hend.symm.trans (hiff.trans hstart)

def finish (n : ℕ) : List Event := List.replicate n (.consume [])

/-- The thread waits, a message arrives, and then `stop` is called. -/
def stopWhileWaiting : List Event := [.consume [], .consume [], .append [97]]

/-- A second message arrives while the thread writes the first one, and then `stop` is called. -/
def stopWhileWriting : List Event := stopWhileWaiting ++ [.consume [], .consume [], .append [98]]

theorem stopWhileWaiting_logged : ∃ s t, runFrom step init stopWhileWaiting = some s ∧
    runFrom step s (.stop :: finish 9) = some t ∧ t.exited = true ∧
      (Logged s.log.appended t ↔ s.log.writer.Collects ∨ s.log.shared.bytes = []) := by
  have hallowed : Along step Allowed init (stopWhileWaiting ++ .stop :: finish 9) := by
    decide +kernel
  have hbefore : (runFrom step init stopWhileWaiting).isSome := by decide +kernel
  obtain ⟨s, hs⟩ := Option.isSome_iff_exists.mp hbefore
  have hend : (runFrom step init (stopWhileWaiting ++ .stop :: finish 9)).map Logger.exited =
      some true := by decide +kernel
  rw [runFrom_append hs] at hend
  obtain ⟨t, ht, hexited⟩ := Option.map_eq_some_iff.mp hend
  exact ⟨s, t, hs, ht, hexited, logged_iff_collects hallowed hs ht hexited⟩

/-- The second message of `stopWhileWriting` is lost. -/
theorem stopWhileWriting_loses : ¬ ∀ (before after : List Event) (s t : Logger),
    Along step Allowed init (before ++ .stop :: after) → runFrom step init before = some s →
      runFrom step s (.stop :: after) = some t → t.exited = true → Logged s.log.appended t := by
  intro h
  have hallowed : Along step Allowed init (stopWhileWriting ++ .stop :: finish 7) := by
    decide +kernel
  have hbefore : (runFrom step init stopWhileWriting).map (fun s => s.log.appended) =
      some [[97], [98]] := by decide +kernel
  have hend : (runFrom step init (stopWhileWriting ++ .stop :: finish 7)).map
      (fun t => (t.exited, t.log.writer.written)) = some (true, [97]) := by decide +kernel
  obtain ⟨s, hs, happended⟩ := Option.map_eq_some_iff.mp hbefore
  rw [runFrom_append hs] at hend
  obtain ⟨t, ht, hlast⟩ := Option.map_eq_some_iff.mp hend
  rw [Prod.mk.injEq] at hlast
  obtain ⟨hlogged, _⟩ := h stopWhileWriting (finish 7) s t hallowed hs ht hlast.1
  rw [happended, hlast.2] at hlogged
  exact absurd hlogged.length_le (by decide)

end Logger

end AsyncLogging

end Matelib
