import Mathlib.Logic.Function.Basic
import Matelib.OutputStream

/-!
# Half-closing a connection from any thread

`send` and `shutdown` of one connection, called from its loop thread and from any number of foreign
threads. The calls of the loop thread run at once; those of the others wait in the functor queue,
which is first in, first out. `shutdownInLoop` and `handleWrite` look at the write interest only, so
the half-close is graceful as long as no earlier `send` waits in the queue when they issue it.
-/

namespace Matelib

namespace GracefulClose

open TcpConnection Channel Transition OutputStream

/-- The functors of the connection in the queue. The calls of `send` are numbered. -/
inductive Functor where
  | sendInLoop (call : ℕ) (data : Bytes)
  | shutdownInLoop
  deriving DecidableEq

/-- Where a foreign thread is: outside, in `send` behind its test of the state, or in `shutdown`
behind its test or behind `setState`. -/
inductive ThreadPc where
  | outside
  | sending (call : ℕ) (data : Bytes)
  | closing
  | marked
  deriving DecidableEq

/-- The last fields are histories: the number of calls of `send`; those with data that found
`kConnected` and returned before the first call of `shutdown`; whether there was one; the calls
whose data `sendInThread` has taken, in this order; the bytes that `::write` has accepted; the
number of half-closes; and whether the connection was closed by `handleClose` or
`connectionDestroyed`. -/
structure State (τ : Type*) where
  conn : TcpConnection
  queue : List Functor
  thread : τ → ThreadPc
  calls : ℕ
  early : List ℕ
  shutdownCalled : Bool
  taken : List (ℕ × Bytes)
  accepted : Bytes
  halfCloses : ℕ
  closed : Bool

variable {τ : Type*}

/-- The state right after `connectionEstablished`. -/
def State.established (sockfd : ℕ) : State τ where
  conn := (TcpConnection.new sockfd).connectionEstablished.1
  queue := []
  thread _ := .outside
  calls := 0
  early := []
  shutdownCalled := false
  taken := []
  accepted := []
  halfCloses := 0
  closed := false

def writes (effects : List Effect) : Bytes :=
  effects.flatMap fun
    | .write bytes => bytes
    | _ => []

def halfCloses (effects : List Effect) : ℕ :=
  effects.countP fun
    | .shutdownWrite _ => true
    | _ => false

def settle (s : State τ) (r : TcpConnection × List Effect) : State τ :=
  { s with
    conn := r.1
    accepted := s.accepted ++ writes r.2
    halfCloses := s.halfCloses + halfCloses r.2 }

/-- `sendInThread` drops the data: on a connection that is closed, and when `::write` fails with
`EPIPE`. -/
def givesUp (c : TcpConnection) (w : WriteResult) : Bool :=
  c.state == .kDisconnected || (!c.channel.isWriting && c.outputBuffer.readableBytes == 0 &&
    toInt w.ret < 0 && w.errno == .EPIPE)

/-- `sendInThread` for a call of `send`. -/
def pass (s : State τ) (call : ℕ) (data : Bytes) (w : WriteResult) : State τ :=
  settle
    { s with taken := if givesUp s.conn w then s.taken else s.taken ++ [(call, data)] }
    (s.conn.sendInThread data w)

def sent (s : State τ) (call : ℕ) (data : Bytes) : State τ :=
  if s.shutdownCalled || data.isEmpty then s else { s with early := s.early ++ [call] }

inductive Event (τ : Type*) where
  -- the loop thread
  | send (data : Bytes) (w : WriteResult)
  | shutdown
  | handleWrite (w : WriteResult)
  | handleClose
  | connectionDestroyed
  | runFunctor (w : WriteResult)
  -- foreign threads
  | foreignSend (t : τ) (data : Bytes)
  | foreignShutdown (t : τ)
  | foreignSetState (t : τ)
  | foreignQueue (t : τ)

def stepLoop (s : State τ) : Event τ → Option (State τ)
  | .send data w =>
    if s.conn.state = .kConnected then
      some (sent (pass { s with calls := s.calls + 1 } s.calls data w) s.calls data)
    else some s
  | .shutdown => some (settle { s with shutdownCalled := true } s.conn.shutdown)
  | .handleWrite w => (s.conn.handleWrite w).map (settle s)
  | .handleClose => s.conn.handleClose.map (settle { s with closed := true })
  | .connectionDestroyed => some (settle { s with closed := true } s.conn.connectionDestroyed)
  | .runFunctor w => match s.queue with
    | .sendInLoop call data :: queue => some (pass { s with queue } call data w)
    | .shutdownInLoop :: queue => some (settle { s with queue } (s.conn, s.conn.shutdownInLoop))
    | [] => none
  | _ => none

def stepForeign [DecidableEq τ] (s : State τ) : Event τ → Option (State τ)
  | .foreignSend t data => match s.thread t with
    | .outside =>
      if s.conn.state = .kConnected then
        some { s with
          calls := s.calls + 1
          thread := Function.update s.thread t (.sending s.calls data) }
      else some s
    | _ => none
  | .foreignShutdown t => match s.thread t with
    | .outside =>
      let s := { s with shutdownCalled := true }
      if s.conn.state = .kConnected then
        some { s with thread := Function.update s.thread t .closing }
      else some s
    | _ => none
  | .foreignSetState t => match s.thread t with
    | .closing => some { s with
        conn := { s.conn with state := .kDisconnecting }
        thread := Function.update s.thread t .marked }
    | _ => none
  | .foreignQueue t => match s.thread t with
    | .sending call data => some (sent { s with
        queue := s.queue ++ [.sendInLoop call data]
        thread := Function.update s.thread t .outside } call data)
    | .marked => some { s with
        queue := s.queue ++ [.shutdownInLoop]
        thread := Function.update s.thread t .outside }
    | _ => none
  | _ => none

def step [DecidableEq τ] (s : State τ) (e : Event τ) : Option (State τ) :=
  match e with
  | .foreignSend .. | .foreignShutdown .. | .foreignSetState .. | .foreignQueue .. =>
    stepForeign s e
  | _ => stepLoop s e

/-- What `::write` may return in a step: its contract for the bytes offered, and no `EPIPE` before
the first half-close. -/
def Writes (s : State τ) : Event τ → Prop
  | .send data w => w.Contract data.length ∧ (s.halfCloses = 0 → w.NoPipe)
  | .handleWrite w => w.Contract s.conn.outputBuffer.readableBytes
  | .runFunctor w => match s.queue with
    | .sendInLoop _ data :: _ => w.Contract data.length ∧ (s.halfCloses = 0 → w.NoPipe)
    | _ => True
  | _ => True

def covered : ℕ → List (ℕ × Bytes) → List ℕ
  | _, [] => []
  | n, (call, data) :: taken =>
    if data.length ≤ n then call :: covered (n - data.length) taken else []

def uncovered : ℕ → List (ℕ × Bytes) → List ℕ
  | _, [] => []
  | n, (call, data) :: taken =>
    if data.length ≤ n then uncovered (n - data.length) taken else call :: taken.map Prod.fst

/-- `::write` has got all bytes of the calls that returned before `shutdown` was called. -/
def AllWritten (s : State τ) : Prop := ∀ call ∈ s.early, call ∈ covered s.accepted.length s.taken

/-- No call of `send` that returned before `shutdown` was called waits in the queue. -/
def NoneQueued (s : State τ) : Prop :=
  ∀ call data, .sendInLoop call data ∈ s.queue → call ∉ s.early

/-- No bytes of a call of `send` that returned before `shutdown` was called wait in the output
buffer. -/
def NoneBuffered (s : State τ) : Prop :=
  ∀ call ∈ uncovered s.accepted.length s.taken, call ∉ s.early

/-- A step that issues `::shutdown(SHUT_WR)` does so when everything is written. -/
def Graceful [DecidableEq τ] (s : State τ) (e : Event τ) : Prop :=
  ∀ t, step s e = some t → s.halfCloses < t.halfCloses → AllWritten t

/-- The step issues `::shutdown(SHUT_WR)`, by what `shutdown`, `shutdownInLoop` and `handleWrite`
test. -/
def HalfCloses (s : State τ) : Event τ → Prop
  | .shutdown => s.conn.state = .kConnected ∧ s.conn.channel.isWriting = false
  | .handleWrite w => s.conn.state = .kDisconnecting ∧ s.conn.channel.isWriting = true ∧ 0 < w.ret ∧
      w.ret = s.conn.outputBuffer.readableBytes
  | .runFunctor _ => s.queue.head? = some .shutdownInLoop ∧ s.conn.channel.isWriting = false
  | _ => False

/-- The first half-close is issued by a functor, or while no earlier call waits in the queue. On a
connection that has been closed, it also finds that `sendInThread` has taken the data of all earlier
calls and, unless `handleWrite` issues it, that none of this data waits in the output buffer. -/
def Clear (s : State τ) (e : Event τ) : Prop :=
  s.halfCloses = 0 → HalfCloses s e →
    ((∃ w, e = .runFunctor w) ∨ NoneQueued s) ∧
    (s.closed = true → s.early ⊆ s.taken.map Prod.fst ∧
      ((∃ w, e = .handleWrite w) ∨ NoneBuffered s))

inductive Move [DecidableEq τ] (s : State τ) : Event τ → State τ → Prop where
  | refused {e : Event τ} (hnot : ¬ HalfCloses s e) : Move s e s
  | send (data : Bytes) (w : WriteResult) : Move s (.send data w)
      (sent (pass { s with calls := s.calls + 1 } s.calls data w) s.calls data)
  | shutdown : Move s .shutdown (settle { s with shutdownCalled := true } s.conn.shutdown)
  | handleWrite (w : WriteResult) {r : TcpConnection × List Effect}
      (hr : s.conn.handleWrite w = some r) : Move s (.handleWrite w) (settle s r)
  | handleClose {r : TcpConnection × List Effect} (hr : s.conn.handleClose = some r) :
    Move s .handleClose (settle { s with closed := true } r)
  | connectionDestroyed :
    Move s .connectionDestroyed (settle { s with closed := true } s.conn.connectionDestroyed)
  | runSend (w : WriteResult) {call : ℕ} {data : Bytes} {queue : List Functor}
      (hqueue : s.queue = .sendInLoop call data :: queue) :
    Move s (.runFunctor w) (pass { s with queue } call data w)
  | runShutdown (w : WriteResult) {queue : List Functor}
      (hqueue : s.queue = .shutdownInLoop :: queue) :
    Move s (.runFunctor w) (settle { s with queue } (s.conn, s.conn.shutdownInLoop))
  | foreignSend (t : τ) (data : Bytes) : Move s (.foreignSend t data) { s with
      calls := s.calls + 1
      thread := Function.update s.thread t (.sending s.calls data) }
  | foreignRefused (t : τ) : Move s (.foreignShutdown t) { s with shutdownCalled := true }
  | foreignShutdown (t : τ) : Move s (.foreignShutdown t) { s with
      shutdownCalled := true
      thread := Function.update s.thread t .closing }
  | foreignSetState {t : τ} (ht : s.thread t = .closing) : Move s (.foreignSetState t) { s with
      conn := { s.conn with state := .kDisconnecting }
      thread := Function.update s.thread t .marked }
  | queueSend {t : τ} {call : ℕ} {data : Bytes} (ht : s.thread t = .sending call data) :
    Move s (.foreignQueue t) (sent { s with
      queue := s.queue ++ [.sendInLoop call data]
      thread := Function.update s.thread t .outside } call data)
  | queueShutdown {t : τ} (ht : s.thread t = .marked) : Move s (.foreignQueue t) { s with
      queue := s.queue ++ [.shutdownInLoop]
      thread := Function.update s.thread t .outside }

theorem stepLoop_move [DecidableEq τ] {s t : State τ} {e : Event τ} (h : stepLoop s e = some t) :
    Move s e t := by
  cases e with
  | send data w =>
    rw [stepLoop] at h
    split_ifs at h
    · cases h
      exact .send data w
    · cases h
      exact .refused id
  | shutdown =>
    cases h
    exact .shutdown
  | handleWrite w =>
    obtain ⟨r, hr, rfl⟩ := Option.map_eq_some_iff.mp h
    exact .handleWrite w hr
  | handleClose =>
    obtain ⟨r, hr, rfl⟩ := Option.map_eq_some_iff.mp h
    exact .handleClose hr
  | connectionDestroyed =>
    cases h
    exact .connectionDestroyed
  | runFunctor w =>
    rw [stepLoop] at h
    split at h
    · cases h
      exact .runSend w ‹_›
    · cases h
      exact .runShutdown w ‹_›
    · cases h
  | foreignSend | foreignShutdown | foreignSetState | foreignQueue => cases h

theorem stepForeign_move [DecidableEq τ] {s t : State τ} {e : Event τ}
    (h : stepForeign s e = some t) : Move s e t := by
  cases e with
  | foreignSend u data =>
    rw [stepForeign] at h
    split at h
    · split_ifs at h
      · cases h
        exact .foreignSend u data
      · cases h
        exact .refused id
    · cases h
  | foreignShutdown u =>
    rw [stepForeign] at h
    split at h
    · simp only at h
      split_ifs at h
      · cases h
        exact .foreignShutdown u
      · cases h
        exact .foreignRefused u
    · cases h
  | foreignSetState u =>
    rw [stepForeign] at h
    split at h
    · cases h
      exact .foreignSetState ‹_›
    · cases h
  | foreignQueue u =>
    rw [stepForeign] at h
    split at h
    · cases h
      exact .queueSend ‹_›
    · cases h
      exact .queueShutdown ‹_›
    · cases h
  | send | shutdown | handleWrite | handleClose | connectionDestroyed | runFunctor => cases h

theorem step_move [DecidableEq τ] {s t : State τ} {e : Event τ} (h : step s e = some t) :
    Move s e t := by
  unfold step at h
  split at h
  · exact stepForeign_move h
  · exact stepForeign_move h
  · exact stepForeign_move h
  · exact stepForeign_move h
  · exact stepLoop_move h

theorem covered_mono {n m : ℕ} (hnm : n ≤ m) {taken : List (ℕ × Bytes)} (more : List (ℕ × Bytes))
    {call : ℕ} (h : call ∈ covered n taken) : call ∈ covered m (taken ++ more) := by
  induction taken generalizing n m with
  | nil => cases h
  | cons p taken ih =>
    rw [List.cons_append, covered] at *
    split_ifs at h with hfits
    · rw [if_pos (hfits.trans hnm)]
      rcases List.mem_cons.mp h with rfl | h
      · exact List.mem_cons_self
      · exact List.mem_cons_of_mem _ (ih (Nat.sub_le_sub_right hnm _) h)
    · cases h

theorem covered_subset {n : ℕ} {taken : List (ℕ × Bytes)} {call : ℕ} (h : call ∈ covered n taken) :
    call ∈ taken.map Prod.fst := by
  induction taken generalizing n with
  | nil => cases h
  | cons p taken ih =>
    rw [covered] at h
    split_ifs at h
    · rcases List.mem_cons.mp h with rfl | h
      · exact List.mem_cons_self
      · exact List.mem_cons_of_mem _ (ih h)
    · cases h

theorem covered_all (taken : List (ℕ × Bytes)) :
    covered (taken.flatMap Prod.snd).length taken = taken.map Prod.fst := by
  induction taken with
  | nil => rfl
  | cons p taken ih =>
    rw [List.flatMap_cons, List.length_append, covered, if_pos (Nat.le_add_right _ _),
      Nat.add_sub_cancel_left, ih, List.map_cons]

theorem covered_append_uncovered (n : ℕ) (taken : List (ℕ × Bytes)) :
    covered n taken ++ uncovered n taken = taken.map Prod.fst := by
  induction taken generalizing n with
  | nil => rfl
  | cons p taken ih =>
    rw [covered, uncovered, List.map_cons]
    split_ifs
    · rw [List.cons_append, ih]
    · rw [List.nil_append]

theorem AllWritten.mono {s t : State τ} (h : AllWritten s) (hearly : t.early = s.early)
    (haccepted : s.accepted <+: t.accepted) (htaken : s.taken <+: t.taken) : AllWritten t := by
  obtain ⟨more, hmore⟩ := htaken
  intro call hcall
  rw [hearly] at hcall
  rw [← hmore]
  exact covered_mono haccepted.length_le more (h call hcall)

/-- The output buffer holds something exactly when the channel waits for the socket. -/
def Waits (c : TcpConnection) : Prop := c.channel.isWriting = true ↔ c.outputBuffer.readable ≠ []

theorem sendInThread_queued {c : TcpConnection} {data : Bytes} (w : WriteResult)
    (hs : c.state ≠ .kDisconnected)
    (hdirect : (!c.channel.isWriting && c.outputBuffer.readableBytes == 0) = false) :
    writes (c.sendInThread data w).2 ++ (c.sendInThread data w).1.outputBuffer.readable =
        c.outputBuffer.readable ++ data ∧
      halfCloses (c.sendInThread data w).2 = 0 ∧
      (c.sendInThread data w).1.state = c.state ∧
      (Waits c → Waits (c.sendInThread data w).1) := by
  simp only [sendInThread, if_neg hs, hdirect, Bool.false_and, Bool.not_false,
    Bool.true_and, Bool.false_eq_true, if_false, Int.toNat_zero, List.drop_zero, Nat.sub_zero,
    List.take_length, decide_eq_true_eq, List.nil_append]
  by_cases hd : 0 < data.length
  · have hne : c.outputBuffer.readable ++ data ≠ [] := by
      intro he
      rw [(List.append_eq_nil_iff.mp he).2] at hd
      exact Nat.lt_irrefl 0 hd
    rw [if_pos hd]
    split_ifs with hw
    · refine ⟨?_, rfl, rfl, fun _ => ?_⟩
      · exact (List.nil_append _).trans (ValidBuffer.readable_append _ _)
      · simp only [Waits, isWriting_enableWriting, ValidBuffer.readable_append, ne_eq, hne,
          not_false_eq_true]
    · refine ⟨?_, rfl, rfl, fun _ => ?_⟩
      · exact (List.nil_append _).trans (ValidBuffer.readable_append _ _)
      · rw [Bool.not_eq_true', Bool.not_eq_false] at hw
        simp only [Waits, hw, ValidBuffer.readable_append, ne_eq, hne, not_false_eq_true]
  · rw [if_neg hd, List.length_eq_zero_iff.mp (Nat.eq_zero_of_not_pos hd)]
    exact ⟨(List.nil_append _).trans (List.append_nil _).symm, rfl, rfl, id⟩

/-- `sendInThread` writes or keeps the data in order, unless it gives it up. -/
theorem sendInThread_spec (c : TcpConnection) {data : Bytes} {w : WriteResult}
    (hret : w.Contract data.length) :
    writes (c.sendInThread data w).2 ++ (c.sendInThread data w).1.outputBuffer.readable =
        c.outputBuffer.readable ++ (if givesUp c w then [] else data) ∧
      halfCloses (c.sendInThread data w).2 = 0 ∧
      (c.sendInThread data w).1.state = c.state ∧
      (Waits c → Waits (c.sendInThread data w).1) := by
  by_cases hs : c.state = .kDisconnected
  · simp only [sendInThread, givesUp, hs, if_true, beq_self_eq_true, Bool.true_or,
      List.append_nil]
    exact ⟨rfl, rfl, trivial, id⟩
  by_cases hdirect : (!c.channel.isWriting && c.outputBuffer.readableBytes == 0) = true
  · -- the data goes to `::write` at once
    obtain ⟨hw, hb⟩ := Bool.and_eq_true_iff.mp hdirect
    rw [Bool.not_eq_true'] at hw
    have hempty : c.outputBuffer.readable = [] :=
      ValidBuffer.readableBytes_eq_zero.mp (beq_iff_eq.mp hb)
    have hle := toNat_ret_le hret
    have hgives : givesUp c w = (decide (w.ret < 0) && w.errno == .EPIPE) := by
      rw [givesUp, beq_false_of_ne hs, Bool.false_or, hw, hb, toInt_ret hret]
      rfl
    rw [hempty, List.nil_append, hgives]
    cases herror : decide (w.ret < 0) && w.errno == .EPIPE with
    | true =>
      have hneg : w.ret < 0 := of_decide_eq_true (Bool.and_eq_true_iff.mp herror).1
      have hzero : w.ret.toNat = 0 := Int.toNat_of_nonpos hneg.le
      simp only [sendInThread, if_neg hs, hw, hb, Bool.not_false, Bool.true_and, toInt_ret hret,
        if_true, herror, Bool.not_true, Bool.false_and, Bool.false_eq_true, if_false, hzero,
        List.take_zero, hempty]
      exact ⟨rfl, rfl, trivial, id⟩
    | false =>
      have hpipe : w.NoPipe := by
        intro hret' heq
        rw [hret', heq] at herror
        cases herror
      rw [sendInThread_direct hs hw hempty hret hpipe, if_neg Bool.false_ne_true]
      split_ifs with hlt
      · refine ⟨?_, rfl, rfl, fun _ => ?_⟩
        · simp only [ValidBuffer.readable_append, hempty, List.nil_append]
          change data.take w.ret.toNat ++ [] ++ data.drop w.ret.toNat = data
          rw [List.append_nil, List.take_append_drop]
        · have hne : data.drop w.ret.toNat ≠ [] := by
            intro he
            have := congrArg List.length he
            rw [List.length_drop, List.length_nil] at this
            omega
          simp only [Waits, isWriting_enableWriting, ValidBuffer.readable_append, hempty,
            List.nil_append, hne, ne_eq, not_false_eq_true]
      · refine ⟨?_, rfl, rfl, id⟩
        change data ++ [] ++ c.outputBuffer.readable = data
        rw [hempty, List.append_nil, List.append_nil]
  · -- the data queues up behind the output buffer
    rw [Bool.not_eq_true] at hdirect
    have hgives : givesUp c w = false := by
      rw [givesUp, beq_false_of_ne hs, hdirect]
      rfl
    rw [hgives, if_neg Bool.false_ne_true]
    exact sendInThread_queued w hs hdirect

theorem shutdownInLoop_spec (c : TcpConnection) :
    writes c.shutdownInLoop = [] ∧
      (0 < halfCloses c.shutdownInLoop ↔ c.channel.isWriting = false) := by
  rw [shutdownInLoop]
  by_cases hw : c.channel.isWriting = true
  · rw [hw]
    exact ⟨rfl, iff_of_false (Nat.lt_irrefl 0) Bool.noConfusion⟩
  · rw [Bool.not_eq_true] at hw
    rw [hw]
    exact ⟨rfl, iff_of_true Nat.one_pos rfl⟩

theorem shutdown_spec (c : TcpConnection) :
    writes c.shutdown.2 ++ c.shutdown.1.outputBuffer.readable = c.outputBuffer.readable ∧
      c.shutdown.1.outputBuffer = c.outputBuffer ∧ c.shutdown.1.channel = c.channel ∧
      (c.shutdown.1.state = c.state ∨ c.shutdown.1.state = .kDisconnecting) ∧
      (0 < halfCloses c.shutdown.2 ↔ c.state = .kConnected ∧ c.channel.isWriting = false) := by
  rw [shutdown]
  split_ifs with hstate
  · obtain ⟨hwrites, hclose⟩ := shutdownInLoop_spec { c with state := .kDisconnecting }
    refine ⟨?_, rfl, rfl, Or.inr rfl, hclose.trans (and_iff_right hstate).symm⟩
    change writes (shutdownInLoop { c with state := .kDisconnecting }) ++ _ = _
    rw [hwrites, List.nil_append]
  · exact ⟨rfl, rfl, rfl, Or.inl rfl,
      iff_of_false (Nat.lt_irrefl 0) fun hclose => hstate hclose.1⟩

/-- `handleWrite` writes the front of the output buffer, and issues the half-close exactly when it
drains the buffer of a connection that is being shut down. -/
theorem handleWrite_spec {c c' : TcpConnection} {w : WriteResult} {effects : List Effect}
    (hret : w.Contract c.outputBuffer.readableBytes)
    (h : c.handleWrite w = some (c', effects)) :
    writes effects ++ c'.outputBuffer.readable = c.outputBuffer.readable ∧
      c'.state = c.state ∧ (Waits c → Waits c') ∧
      (0 < halfCloses effects ↔ c.state = .kDisconnecting ∧ c.channel.isWriting = true ∧
        0 < w.ret ∧ w.ret = c.outputBuffer.readableBytes) ∧
      (0 < halfCloses effects → c'.outputBuffer.readable = []) := by
  by_cases hw : c.channel.isWriting = true
  · by_cases hpos : 0 < w.ret
    · obtain ⟨rest, hdrop, heq⟩ := handleWrite_progress hw hret hpos
      have hsplit : c.outputBuffer.readable.take w.ret.toNat ++ rest.readable =
          c.outputBuffer.readable := by
        rw [hdrop, List.take_append_drop]
      have hdrained : rest.readable = [] ↔ w.ret = c.outputBuffer.readableBytes := by
        have hle := toNat_ret_le hret
        rw [hdrop, List.drop_eq_nil_iff, ValidBuffer.length_readable]
        omega
      rw [heq] at h
      by_cases he : rest.readable = []
      · rw [if_pos he] at h
        cases h
        refine ⟨?_, rfl, fun _ => ?_, ?_, fun _ => he⟩
        · split_ifs
          · exact (congrArg (· ++ rest.readable) (List.append_nil _)).trans hsplit
          · exact (congrArg (· ++ rest.readable) (List.append_nil _)).trans hsplit
        · simp only [Waits, isWriting_disableWriting, he, ne_eq, not_true_eq_false,
            Bool.false_eq_true]
        · by_cases hstate : c.state = .kDisconnecting
          · rw [if_pos hstate]
            exact iff_of_true Nat.one_pos ⟨hstate, hw, hpos, hdrained.mp he⟩
          · rw [if_neg hstate]
            exact iff_of_false (Nat.lt_irrefl 0) fun hclose => hstate hclose.1
      · rw [if_neg he] at h
        cases h
        refine ⟨(congrArg (· ++ rest.readable) (List.append_nil _)).trans hsplit, rfl,
          fun _ => iff_of_true hw he,
          iff_of_false (Nat.lt_irrefl 0) fun hclose => he (hdrained.mpr hclose.2.2.2),
          fun hclose => absurd hclose (Nat.lt_irrefl 0)⟩
    · have hzero : w.ret.toNat = 0 := Int.toNat_of_nonpos (not_lt.mp hpos)
      simp only [handleWrite, if_pos hw, if_neg hpos, hzero, List.take_zero] at h
      cases h
      exact ⟨rfl, rfl, id, iff_of_false (Nat.lt_irrefl 0) fun hclose => hpos hclose.2.2.1,
        fun hclose => absurd hclose (Nat.lt_irrefl 0)⟩
  · rw [handleWrite, if_neg hw] at h
    cases h
    exact ⟨rfl, rfl, id, iff_of_false (Nat.lt_irrefl 0) fun hclose => hw hclose.2.1,
      fun hclose => absurd hclose (Nat.lt_irrefl 0)⟩

end GracefulClose

end Matelib
