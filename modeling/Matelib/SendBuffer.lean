import Matelib.OutputStream

/-!
# `send(Buffer*)` from the loop thread and from other threads

In the loop thread `send(Buffer*)` hands the readable bytes of the caller's buffer to `sendInThread`
and leaves them there. In another thread it moves them out of the buffer, into the functor that the
loop thread then runs. A `Sender` is a connection together with the buffer that its user appends to
and sends. For the peer one call means the same on both paths, but what stays in the buffer is sent
again by the next call.
-/

namespace Matelib

namespace TcpConnection

inductive Caller where
  | loopThread
  | otherThread
  deriving DecidableEq, Repr

def sendInLoop (c : TcpConnection) (message : Bytes) (w : WriteResult) :
    TcpConnection × List Effect :=
  c.sendInThread message w

/-- `send(Buffer*)`, in another thread with the functor that it queues: the connection with its
effects, and the caller's buffer. `none` when the assertion in `retrieveAllAsString` fails. -/
def sendBuffer (c : TcpConnection) (caller : Caller) (buffer : ValidBuffer) (w : WriteResult) :
    Option ((TcpConnection × List Effect) × ValidBuffer) :=
  if c.state = .kConnected then
    match caller with
    | .loopThread => some (c.sendInThread buffer.readable w, buffer)
    | .otherThread =>
        buffer.retrieveAllAsString.map fun (message, rest) => (c.sendInLoop message w, rest)
  else some ((c, []), buffer)

def written (effects : List Effect) : Bytes :=
  effects.flatMap fun
    | .write accepted => accepted
    | _ => []

@[simp] theorem state_sendInThread (c : TcpConnection) (data : Bytes) (w : WriteResult) :
    (c.sendInThread data w).1.state = c.state := by
  unfold sendInThread
  dsimp only
  split_ifs <;> rfl

theorem sendInThread_nil (c : TcpConnection) (w : WriteResult) :
    (c.sendInThread [] w).1 = c ∧ written (c.sendInThread [] w).2 = [] := by
  simp only [sendInThread, List.length_nil, Nat.zero_sub, lt_irrefl, decide_false, Bool.and_false,
    Bool.false_eq_true, if_false, List.take_nil]
  split_ifs <;> exact ⟨rfl, rfl⟩

theorem sendInThread_written {c : TcpConnection} (hs : c.state ≠ .kDisconnected) {data : Bytes}
    {w : WriteResult} (hret : w.Contract data.length) (hpipe : w.NoPipe) :
    written (c.sendInThread data w).2 ++ (c.sendInThread data w).1.outputBuffer.readable =
      c.outputBuffer.readable ++ data := by
  by_cases hdirect : c.channel.isWriting = false ∧ c.outputBuffer.readable = []
  · obtain ⟨hw, hb⟩ := hdirect
    rw [OutputStream.sendInThread_direct hs hw hb hret hpipe]
    split_ifs with hlt
    · simp [written, hb]
    · simp [written, hb]
  · have hqueue : (!c.channel.isWriting && c.outputBuffer.readableBytes == 0) = false := by
      rw [← Bool.not_eq_true]
      intro h
      rw [Bool.and_eq_true, Bool.not_eq_true', beq_iff_eq, ValidBuffer.readableBytes_eq_zero] at h
      exact hdirect h
    simp only [sendInThread, if_neg hs, hqueue, Bool.false_and, Bool.not_false, Bool.true_and,
      Bool.false_eq_true, if_false, Int.toNat_zero, Nat.sub_zero, List.drop_zero, List.take_length,
      decide_eq_true_eq]
    split_ifs with hpos hwriting
    · simp [written]
    · simp [written]
    · rw [List.eq_nil_of_length_eq_zero (Nat.eq_zero_of_not_pos hpos), List.append_nil]
      rfl

theorem sendBuffer_loopThread {c : TcpConnection} (hc : c.state = .kConnected)
    (buffer : ValidBuffer) (w : WriteResult) :
    c.sendBuffer .loopThread buffer w = some (c.sendInThread buffer.readable w, buffer) :=
  if_pos hc

theorem sendBuffer_otherThread {c : TcpConnection} (hc : c.state = .kConnected)
    (buffer : ValidBuffer) (w : WriteResult) :
    ∃ rest, c.sendBuffer .otherThread buffer w = some (c.sendInThread buffer.readable w, rest) ∧
      rest.readable = [] := by
  obtain ⟨rest, hmove, hrest⟩ := buffer.retrieveAllAsString_spec
  refine ⟨rest, ?_, hrest⟩
  simp only [sendBuffer, if_pos hc, hmove, Option.map_some, sendInLoop]

theorem sendBuffer_not_connected {c : TcpConnection} (hc : c.state ≠ .kConnected)
    (caller : Caller) (buffer : ValidBuffer) (w : WriteResult) :
    c.sendBuffer caller buffer w = some ((c, []), buffer) :=
  if_neg hc

end TcpConnection

namespace SendBuffer

open TcpConnection Transition

/-- A connection, what its socket accepted so far, and the buffer of the user who sends on it. -/
structure Sender where
  conn : TcpConnection
  accepted : Bytes
  buffer : ValidBuffer
  deriving DecidableEq

/-- One use of the buffer: `data` is appended, then the buffer is sent. -/
structure Call where
  data : Bytes
  w : WriteResult
  deriving DecidableEq, Repr

def Sender.forPeer (s : Sender) : Bytes := s.accepted ++ s.conn.outputBuffer.readable

def Sender.settle (s : Sender) (r : (TcpConnection × List Effect) × ValidBuffer) : Sender :=
  ⟨r.1.1, s.accepted ++ written r.1.2, r.2⟩

def step (caller : Caller) (s : Sender) (call : Call) : Option Sender :=
  (s.conn.sendBuffer caller (s.buffer.append call.data) call.w).map s.settle

def leaves : Caller → Bytes → Bytes
  | .loopThread, bytes => bytes
  | .otherThread, _ => []

def appended (calls : List Call) : Bytes := calls.flatMap Call.data

theorem appended_cons (call : Call) (calls : List Call) :
    appended (call :: calls) = call.data ++ appended calls := List.flatMap_cons

/-- No byte that was in the buffer or appended to it is lost or repeated: each is with the peer or
still in the buffer, in order. -/
def Conserved (s : Sender) (calls : List Call) (t : Sender) : Prop :=
  t.forPeer ++ t.buffer.readable = s.forPeer ++ (s.buffer.readable ++ appended calls)

/-- Both paths lead to the same bytes for the peer and to the same buffer, and neither of them loses
or repeats a byte. -/
def OneMeaning (s : Sender) (calls : List Call) : Prop :=
  ∃ l o, runFrom (step .loopThread) s calls = some l ∧
    runFrom (step .otherThread) s calls = some o ∧
    l.forPeer = o.forPeer ∧ l.buffer.readable = o.buffer.readable ∧
    Conserved s calls l ∧ Conserved s calls o

theorem step_connected {s : Sender} (hc : s.conn.state = .kConnected) (caller : Caller)
    (call : Call) :
    ∃ t, step caller s call = some t ∧ t.conn.state = .kConnected ∧
      t.conn = (s.conn.sendInThread (s.buffer.readable ++ call.data) call.w).1 ∧
      t.accepted = s.accepted ++
        written (s.conn.sendInThread (s.buffer.readable ++ call.data) call.w).2 ∧
      t.buffer.readable = leaves caller (s.buffer.readable ++ call.data) := by
  cases caller with
  | loopThread =>
    have hsend := sendBuffer_loopThread hc (s.buffer.append call.data) call.w
    rw [ValidBuffer.readable_append] at hsend
    refine ⟨s.settle _, congrArg (Option.map s.settle) hsend, ?_, rfl, rfl, ?_⟩
    · exact (state_sendInThread ..).trans hc
    · exact ValidBuffer.readable_append _ _
  | otherThread =>
    obtain ⟨rest, hsend, hrest⟩ := sendBuffer_otherThread hc (s.buffer.append call.data) call.w
    rw [ValidBuffer.readable_append] at hsend
    refine ⟨s.settle _, congrArg (Option.map s.settle) hsend, ?_, rfl, rfl, hrest⟩
    exact (state_sendInThread ..).trans hc

theorem step_idle {s : Sender} {call : Call}
    (h : s.conn.state ≠ .kConnected ∨ s.buffer.readable ++ call.data = []) (caller : Caller) :
    ∃ t, step caller s call = some t ∧ t.conn = s.conn ∧ t.accepted = s.accepted ∧
      t.buffer.readable = s.buffer.readable ++ call.data := by
  by_cases hc : s.conn.state = .kConnected
  · have hnil := h.resolve_left (not_not.mpr hc)
    obtain ⟨t, ht, _, hconn, haccepted, hbuffer⟩ := step_connected hc caller call
    rw [hnil] at hconn haccepted hbuffer
    obtain ⟨hsame, hnone⟩ := sendInThread_nil s.conn call.w
    refine ⟨t, ht, hconn.trans hsame, ?_, ?_⟩
    · rw [haccepted, hnone, List.append_nil]
    · rw [hnil, hbuffer]
      cases caller <;> rfl
  · have hsend := sendBuffer_not_connected hc caller (s.buffer.append call.data) call.w
    refine ⟨s.settle _, congrArg (Option.map s.settle) hsend, rfl, List.append_nil _, ?_⟩
    exact ValidBuffer.readable_append _ _

theorem run_idle {s : Sender} {calls : List Call}
    (h : s.conn.state ≠ .kConnected ∨ s.buffer.readable ++ appended calls = []) (caller : Caller) :
    ∃ t, runFrom (step caller) s calls = some t ∧ t.forPeer = s.forPeer ∧
      t.buffer.readable = s.buffer.readable ++ appended calls := by
  induction calls generalizing s with
  | nil => exact ⟨s, rfl, rfl, (List.append_nil _).symm⟩
  | cons call calls ih =>
    rw [appended_cons, ← List.append_assoc] at h ⊢
    obtain ⟨t, ht, hconn, haccepted, hbuffer⟩ :=
      step_idle (h.imp_right fun hnil => (List.append_eq_nil_iff.mp hnil).1) caller
    rw [← hconn, ← hbuffer] at h
    obtain ⟨u, hu, hpeer, hlast⟩ := ih h
    refine ⟨u, (runFrom_cons ..).mpr ⟨t, ht, hu⟩, ?_, ?_⟩
    · rw [hpeer, Sender.forPeer, Sender.forPeer, hconn, haccepted]
    · rw [hlast, hbuffer]

theorem loopThread_run {s : Sender} (hc : s.conn.state = .kConnected) (calls : List Call) :
    ∃ t, runFrom (step .loopThread) s calls = some t ∧
      t.buffer.readable = s.buffer.readable ++ appended calls := by
  induction calls generalizing s with
  | nil => exact ⟨s, rfl, (List.append_nil _).symm⟩
  | cons call calls ih =>
    obtain ⟨t, ht, htc, _, _, hbuffer⟩ := step_connected hc .loopThread call
    obtain ⟨u, hu, hlast⟩ := ih htc
    refine ⟨u, (runFrom_cons ..).mpr ⟨t, ht, hu⟩, ?_⟩
    rw [hlast, hbuffer, leaves, appended_cons, List.append_assoc]

theorem otherThread_run {s : Sender} (hc : s.conn.state = .kConnected) {calls : List Call}
    (hne : calls ≠ []) :
    ∃ t, runFrom (step .otherThread) s calls = some t ∧ t.buffer.readable = [] := by
  induction calls generalizing s with
  | nil => exact absurd rfl hne
  | cons call calls ih =>
    obtain ⟨t, ht, htc, _, _, hbuffer⟩ := step_connected hc .otherThread call
    cases calls with
    | nil => exact ⟨t, (runFrom_cons ..).mpr ⟨t, ht, rfl⟩, hbuffer⟩
    | cons next rest =>
      obtain ⟨u, hu, hlast⟩ := ih htc (List.cons_ne_nil next rest)
      exact ⟨u, (runFrom_cons ..).mpr ⟨t, ht, hu⟩, hlast⟩

/-- The two paths have one meaning exactly as long as there is nothing to send: the connection is
not open, no call is made, or the buffer stays empty. -/
theorem oneMeaning_iff (s : Sender) (calls : List Call) :
    OneMeaning s calls ↔
      s.conn.state ≠ .kConnected ∨ calls = [] ∨ s.buffer.readable ++ appended calls = [] := by
  constructor
  · rintro ⟨l, o, hl, ho, _, hsame, _⟩
    by_contra hnot
    simp only [not_or, not_not] at hnot
    obtain ⟨hc, hne, hbytes⟩ := hnot
    obtain ⟨l', hl', hgrown⟩ := loopThread_run hc calls
    obtain ⟨o', ho', hempty⟩ := otherThread_run hc hne
    cases hl.symm.trans hl'
    cases ho.symm.trans ho'
    exact hbytes (by rw [← hgrown, hsame, hempty])
  · intro h
    by_cases hnil : calls = []
    · subst hnil
      refine ⟨s, s, rfl, rfl, rfl, rfl, ?_, ?_⟩
      all_goals exact congrArg (s.forPeer ++ ·) (List.append_nil _).symm
    · have hidle := h.imp_right fun h => h.resolve_left hnil
      obtain ⟨l, hl, hlpeer, hlbuffer⟩ := run_idle hidle .loopThread
      obtain ⟨o, ho, hopeer, hobuffer⟩ := run_idle hidle .otherThread
      refine ⟨l, o, hl, ho, hlpeer.trans hopeer.symm, hlbuffer.trans hobuffer.symm, ?_, ?_⟩
      · rw [Conserved, hlpeer, hlbuffer]
      · rw [Conserved, hopeer, hobuffer]

/-- What `::write` may return in a call, and it never fails with `EPIPE`. -/
def Writes (s : Sender) (call : Call) : Prop :=
  call.w.Contract (s.buffer.readable ++ call.data).length ∧ call.w.NoPipe

theorem step_forPeer {s : Sender} (hc : s.conn.state = .kConnected) {call : Call}
    (hw : Writes s call) (caller : Caller) :
    ∃ t, step caller s call = some t ∧ t.conn.state = .kConnected ∧
      t.forPeer = s.forPeer ++ (s.buffer.readable ++ call.data) ∧
      t.buffer.readable = leaves caller (s.buffer.readable ++ call.data) := by
  obtain ⟨t, ht, htc, hconn, haccepted, hbuffer⟩ := step_connected hc caller call
  refine ⟨t, ht, htc, ?_, hbuffer⟩
  have hs : s.conn.state ≠ .kDisconnected := by rw [hc]; decide
  rw [Sender.forPeer, hconn, haccepted, List.append_assoc, sendInThread_written hs hw.1 hw.2,
    ← List.append_assoc]
  rfl

theorem otherThread_conserved {s : Sender} {calls : List Call}
    (h : Along (step .otherThread) Writes s calls) :
    ∃ t, runFrom (step .otherThread) s calls = some t ∧ Conserved s calls t := by
  by_cases hc : s.conn.state = .kConnected
  · induction calls generalizing s with
    | nil => exact ⟨s, rfl, congrArg (s.forPeer ++ ·) (List.append_nil _).symm⟩
    | cons call calls ih =>
      obtain ⟨t, ht, htc, hpeer, hbuffer⟩ := step_forPeer hc h.1 .otherThread
      obtain ⟨u, hu, hlast⟩ := ih (h.2 t ht) htc
      refine ⟨u, (runFrom_cons ..).mpr ⟨t, ht, hu⟩, ?_⟩
      rw [Conserved, hlast, hpeer, hbuffer, appended_cons]
      simp only [leaves, List.nil_append, List.append_assoc]
  · have hidle : s.conn.state ≠ .kConnected ∨ s.buffer.readable ++ appended calls = [] := Or.inl hc
    obtain ⟨t, ht, hpeer, hbuffer⟩ := run_idle hidle .otherThread
    refine ⟨t, ht, ?_⟩
    rw [Conserved, hpeer, hbuffer]

/-- What the loop thread sends in a sequence of calls: every call repeats all the bytes of the calls
before it. -/
def repeated : Bytes → List Call → Bytes
  | _, [] => []
  | left, call :: calls => left ++ call.data ++ repeated (left ++ call.data) calls

theorem loopThread_repeats {s : Sender} (hc : s.conn.state = .kConnected) {calls : List Call}
    (h : Along (step .loopThread) Writes s calls) :
    ∃ t, runFrom (step .loopThread) s calls = some t ∧
      t.forPeer = s.forPeer ++ repeated s.buffer.readable calls := by
  induction calls generalizing s with
  | nil => exact ⟨s, rfl, (List.append_nil _).symm⟩
  | cons call calls ih =>
    obtain ⟨t, ht, htc, hpeer, hbuffer⟩ := step_forPeer hc h.1 .loopThread
    obtain ⟨u, hu, hlast⟩ := ih htc (h.2 t ht)
    refine ⟨u, (runFrom_cons ..).mpr ⟨t, ht, hu⟩, ?_⟩
    rw [hlast, hpeer, hbuffer, leaves, repeated, List.append_assoc]

def idleSender : Sender := ⟨(TcpConnection.new 7).connectionEstablished.1, [], .empty⟩

/-- "a" and then "b" are appended and sent, and the socket takes all that it is offered. -/
def twoCalls : List Call := [⟨[97], ⟨1, .EWOULDBLOCK⟩⟩, ⟨[98], ⟨2, .EWOULDBLOCK⟩⟩]

/-- The peer gets "aab" from the loop thread, and "ab" from another one. -/
theorem twoCalls_repeat : ¬ OneMeaning idleSender twoCalls ∧
    (runFrom (step .loopThread) idleSender twoCalls).map Sender.forPeer = some [97, 97, 98] ∧
    (runFrom (step .otherThread) idleSender twoCalls).map Sender.forPeer = some [97, 98] := by
  have hloop : (runFrom (step .loopThread) idleSender twoCalls).map Sender.forPeer =
      some [97, 97, 98] := by decide +kernel
  have hother : (runFrom (step .otherThread) idleSender twoCalls).map Sender.forPeer =
      some [97, 98] := by decide +kernel
  refine ⟨?_, hloop, hother⟩
  rintro ⟨l, o, hl, ho, hsame, _⟩
  rw [hl, Option.map_some, Option.some.injEq] at hloop
  rw [ho, Option.map_some, Option.some.injEq] at hother
  rw [hloop, hother] at hsame
  exact absurd hsame (by decide)

end SendBuffer

end Matelib
