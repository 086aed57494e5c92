import Matelib.OutputStream
import Mathlib.Logic.Function.Basic

/-!
# Two connections at the ends of one stream

The connection of a server and that of its client, with the kernel between them. What one side
writes is in flight until the other reads it; the half-close of a side ends what it puts in flight,
and the other side closes when it has read up to this end. Only the owner of a connection that tears
it down while it is open is no event here.
-/

namespace Matelib.Duplex

open TcpConnection Channel Transition OutputStream

inductive Side where
  | client
  | server
  deriving DecidableEq, Repr

def Side.peer : Side → Side
  | .client => .server
  | .server => .client

@[simp] theorem Side.peer_peer (side : Side) : side.peer.peer = side := by
  cases side <;> rfl

@[simp] theorem Side.peer_ne (side : Side) : side.peer ≠ side := by
  cases side <;> decide

theorem Side.eq_or_eq_peer (x side : Side) : x = side ∨ x = side.peer := by
  cases x <;> cases side <;> decide

/-- What the kernel holds of one direction, and whether the end of the stream is behind it. -/
structure Pipe where
  inFlight : Bytes
  fin : Bool
  deriving DecidableEq, Repr

def Pipe.apply (p : Pipe) : Effect → Pipe
  | .write bytes => { p with inFlight := p.inFlight ++ bytes }
  | .shutdownWrite _ => { p with fin := true }
  | .update _ | .connectionCallback _ | .cleanupCallback | .remove => p

/-- A connection, and what its user has taken out of the input buffer. -/
structure Endpoint where
  out : Session
  inputBuffer : ValidBuffer
  consumed : Bytes
  destroyed : Bool
  deriving DecidableEq

namespace Endpoint

def established (sockfd : ℕ) : Endpoint := ⟨OutputStream.established sockfd, .empty, [], false⟩

def received (e : Endpoint) : Bytes := e.consumed ++ e.inputBuffer.readable

def pending (e : Endpoint) : Bytes := e.out.conn.outputBuffer.readable

def Closed (e : Endpoint) : Prop := e.out.conn.state = .kDisconnected

instance (e : Endpoint) : Decidable e.Closed := inferInstanceAs (Decidable (_ = _))

end Endpoint

/-- The two ends, and what each of them has put in flight. -/
structure State where
  ends : Side → Endpoint
  pipes : Side → Pipe

def State.established (sockfd : Side → ℕ) : State :=
  ⟨fun side => .established (sockfd side), fun _ => ⟨[], false⟩⟩

def State.put (s : State) (side : Side) (e : Endpoint) (outgoing incoming : Pipe) : State where
  ends := Function.update s.ends side e
  pipes := Function.update (Function.update s.pipes side outgoing) side.peer incoming

inductive Event where
  | output (side : Side) (ev : OutputStream.Event)
  | handleRead (side : Side) (r : ReadvResult)
  | retrieve (side : Side) (n : ℕ)
  | destroy (side : Side)
  deriving DecidableEq, Repr

def call (out : Session) : OutputStream.Event → Option (Session × TcpConnection × List Effect)
  | .send data w =>
      some (if out.conn.connected then { out with sent := out.sent ++ data } else out,
        out.conn.send data w)
  | .shutdown => some ({ out with shutdownCalled := true }, out.conn.shutdown)
  | .handleWrite w => (out.conn.handleWrite w).map (out, ·)

/-- `none` when an assertion fails. The message callback is the events that follow a `handleRead`;
`handleError` only reports. -/
def step (s : State) : Event → Option State
  | .output side ev =>
      let e := s.ends side
      (call e.out ev).map fun (out, r) =>
        s.put side { e with out := settle out r } (r.2.foldl Pipe.apply (s.pipes side))
          (s.pipes side.peer)
  | .handleRead side r =>
      let ((n, _), buf) := (s.ends side).inputBuffer.readFd r
      let e := { s.ends side with inputBuffer := buf }
      let p := s.pipes side.peer
      let incoming := { p with inFlight := p.inFlight.drop r.bytes.length }
      if n = 0 then
        e.out.conn.handleClose.map fun c =>
          s.put side { e with out := settle e.out c } (c.2.foldl Pipe.apply (s.pipes side)) incoming
      else some (s.put side e (s.pipes side) incoming)
  | .retrieve side n =>
      let e := s.ends side
      (e.inputBuffer.retrieve n).map fun rest =>
        let e := { e with
          inputBuffer := rest, consumed := e.consumed ++ e.inputBuffer.readable.take n }
        s.put side e (s.pipes side) (s.pipes side.peer)
  | .destroy side =>
      -- the destructor closes the socket
      some (s.put side { s.ends side with destroyed := true } { s.pipes side with fin := true }
        (s.pipes side.peer))

/-- What `::write` may return in a call; `EPIPE` only when the socket of the peer is closed. -/
def Answers (out : Session) (gone : Bool) : OutputStream.Event → Prop
  | .send data w => w.Contract data.length ∧ (gone = false → w.NoPipe)
  | .shutdown => True
  | .handleWrite w =>
      w.Contract out.conn.outputBuffer.readableBytes ∧ (gone = false → w.NoPipe)

instance (out : Session) (gone : Bool) : ∀ ev, Decidable (Answers out gone ev)
  | .send _ _ => inferInstanceAs (Decidable (_ ∧ _))
  | .shutdown => inferInstanceAs (Decidable True)
  | .handleWrite _ => inferInstanceAs (Decidable (_ ∧ _))

/-- What the kernel may do, and what the users of the connections must. `readv` delivers bytes in
flight as far as there is room for them, while the poller watches for it, and an end of file behind
all of them. The destructor runs only for a closed connection. -/
def Possible (s : State) : Event → Prop
  | .output side ev => Answers (s.ends side).out (s.ends side.peer).destroyed ev
  | .handleRead side r =>
      (s.ends side).out.conn.channel.events.has kReadEvent = true ∧
      r.bytes <+: (s.pipes side.peer).inFlight ∧
      r.bytes.length ≤ (s.ends side).inputBuffer.buf.writeableBytes + Buffer.kExtraSize ∧
      (r = .got [] → (s.pipes side.peer).inFlight = [] ∧ (s.pipes side.peer).fin = true)
  | .retrieve side n => n ≤ (s.ends side).inputBuffer.readableBytes
  | .destroy side => (s.ends side).Closed

instance (s : State) : ∀ ev, Decidable (Possible s ev)
  | .output _ _ => inferInstanceAs (Decidable (Answers ..))
  | .handleRead _ _ => inferInstanceAs (Decidable (_ ∧ _))
  | .retrieve _ _ => inferInstanceAs (Decidable (_ ≤ _))
  | .destroy _ => inferInstanceAs (Decidable (Endpoint.Closed _))

theorem step_eq_call (out : Session) (ev : OutputStream.Event) :
    OutputStream.step out ev = (call out ev).map fun (o, r) => settle o r := by
  cases ev with
  | send data w => rfl
  | shutdown => rfl
  | handleWrite w =>
    rw [OutputStream.step, call, Option.map_map]
    rfl

def Quiet (out : Session) : Prop :=
  out.conn.state ≠ .kConnected ∧ out.conn.channel.isWriting = false

theorem call_of_quiet {out : Session} (h : Quiet out) (ev : OutputStream.Event) :
    ∃ b, (out.shutdownCalled = true → b = true) ∧
      call out ev = some ({ out with shutdownCalled := b }, out.conn, []) := by
  obtain ⟨hstate, hwriting⟩ := h
  cases ev with
  | send data w =>
    refine ⟨out.shutdownCalled, id, ?_⟩
    rw [call, connected, beq_false_of_ne hstate, send, if_neg hstate]
    rfl
  | shutdown =>
    refine ⟨true, fun _ => rfl, ?_⟩
    rw [call, shutdown, if_neg hstate]
  | handleWrite w =>
    refine ⟨out.shutdownCalled, id, ?_⟩
    rw [call, handleWrite, hwriting, if_neg Bool.false_ne_true]
    rfl

theorem call_session {out o : Session} {r : TcpConnection × List Effect} {ev : OutputStream.Event}
    (h : call out ev = some (o, r)) :
    o.accepted = out.accepted ∧ o.halfCloses = out.halfCloses := by
  cases ev with
  | send data w =>
    rw [call, Option.some.injEq, Prod.mk.injEq] at h
    rw [← h.1]
    split_ifs <;> exact ⟨rfl, rfl⟩
  | shutdown =>
    rw [call, Option.some.injEq, Prod.mk.injEq] at h
    rw [← h.1]
    exact ⟨rfl, rfl⟩
  | handleWrite w =>
    obtain ⟨c, -, hc⟩ := Option.map_eq_some_iff.mp h
    rw [Prod.mk.injEq] at hc
    rw [← hc.1]
    exact ⟨rfl, rfl⟩

/-- The session of a connection after `handleClose`. -/
structure Ended (out : Session) : Prop where
  state : out.conn.state = .kDisconnected
  stream : out.accepted ++ out.conn.outputBuffer.readable = out.sent
  events : out.conn.channel.events = kNoneEvent
  halfCloses : out.halfCloses = [] ∨
    out.conn.outputBuffer.readable = [] ∧ out.halfCloses = [⟨true, []⟩]

theorem Ended.isWriting {out : Session} (h : Ended out) :
    out.conn.channel.isWriting = false := by
  rw [Channel.isWriting, h.events]
  rfl

theorem Ended.quiet {out : Session} (h : Ended out) : Quiet out := by
  constructor
  · rw [h.state]
    decide
  · exact h.isWriting

theorem not_disconnected {out : Session} (h : Intact out) : out.conn.state ≠ .kDisconnected := by
  rcases h.phase with ⟨hc, -⟩ | ⟨hd, -⟩
  · rw [hc]
    decide
  · rw [hd]
    decide

theorem quiet_of_halfCloses {out : Session} (h : Intact out) (hclose : out.halfCloses ≠ []) :
    Quiet out := by
  rcases h.phase with ⟨-, hnone⟩ | ⟨hd, -, ⟨-, hnone⟩ | ⟨hb, -⟩⟩
  · exact absurd hnone hclose
  · exact absurd hnone hclose
  · constructor
    · rw [hd]
      decide
    · exact (isWriting_eq_false_iff h).mpr hb

/-- A connection is open, and its socket too, or it has run `handleClose`. -/
def Sound (e : Endpoint) : Prop := (Intact e.out ∧ e.destroyed = false) ∨ Ended e.out

theorem Sound.quiet {e : Endpoint} (h : Sound e)
    (hend : e.out.halfCloses ≠ [] ∨ e.destroyed = true) : Quiet e.out := by
  rcases h with ⟨hopen, hd⟩ | hended
  · rcases hend with hclose | hdestroyed
    · exact quiet_of_halfCloses hopen hclose
    · rw [hd] at hdestroyed
      exact absurd hdestroyed Bool.false_ne_true
  · exact hended.quiet

theorem Sound.ended {e : Endpoint} (h : Sound e) (hc : e.Closed) : Ended e.out := by
  rcases h with ⟨hopen, -⟩ | hended
  · exact absurd hc (not_disconnected hopen)
  · exact hended

theorem established_sound (sockfd : ℕ) : Sound (.established sockfd) :=
  Or.inl ⟨established_intact sockfd, rfl⟩

theorem call_intact {out : Session} (h : Intact out) {ev : OutputStream.Event}
    (hw : Answers out false ev) :
    ∃ o r, call out ev = some (o, r) ∧ Intact (settle o r) := by
  have hwrites : Writes out ev := by
    cases ev with
    | send data w => exact ⟨hw.1, hw.2 rfl⟩
    | shutdown => trivial
    | handleWrite w => exact ⟨hw.1, hw.2 rfl⟩
  obtain ⟨t, ht, hI⟩ := step_intact out ev h hwrites
  rw [step_eq_call] at ht
  obtain ⟨⟨o, r⟩, hcall, rfl⟩ := Option.map_eq_some_iff.mp ht
  exact ⟨o, r, hcall, hI⟩

/-- What the socket of `snd` accepted is at `rcv` or in flight, and the pipe ends when `snd` has
half-closed or closed its socket. A closed `rcv` has read all, and one of the two was the first to
half-close. -/
structure Joined (snd rcv : Endpoint) (p : Pipe) : Prop where
  stream : snd.out.accepted = rcv.received ++ p.inFlight
  fin : p.fin = true ↔ snd.out.halfCloses ≠ [] ∨ snd.destroyed = true
  read : rcv.Closed → p = ⟨[], true⟩
  first : rcv.Closed → snd.out.halfCloses ≠ [] ∨ rcv.out.halfCloses ≠ []

theorem foldl_accepted {out : Session} {p : Pipe} {received : Bytes}
    (h : out.accepted = received ++ p.inFlight) (effects : List Effect) :
    (effects.foldl OutputStream.apply out).accepted =
      received ++ (effects.foldl Pipe.apply p).inFlight := by
  induction effects generalizing out p with
  | nil => exact h
  | cons effect effects ih =>
    apply ih
    cases effect with
    | write bytes =>
      change out.accepted ++ bytes = received ++ (p.inFlight ++ bytes)
      rw [h, List.append_assoc]
    | _ => exact h

theorem foldl_fin {out : Session} {p : Pipe} {gone : Prop}
    (h : p.fin = true ↔ out.halfCloses ≠ [] ∨ gone) (effects : List Effect) :
    (effects.foldl Pipe.apply p).fin = true ↔
      (effects.foldl OutputStream.apply out).halfCloses ≠ [] ∨ gone := by
  induction effects generalizing out p with
  | nil => exact h
  | cons effect effects ih =>
    apply ih
    cases effect with
    | shutdownWrite pending =>
      exact iff_of_true rfl (Or.inl (List.append_ne_nil_of_right_ne_nil _ (List.cons_ne_nil _ _)))
    | _ => exact h

theorem Joined.perform {snd rcv : Endpoint} {p : Pipe} (h : Joined snd rcv p) {o : Session}
    (haccepted : o.accepted = snd.out.accepted) (hclose : o.halfCloses = snd.out.halfCloses)
    {r : TcpConnection × List Effect} (hquiet : p.fin = true → r.2 = []) :
    Joined { snd with out := settle o r } rcv (r.2.foldl Pipe.apply p) := by
  have hstream : { o with conn := r.1 }.accepted = rcv.received ++ p.inFlight :=
    haccepted.trans h.stream
  have hfin : p.fin = true ↔ { o with conn := r.1 }.halfCloses ≠ [] ∨ snd.destroyed = true := by
    change p.fin = true ↔ o.halfCloses ≠ [] ∨ snd.destroyed = true
    rw [hclose, h.fin]
  refine ⟨foldl_accepted hstream r.2, foldl_fin hfin r.2, ?_, ?_⟩
  · intro hc
    have hp := h.read hc
    rw [hquiet (by rw [hp]), hp]
    rfl
  · intro hc
    have hp := h.read hc
    rw [settle, hquiet (by rw [hp]), List.foldl_nil]
    change o.halfCloses ≠ [] ∨ rcv.out.halfCloses ≠ []
    rw [hclose]
    exact h.first hc

theorem Joined.sender {snd rcv e : Endpoint} {p : Pipe} (h : Joined snd rcv p)
    (haccepted : e.out.accepted = snd.out.accepted)
    (hclose : e.out.halfCloses = snd.out.halfCloses) (hgone : e.destroyed = snd.destroyed) :
    Joined e rcv p where
  stream := by rw [haccepted, h.stream]
  fin := by rw [hclose, hgone, h.fin]
  read := h.read
  first := by
    rw [hclose]
    exact h.first

theorem Joined.keep {snd rcv e : Endpoint} {p : Pipe} (h : Joined snd rcv p)
    (hreceived : e.received = rcv.received) (hc : e.Closed → rcv.Closed)
    (hclose : rcv.out.halfCloses ≠ [] → e.out.halfCloses ≠ []) : Joined snd e p where
  stream := by rw [hreceived, h.stream]
  fin := h.fin
  read he := h.read (hc he)
  first he := (h.first (hc he)).imp_right hclose

theorem Joined.receive {snd rcv e : Endpoint} {p : Pipe} (h : Joined snd rcv p) {data : Bytes}
    (hdelivered : data <+: p.inFlight) (hreceived : e.received = rcv.received ++ data)
    (hopen : ¬ e.Closed) :
    Joined snd e { p with inFlight := p.inFlight.drop data.length } where
  stream := by
    obtain ⟨rest, hrest⟩ := hdelivered
    rw [hreceived, h.stream, ← hrest, List.drop_left, List.append_assoc]
  fin := h.fin
  read he := absurd he hopen
  first he := absurd he hopen

theorem Joined.close {snd rcv e : Endpoint} {p : Pipe} (h : Joined snd rcv p)
    (hp : p = ⟨[], true⟩) (hreceived : e.received = rcv.received)
    (hfirst : snd.out.halfCloses ≠ [] ∨ e.out.halfCloses ≠ []) : Joined snd e p where
  stream := by rw [hreceived, h.stream]
  fin := h.fin
  read _ := hp
  first _ := hfirst

theorem Joined.destroy {snd rcv : Endpoint} {p : Pipe} (h : Joined snd rcv p) :
    Joined { snd with destroyed := true } rcv { p with fin := true } where
  stream := h.stream
  fin := iff_of_true rfl (Or.inr rfl)
  read hc := by rw [h.read hc]
  first := h.first

structure Inv (s : State) : Prop where
  sound : ∀ side, Sound (s.ends side)
  joined : ∀ side, Joined (s.ends side) (s.ends side.peer) (s.pipes side)

theorem established_inv (sockfd : Side → ℕ) : Inv (.established sockfd) where
  sound side := established_sound (sockfd side)
  joined side := by
    have hopen : ¬ (Endpoint.established (sockfd side.peer)).Closed :=
      not_disconnected (established_intact (sockfd side.peer))
    have hfin : ((State.established sockfd).pipes side).fin = true ↔
        ((State.established sockfd).ends side).out.halfCloses ≠ [] ∨
          ((State.established sockfd).ends side).destroyed = true :=
      iff_of_false Bool.false_ne_true (not_or.mpr ⟨not_not.mpr rfl, Bool.false_ne_true⟩)
    exact ⟨rfl, hfin, fun hc => absurd hc hopen, fun hc => absurd hc hopen⟩

theorem Inv.put {s : State} (h : Inv s) (side : Side) {e : Endpoint} {outgoing incoming : Pipe}
    (hsound : Sound e) (hout : Joined e (s.ends side.peer) outgoing)
    (hin : Joined (s.ends side.peer) e incoming) : Inv (s.put side e outgoing incoming) := by
  have hself : (s.put side e outgoing incoming).ends side = e := Function.update_self ..
  have hpeer : (s.put side e outgoing incoming).ends side.peer = s.ends side.peer :=
    Function.update_of_ne (Side.peer_ne side) ..
  have hpself : (s.put side e outgoing incoming).pipes side = outgoing :=
    (Function.update_of_ne (Side.peer_ne side).symm ..).trans (Function.update_self ..)
  have hppeer : (s.put side e outgoing incoming).pipes side.peer = incoming :=
    Function.update_self ..
  constructor
  · intro x
    rcases Side.eq_or_eq_peer x side with rfl | rfl
    · rw [hself]
      exact hsound
    · rw [hpeer]
      exact h.sound side.peer
  · intro x
    rcases Side.eq_or_eq_peer x side with rfl | rfl
    · rw [hself, hpeer, hpself]
      exact hout
    · rw [hpeer, Side.peer_peer, hself, hppeer]
      exact hin

theorem Sound.closed_of_gone {e : Endpoint} (h : Sound e) (hgone : e.destroyed = true) :
    e.Closed := by
  rcases h with ⟨-, halive⟩ | hended
  · rw [hgone] at halive
    exact absurd halive.symm Bool.false_ne_true
  · exact hended.state

theorem Inv.quiet_of_gone {s : State} (h : Inv s) {side : Side}
    (hgone : (s.ends side.peer).destroyed = true) : Quiet (s.ends side).out := by
  apply (h.sound side).quiet
  apply (h.joined side).fin.mp
  rw [(h.joined side).read ((h.sound side.peer).closed_of_gone hgone)]

theorem settle_conn (o : Session) (r : TcpConnection × List Effect) :
    (settle o r).conn = r.1 := by
  suffices h : ∀ effects : List Effect, ∀ out : Session,
      (effects.foldl OutputStream.apply out).conn = out.conn from h r.2 _
  intro effects
  induction effects with
  | nil => exact fun _ => rfl
  | cons effect effects ih =>
    intro out
    rw [List.foldl_cons, ih]
    cases effect <;> rfl

theorem halfCloses_settle {o : Session} (h : o.halfCloses ≠ []) (r : TcpConnection × List Effect) :
    (settle o r).halfCloses ≠ [] := by
  suffices hfold : ∀ effects : List Effect, ∀ out : Session, out.halfCloses ≠ [] →
      (effects.foldl OutputStream.apply out).halfCloses ≠ [] from hfold r.2 _ h
  intro effects
  induction effects with
  | nil => exact fun _ h => h
  | cons effect effects ih =>
    intro out hout
    apply ih
    cases effect with
    | shutdownWrite pending => exact List.append_ne_nil_of_right_ne_nil _ (List.cons_ne_nil _ _)
    | _ => exact hout

theorem Sound.idle {e : Endpoint} (h : Sound e) (hq : Quiet e.out) {b : Bool}
    (hb : e.out.shutdownCalled = true → b = true) :
    Sound { e with out := settle { e.out with shutdownCalled := b } (e.out.conn, []) } := by
  rcases h with ⟨hopen, halive⟩ | hended
  · left
    refine ⟨⟨hopen.stream, hopen.interest, ?_⟩, halive⟩
    rcases hopen.phase with ⟨hc, -⟩ | ⟨hd, hcalled, hphase⟩
    · exact absurd hc hq.1
    · exact Or.inr ⟨hd, hb hcalled, hphase⟩
  · exact Or.inr ⟨hended.state, hended.stream, hended.events, hended.halfCloses⟩

/-- A call succeeds and keeps the connection sound. Behind the end of its stream it does nothing,
and it never closes the connection. -/
theorem Inv.call {s : State} (h : Inv s) (side : Side) {ev : OutputStream.Event}
    (hw : Answers (s.ends side).out (s.ends side.peer).destroyed ev) :
    ∃ o r, call (s.ends side).out ev = some (o, r) ∧
      Sound { s.ends side with out := settle o r } ∧
      ((s.pipes side).fin = true → r.2 = []) ∧
      (r.1.state = .kDisconnected → (s.ends side).Closed) := by
  by_cases hq : Quiet (s.ends side).out
  · obtain ⟨b, hb, hcall⟩ := call_of_quiet hq ev
    exact ⟨_, _, hcall, (h.sound side).idle hq hb, fun _ => rfl, id⟩
  · have halive : (s.ends side.peer).destroyed = false := by
      by_contra hgone
      exact hq (h.quiet_of_gone (Bool.not_eq_false _ ▸ hgone))
    rcases h.sound side with ⟨hopen, hself⟩ | hended
    · rw [halive] at hw
      obtain ⟨o, r, hcall, hI⟩ := call_intact hopen hw
      refine ⟨o, r, hcall, Or.inl ⟨hI, hself⟩, ?_, ?_⟩
      · intro hfin
        exact absurd ((h.sound side).quiet ((h.joined side).fin.mp hfin)) hq
      · intro hc
        rw [← settle_conn o r] at hc
        exact absurd hc (not_disconnected hI)
    · exact absurd hended.quiet hq

theorem handleClose_ended {out : Session} (h : Intact out) :
    ∃ r, out.conn.handleClose = some r ∧ Ended (settle out r) ∧
      (settle out r).accepted = out.accepted ∧ (settle out r).halfCloses = out.halfCloses ∧
      ∀ p : Pipe, r.2.foldl Pipe.apply p = p := by
  have hstate : out.conn.state = .kConnected ∨ out.conn.state = .kDisconnecting :=
    h.phase.imp And.left And.left
  refine ⟨_, if_pos hstate, ⟨rfl, h.stream, rfl, ?_⟩, rfl, rfl, fun _ => rfl⟩
  rcases h.phase with ⟨-, hnone⟩ | ⟨-, -, ⟨-, hnone⟩ | hdone⟩
  · exact Or.inl hnone
  · exact Or.inl hnone
  · exact Or.inr hdone

theorem Sound.open_of_reads {e : Endpoint} (h : Sound e)
    (hreads : e.out.conn.channel.events.has kReadEvent = true) :
    Intact e.out ∧ e.destroyed = false := by
  rcases h with hopen | hended
  · exact hopen
  · rw [hended.events] at hreads
    exact absurd hreads Bool.false_ne_true

theorem Inv.handleRead {s : State} (h : Inv s) {side : Side} {r : ReadvResult}
    (hP : Possible s (.handleRead side r)) :
    ∃ t, step s (.handleRead side r) = some t ∧ Inv t := by
  obtain ⟨hreads, hdelivered, -, heof⟩ := hP
  obtain ⟨hopen, halive⟩ := (h.sound side).open_of_reads hreads
  have hout := h.joined side
  have hin := h.joined side.peer
  rw [Side.peer_peer] at hin
  have hreport := ValidBuffer.readFd_fst (s.ends side).inputBuffer r
  have hreadable := ValidBuffer.readable_readFd (s.ends side).inputBuffer r
  rw [step]
  generalize (s.ends side).inputBuffer.readFd r = result at hreport hreadable ⊢
  obtain ⟨⟨n, err⟩, buf⟩ := result
  simp only at hreport hreadable ⊢
  have hreceived : (s.ends side).consumed ++ buf.readable = (s.ends side).received ++ r.bytes := by
    rw [hreadable, Endpoint.received, List.append_assoc]
  by_cases hn : n = 0
  · have hempty : r = .got [] := by
      cases r with
      | got data =>
        have hlen : n = data.length := congrArg Prod.fst hreport
        rw [List.length_eq_zero_iff.mp (by omega : data.length = 0)]
      | failed errno =>
        have hneg : n = -1 := congrArg Prod.fst hreport
        omega
    obtain ⟨hflight, hfin⟩ := heof hempty
    obtain ⟨c, hclose, hended, haccepted, hhalf, hpipe⟩ := handleClose_ended hopen
    rw [hempty, ReadvResult.bytes, List.append_nil] at hreceived
    rw [if_pos hn, hclose]
    refine ⟨_, rfl, h.put side (Or.inr hended) ?_ ?_⟩
    · rw [hpipe]
      exact hout.sender haccepted hhalf rfl
    · rw [hempty, ReadvResult.bytes, List.length_nil, List.drop_zero]
      apply hin.close
      · rw [← hflight, ← hfin]
      · exact hreceived
      · -- the end was set by a half-close, or by the destructor of a peer that closed before
        rcases hin.fin.mp hfin with hpeer | hgone
        · exact Or.inl hpeer
        · have hfirst := hout.first ((h.sound side.peer).closed_of_gone hgone)
          rw [← hhalf] at hfirst
          exact hfirst.symm
  · rw [if_neg hn]
    refine ⟨_, rfl, h.put side (Or.inl ⟨hopen, halive⟩) ?_ ?_⟩
    · exact hout.sender rfl rfl rfl
    · exact hin.receive hdelivered hreceived (not_disconnected hopen)

theorem step_inv (s : State) (ev : Event) (h : Inv s) (hP : Possible s ev) :
    ∃ t, step s ev = some t ∧ Inv t := by
  cases ev with
  | output side ev =>
    obtain ⟨o, r, hcall, hsound, hquiet, hclosed⟩ := h.call side hP
    obtain ⟨haccepted, hhalf⟩ := call_session hcall
    refine ⟨_, by rw [step, hcall]; rfl, h.put side hsound ?_ ?_⟩
    · exact (h.joined side).perform haccepted hhalf hquiet
    · have hin := h.joined side.peer
      rw [Side.peer_peer] at hin
      apply hin.keep
      · rfl
      · intro hc
        apply hclosed
        rw [← settle_conn o r]
        exact hc
      · intro hne
        rw [← hhalf] at hne
        exact halfCloses_settle hne r
  | handleRead side r => exact h.handleRead hP
  | retrieve side n =>
    have hle : n ≤ (s.ends side).inputBuffer.readable.length := by
      rw [ValidBuffer.length_readable]
      exact hP
    obtain ⟨rest, hrest, hreadable⟩ := (s.ends side).inputBuffer.retrieve_of_le hle
    have hout := h.joined side
    have hin := h.joined side.peer
    rw [Side.peer_peer] at hin
    rw [step, hrest]
    refine ⟨_, rfl, h.put side (h.sound side) ?_ ?_⟩
    · exact hout.sender rfl rfl rfl
    · apply hin.keep
      · change (s.ends side).consumed ++ (s.ends side).inputBuffer.readable.take n ++
          rest.readable = (s.ends side).consumed ++ (s.ends side).inputBuffer.readable
        rw [hreadable, List.append_assoc, List.take_append_drop]
      · exact id
      · exact id
  | destroy side =>
    have hin := h.joined side.peer
    rw [Side.peer_peer] at hin
    have hended := (h.sound side).ended hP
    exact ⟨_, rfl, h.put side (Or.inr hended) (h.joined side).destroy (hin.keep rfl id id)⟩

theorem Sound.stream {e : Endpoint} (h : Sound e) : e.out.accepted ++ e.pending = e.out.sent := by
  rcases h with ⟨hopen, -⟩ | hended
  · exact hopen.stream
  · exact hended.stream

theorem Sound.halfCloses {e : Endpoint} (h : Sound e) (hclose : e.out.halfCloses ≠ []) :
    e.pending = [] ∧ e.out.halfCloses = [⟨true, []⟩] := by
  rcases h with ⟨hopen, -⟩ | hended
  · rcases hopen.phase with ⟨-, hnone⟩ | ⟨-, -, ⟨-, hnone⟩ | hdone⟩
    · exact absurd hnone hclose
    · exact absurd hnone hclose
    · exact hdone
  · exact hended.halfCloses.resolve_left hclose

/-- No assertion fails in any run of the two connections, and in every state that it reaches, what a
side has sent while connected is what the other has received, what is in flight and what waits in
the output buffer, one behind the other. Nothing is in flight to a closed connection. What waits in
the output buffer of a closed connection is lost, and then its peer had half-closed before, after
`shutdown()` and with nothing of its own left to send. -/
theorem streams_between (sockfd : Side → ℕ) {events : List Event}
    (h : Along step Possible (.established sockfd) events) :
    ∃ s, runFrom step (.established sockfd) events = some s ∧ ∀ side,
      (s.ends side).out.sent =
        (s.ends side.peer).received ++ (s.pipes side).inFlight ++ (s.ends side).pending ∧
      ((s.ends side.peer).Closed → (s.pipes side).inFlight = []) ∧
      ((s.ends side).Closed → (s.ends side).pending ≠ [] →
        (s.ends side.peer).out.halfCloses = [⟨true, []⟩] ∧ (s.ends side.peer).pending = []) := by
  obtain ⟨s, hs, hI⟩ := runFrom_progress step_inv (established_inv sockfd) h
  refine ⟨s, hs, fun side => ⟨?_, ?_, ?_⟩⟩
  · rw [← (hI.sound side).stream, (hI.joined side).stream]
  · intro hc
    rw [(hI.joined side).read hc]
  · intro hc hlost
    have hpeer : (s.ends side.peer).out.halfCloses ≠ [] := by
      have hfirst := (hI.joined side.peer).first
      rw [Side.peer_peer] at hfirst
      rcases hfirst hc with hpeer | hself
      · exact hpeer
      · exact absurd ((hI.sound side).halfCloses hself).1 hlost
    exact ((hI.sound side.peer).halfCloses hpeer).symm

/-- The client asks, the server answers and shuts down with a part of its answer still waiting, and
what the client goes on sending is lost. -/
def sampleRun : List Event :=
  [.output .client (.send [1, 2, 3] ⟨2, .EWOULDBLOCK⟩), .handleRead .server (.got [1]),
   .output .client (.handleWrite ⟨1, .EWOULDBLOCK⟩), .handleRead .server (.failed 11),
   .handleRead .server (.got [2, 3]), .retrieve .server 3,
   .output .server (.send [7, 8, 9] ⟨1, .EWOULDBLOCK⟩), .output .server .shutdown,
   .output .client (.send [4, 5] ⟨0, .EWOULDBLOCK⟩),
   .output .server (.handleWrite ⟨2, .EWOULDBLOCK⟩), .handleRead .client (.got [7, 8, 9]),
   .handleRead .client (.got []), .destroy .client, .handleRead .server (.got []),
   .output .server (.handleWrite ⟨-1, .EPIPE⟩), .destroy .server]

theorem sampleRun_streams_between : Along step Possible (.established fun _ => 7) sampleRun ∧
    ∃ s, runFrom step (.established fun _ => 7) sampleRun = some s ∧ ∀ side,
      (s.ends side).out.sent =
        (s.ends side.peer).received ++ (s.pipes side).inFlight ++ (s.ends side).pending ∧
      ((s.ends side.peer).Closed → (s.pipes side).inFlight = []) ∧
      ((s.ends side).Closed → (s.ends side).pending ≠ [] →
        (s.ends side.peer).out.halfCloses = [⟨true, []⟩] ∧ (s.ends side.peer).pending = []) := by
  have h : Along step Possible (.established fun _ => 7) sampleRun := by decide +kernel
  exact ⟨h, streams_between (fun _ => 7) h⟩

end Matelib.Duplex
