import Matelib.TcpConnection

/-!
# Integrity of the outgoing stream of a connection

A session records what one connection did to its socket: the bytes that `::write` accepted, the data
passed to `send` while connected, and each half-close with the circumstances in which it was issued.
The invariant `Intact` ties these to the output buffer and to the write interest of the channel;
each operation keeps it for every result that `::write` may return, except `EPIPE`.
-/

namespace Matelib.OutputStream

open TcpConnection Channel Transition

/-- A half-close: whether `shutdown()` had been called before it, and what was still unsent. -/
structure HalfClose where
  requested : Bool
  pending : Bytes
  deriving DecidableEq, Repr

structure Session where
  conn : TcpConnection
  accepted : Bytes
  sent : Bytes
  shutdownCalled : Bool
  halfCloses : List HalfClose
  deriving DecidableEq

inductive Event where
  | send (data : Bytes) (w : WriteResult)
  | shutdown
  | handleWrite (w : WriteResult)
  deriving DecidableEq, Repr

def apply (s : Session) : Effect → Session
  | .write bytes => { s with accepted := s.accepted ++ bytes }
  | .shutdownWrite pending =>
      { s with halfCloses := s.halfCloses ++ [⟨s.shutdownCalled, pending⟩] }
  | .update _ | .connectionCallback _ | .cleanupCallback | .remove => s

def settle (s : Session) (r : TcpConnection × List Effect) : Session :=
  r.2.foldl apply { s with conn := r.1 }

/-- One operation in the loop thread; `none` when an assertion fails. -/
def step (s : Session) : Event → Option Session
  | .send data w =>
      let s' := if s.conn.connected then { s with sent := s.sent ++ data } else s
      some (settle s' (s.conn.send data w))
  | .shutdown => some (settle { s with shutdownCalled := true } s.conn.shutdown)
  | .handleWrite w => (s.conn.handleWrite w).map (settle s)

def established (sockfd : ℕ) : Session :=
  settle ⟨.new sockfd, [], [], false, []⟩ (TcpConnection.new sockfd).connectionEstablished

/-- What `::write` may return in a step: its contract for the bytes offered, and never `EPIPE`. -/
def Writes (s : Session) : Event → Prop
  | .send data w => w.Contract data.length ∧ w.NoPipe
  | .shutdown => True
  | .handleWrite w => w.Contract s.conn.outputBuffer.readableBytes ∧ w.NoPipe

instance (s : Session) : ∀ ev, Decidable (Writes s ev)
  | .send _ _ => inferInstanceAs (Decidable (_ ∧ _))
  | .shutdown => inferInstanceAs (Decidable True)
  | .handleWrite _ => inferInstanceAs (Decidable (_ ∧ _))

/-- The invariant. Before the half-close the connection is open or waits for its buffer to drain;
after it nothing is left to send. -/
structure Intact (s : Session) : Prop where
  stream : s.accepted ++ s.conn.outputBuffer.readable = s.sent
  interest : s.conn.channel.isWriting = true ↔ s.conn.outputBuffer.readable ≠ []
  phase : (s.conn.state = .kConnected ∧ s.halfCloses = []) ∨
    (s.conn.state = .kDisconnecting ∧ s.shutdownCalled = true ∧
      ((s.conn.outputBuffer.readable ≠ [] ∧ s.halfCloses = []) ∨
        (s.conn.outputBuffer.readable = [] ∧ s.halfCloses = [⟨true, []⟩])))

theorem established_intact (sockfd : ℕ) : Intact (established sockfd) where
  stream := by
    change [] ++ ValidBuffer.empty.readable = []
    rw [ValidBuffer.readable_empty, List.nil_append]
  interest := by
    change ((0 ||| kReadEvent : Events).has kWriteEvent = true) ↔ ValidBuffer.empty.readable ≠ []
    rw [ValidBuffer.readable_empty]
    decide
  phase := Or.inl ⟨rfl, rfl⟩

theorem toInt_ret {w : WriteResult} {len : ℕ} (h : w.Contract len) : toInt w.ret = w.ret := by
  apply toInt_eq_self
  · rcases h with h | ⟨h, _, _⟩ <;> omega
  · rcases h with h | ⟨_, _, h⟩
    · omega
    · unfold maxTransfer at h
      omega

theorem no_pipe_error {w : WriteResult} {len : ℕ} (h : w.Contract len) (hpipe : w.NoPipe) :
    (decide (w.ret < 0) && w.errno == .EPIPE) = false := by
  by_cases hneg : w.ret < 0
  · have hne : w.errno ≠ .EPIPE := hpipe (by rcases h with h | ⟨h, _⟩ <;> omega)
    rw [beq_false_of_ne hne, Bool.and_false]
  · rw [decide_eq_false hneg, Bool.false_and]

theorem toNat_ret_le {w : WriteResult} {len : ℕ} (h : w.Contract len) : w.ret.toNat ≤ len := by
  rcases h with h | ⟨_, h, _⟩ <;> omega

theorem sendInThread_direct {c : TcpConnection} (hs : c.state ≠ .kDisconnected)
    (hw : c.channel.isWriting = false) (hb : c.outputBuffer.readable = []) {data : Bytes}
    {w : WriteResult} (hret : w.Contract data.length) (hpipe : w.NoPipe) :
    c.sendInThread data w =
      if w.ret.toNat < data.length then
        ({ c with
            outputBuffer := c.outputBuffer.append (data.drop w.ret.toNat)
            channel := c.channel.enableWriting },
          [.write (data.take w.ret.toNat), .update c.channel.enableWriting.events])
      else (c, [.write data]) := by
  have hempty : c.outputBuffer.readableBytes = 0 := ValidBuffer.readableBytes_eq_zero.mpr hb
  have hrest : (data.drop w.ret.toNat).take (data.length - w.ret.toNat) = data.drop w.ret.toNat :=
    List.take_of_length_le (by rw [List.length_drop])
  simp only [sendInThread, if_neg hs, hw, hempty, toInt_ret hret, hrest, Bool.not_false,
    Bool.true_and, beq_self_eq_true, if_true, no_pipe_error hret hpipe, decide_eq_true_eq,
    Nat.sub_pos_iff_lt]
  split_ifs with hlt
  · rfl
  · rw [List.take_of_length_le (not_lt.mp hlt)]

theorem sendInThread_buffered {c : TcpConnection} (hs : c.state ≠ .kDisconnected)
    (hw : c.channel.isWriting = true) (data : Bytes) (w : WriteResult) :
    c.sendInThread data w =
      (if data = [] then c else { c with outputBuffer := c.outputBuffer.append data }, []) := by
  by_cases hd : data = []
  · simp [sendInThread, hs, hw, hd]
  · have hpos : 0 < data.length := List.length_pos_of_ne_nil hd
    simp [sendInThread, hs, hw, hd, hpos]

theorem isWriting_eq_false_iff {s : Session} (h : Intact s) :
    s.conn.channel.isWriting = false ↔ s.conn.outputBuffer.readable = [] := by
  rw [← Bool.not_eq_true, h.interest, not_not]

/-- A `send` while connected: whatever `::write` returns, the new bytes are split, in order, between
the socket and the output buffer. -/
theorem send_intact {s : Session} (h : Intact s) (hc : s.conn.state = .kConnected)
    (hclose : s.halfCloses = []) {data : Bytes} {w : WriteResult} (hret : w.Contract data.length)
    (hpipe : w.NoPipe) :
    Intact (settle { s with sent := s.sent ++ data } (s.conn.send data w)) := by
  have hs : s.conn.state ≠ .kDisconnected := by rw [hc]; decide
  have hstream := h.stream
  rw [send, if_pos hc]
  by_cases hw : s.conn.channel.isWriting = true
  · have hne := h.interest.mp hw
    rw [sendInThread_buffered hs hw]
    split_ifs with hd
    · subst hd
      refine ⟨?_, h.interest, Or.inl ⟨hc, hclose⟩⟩
      change s.accepted ++ s.conn.outputBuffer.readable = s.sent ++ []
      rw [List.append_nil, hstream]
    · refine ⟨?_, ?_, Or.inl ⟨hc, hclose⟩⟩
      · change s.accepted ++ (s.conn.outputBuffer.append data).readable = s.sent ++ data
        rw [ValidBuffer.readable_append, ← List.append_assoc, hstream]
      · change s.conn.channel.isWriting = true ↔ (s.conn.outputBuffer.append data).readable ≠ []
        rw [ValidBuffer.readable_append]
        exact iff_of_true hw (fun he => hne (List.append_eq_nil_iff.mp he).1)
  · rw [Bool.not_eq_true] at hw
    have hb := (isWriting_eq_false_iff h).mp hw
    rw [hb, List.append_nil] at hstream
    rw [sendInThread_direct hs hw hb hret hpipe]
    split_ifs with hlt
    · refine ⟨?_, ?_, Or.inl ⟨hc, hclose⟩⟩
      · change s.accepted ++ data.take w.ret.toNat ++
          (s.conn.outputBuffer.append (data.drop w.ret.toNat)).readable = s.sent ++ data
        rw [ValidBuffer.readable_append, hb, List.nil_append, List.append_assoc,
          List.take_append_drop, hstream]
      · change s.conn.channel.enableWriting.isWriting = true ↔
          (s.conn.outputBuffer.append (data.drop w.ret.toNat)).readable ≠ []
        rw [ValidBuffer.readable_append, hb, List.nil_append, isWriting_enableWriting]
        exact iff_of_true rfl (fun he => by
          have := congrArg List.length he
          simp only [List.length_drop, List.length_nil] at this
          omega)
    · refine ⟨?_, h.interest, Or.inl ⟨hc, hclose⟩⟩
      change s.accepted ++ data ++ s.conn.outputBuffer.readable = s.sent ++ data
      rw [hb, List.append_nil, hstream]

theorem shutdown_intact {s : Session} (h : Intact s) :
    Intact (settle { s with shutdownCalled := true } s.conn.shutdown) := by
  rcases h.phase with ⟨hc, hclose⟩ | ⟨hd, hcalled, hphase⟩
  · rw [shutdown, if_pos hc]
    by_cases hw : s.conn.channel.isWriting = true
    · refine ⟨?_, ?_, Or.inr ⟨?_, ?_, Or.inl ⟨?_, ?_⟩⟩⟩
      all_goals simp only [shutdownInLoop, hw, Bool.not_true, settle, List.foldl_nil,
        Bool.false_eq_true, if_false]
      · exact h.stream
      · exact iff_of_true trivial (h.interest.mp hw)
      · exact h.interest.mp hw
      · exact hclose
    · rw [Bool.not_eq_true] at hw
      have hb := (isWriting_eq_false_iff h).mp hw
      refine ⟨?_, ?_, Or.inr ⟨?_, ?_, Or.inr ⟨?_, ?_⟩⟩⟩
      all_goals simp only [shutdownInLoop, hw, Bool.not_false, settle, List.foldl_cons,
        List.foldl_nil, apply, if_true]
      · exact h.stream
      · exact iff_of_false Bool.false_ne_true (fun hne => hne hb)
      · exact hb
      · rw [hclose, hb, List.nil_append]
  · have hc : s.conn.state ≠ .kConnected := by rw [hd]; decide
    rw [shutdown, if_neg hc]
    exact ⟨h.stream, h.interest, Or.inr ⟨hd, rfl, hphase⟩⟩

theorem handleWrite_progress {c : TcpConnection} (hw : c.channel.isWriting = true)
    {w : WriteResult} (hret : w.Contract c.outputBuffer.readableBytes) (hpos : 0 < w.ret) :
    ∃ rest, rest.readable = c.outputBuffer.readable.drop w.ret.toNat ∧
      c.handleWrite w =
        if rest.readable = [] then
          let c' := { c with outputBuffer := rest, channel := c.channel.disableWriting }
          some (c',
            [.write (c.outputBuffer.readable.take w.ret.toNat), .update c'.channel.events] ++
            if c.state = .kDisconnecting then [.shutdownWrite []] else [])
        else some ({ c with outputBuffer := rest },
          [.write (c.outputBuffer.readable.take w.ret.toNat)]) := by
  have hle := toNat_ret_le hret
  rw [← ValidBuffer.length_readable] at hle
  obtain ⟨rest, hrest, hdrop⟩ := c.outputBuffer.retrieve_of_le hle
  refine ⟨rest, hdrop, ?_⟩
  rw [handleWrite, if_pos hw]
  simp only [if_pos hpos, hrest, Option.map_some, ValidBuffer.readableBytes_eq_zero]
  by_cases he : rest.readable = []
  · simp only [shutdownInLoop, isWriting_disableWriting, Bool.not_false, if_true, he]
  · simp only [if_neg he]

/-- `handleWrite` moves a prefix of the output buffer to the socket. When that drains the buffer it
drops the write interest, and a half-close that was waiting is issued. Its assertion holds. -/
theorem handleWrite_intact {s : Session} (h : Intact s) {w : WriteResult}
    (hret : w.Contract s.conn.outputBuffer.readableBytes) :
    ∃ t, (s.conn.handleWrite w).map (settle s) = some t ∧ Intact t := by
  by_cases hw : s.conn.channel.isWriting = true
  · have hne := h.interest.mp hw
    have hstream := h.stream
    by_cases hpos : 0 < w.ret
    · obtain ⟨rest, hdrop, heq⟩ := handleWrite_progress hw hret hpos
      have hsplit : s.accepted ++ s.conn.outputBuffer.readable.take w.ret.toNat ++ rest.readable =
          s.sent := by
        rw [hdrop, List.append_assoc, List.take_append_drop, hstream]
      by_cases he : rest.readable = []
      · rw [heq, if_pos he, Option.map_some]
        refine ⟨_, rfl, ?_⟩
        rcases h.phase with ⟨hc, hclose⟩ | ⟨hd, hcalled, ⟨_, hclose⟩ | ⟨hb, _⟩⟩
        · have hnd : s.conn.state ≠ .kDisconnecting := by rw [hc]; decide
          simp only [if_neg hnd, List.append_nil, settle, List.foldl_cons, List.foldl_nil, apply]
          exact ⟨hsplit, iff_of_false (by simp) (not_not.mpr he), Or.inl ⟨hc, hclose⟩⟩
        · simp only [if_pos hd, settle, List.cons_append, List.nil_append, List.foldl_cons,
            List.foldl_nil, apply]
          refine ⟨hsplit, iff_of_false (by simp) (not_not.mpr he),
            Or.inr ⟨hd, hcalled, Or.inr ⟨he, ?_⟩⟩⟩
          rw [hclose, hcalled, List.nil_append]
        · exact absurd hb hne
      · rw [heq, if_neg he, Option.map_some]
        refine ⟨_, rfl, hsplit, iff_of_true hw he, ?_⟩
        rcases h.phase with hopen | ⟨hd, hcalled, ⟨_, hclose⟩ | ⟨hb, _⟩⟩
        · exact Or.inl hopen
        · exact Or.inr ⟨hd, hcalled, Or.inl ⟨he, hclose⟩⟩
        · exact absurd hb hne
    · have hzero : w.ret.toNat = 0 := Int.toNat_of_nonpos (not_lt.mp hpos)
      rw [handleWrite, if_pos hw]
      simp only [if_neg hpos, hzero, List.take_zero]
      refine ⟨_, rfl, ?_, h.interest, h.phase⟩
      change s.accepted ++ [] ++ s.conn.outputBuffer.readable = s.sent
      rw [List.append_nil, hstream]
  · rw [handleWrite, if_neg hw]
    exact ⟨_, rfl, h.stream, h.interest, h.phase⟩

theorem step_intact (s : Session) (ev : Event) (h : Intact s) (hw : Writes s ev) :
    ∃ t, step s ev = some t ∧ Intact t := by
  cases ev with
  | send data w =>
    rcases h.phase with ⟨hc, hclose⟩ | ⟨hd, _⟩
    · refine ⟨_, rfl, ?_⟩
      rw [connected, hc, beq_self_eq_true, if_pos rfl]
      exact send_intact h hc hclose hw.1 hw.2
    · have hc : s.conn.state ≠ .kConnected := by rw [hd]; decide
      refine ⟨s, ?_, h⟩
      rw [step, connected, beq_false_of_ne hc, send, if_neg hc]
      rfl
  | shutdown => exact ⟨_, rfl, shutdown_intact h⟩
  | handleWrite w => exact handleWrite_intact h hw.1

/-- In every run after `connectionEstablished` no assertion fails, and in every state it reaches the
accepted bytes followed by the output buffer are exactly what was sent while connected, the write
interest is on exactly when the output buffer holds something, and at most one half-close has been
issued, after `shutdown()` and with nothing pending. -/
theorem outgoing_stream_intact (sockfd : ℕ) (evs : List Event)
    (h : Along step Writes (established sockfd) evs) :
    ∃ s, runFrom step (established sockfd) evs = some s ∧
      s.accepted ++ s.conn.outputBuffer.readable = s.sent ∧
      (s.conn.channel.isWriting = true ↔ s.conn.outputBuffer.readable ≠ []) ∧
      s.halfCloses.length ≤ 1 ∧ ∀ c ∈ s.halfCloses, c.requested = true ∧ c.pending = [] := by
  obtain ⟨s, hs, hI⟩ := runFrom_progress step_intact (established_intact sockfd) h
  refine ⟨s, hs, hI.stream, hI.interest, ?_⟩
  rcases hI.phase with ⟨_, hclose⟩ | ⟨_, _, ⟨_, hclose⟩ | ⟨_, hclose⟩⟩
  all_goals simp [hclose]

def sampleRun : List Event :=
  [.send [1, 2, 3] ⟨2, .EWOULDBLOCK⟩, .send [4] ⟨0, .EWOULDBLOCK⟩, .shutdown,
    .send [5] ⟨1, .EWOULDBLOCK⟩, .handleWrite ⟨-1, .EWOULDBLOCK⟩, .handleWrite ⟨1, .EWOULDBLOCK⟩,
    .handleWrite ⟨1, .EWOULDBLOCK⟩]

theorem sampleRun_intact : Along step Writes (established 7) sampleRun ∧
    ∃ s, runFrom step (established 7) sampleRun = some s ∧
      s.accepted ++ s.conn.outputBuffer.readable = s.sent ∧
      (s.conn.channel.isWriting = true ↔ s.conn.outputBuffer.readable ≠ []) ∧
      s.halfCloses.length ≤ 1 ∧ ∀ c ∈ s.halfCloses, c.requested = true ∧ c.pending = [] := by
  have h : Along step Writes (established 7) sampleRun := by decide +kernel
  exact ⟨h, outgoing_stream_intact 7 sampleRun h⟩

end Matelib.OutputStream
