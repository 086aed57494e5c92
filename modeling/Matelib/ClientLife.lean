import Matelib.ConnectRetry
import Matelib.Transition

/-!
# The life of a client

The client owns its connection from the start, and so do the functors with `connectionDestroyed`
that wait in the loop; the last owner to go destroys the connection, which closes the socket.
A client that gives up closes the socket too. The callbacks of timers and of the connection know
the client by its address only: a step that would touch a client that is gone has no successor.
-/

namespace Matelib.TcpClient

open Transition

structure Life where
  client : TcpClient
  alive : Bool
  repetitions : ℕ
  functors : ℕ
  freed : Bool
  effects : List Effect
  deriving DecidableEq

inductive Event where
  | connect (savedError : SavedError)
  | repetition (savedError : SavedError)
  | send (data : Bytes) (w : TcpConnection.WriteResult)
  | shutdown
  | handleWrite (w : TcpConnection.WriteResult)
  | handleClose
  | connectionDestroyed
  | destroy
  deriving DecidableEq

namespace Life

def init (c : TcpClient) : Life := ⟨c, true, 0, 0, false, []⟩

/-- What a function of the client leaves: repetitions in the timer queue, and functors. -/
def after (s : Life) (r : TcpClient × List Effect) : Life :=
  { s with
    client := r.1
    repetitions := s.repetitions + (delays r.2).length
    functors := s.functors + r.2.count .queueConnectionDestroyed
    effects := s.effects ++ r.2 }

/-- `~TcpConnection`, when nothing owns the connection any more. -/
def release (s : Life) : Life :=
  if s.alive = false ∧ s.functors = 0 then
    { s with freed := true, effects := s.effects ++ [.close s.client.conn.channel.fd] }
  else s

def step (s : Life) : Event → Option Life
  | .connect savedError =>
    if s.alive then
      let r := s.client.connect savedError
      some (s.after (r.1, r.2.2))
    else none
  | .repetition savedError =>
    if s.alive ∧ 0 < s.repetitions then
      let r := s.client.connect savedError
      some ({ s with repetitions := s.repetitions - 1 }.after (r.1, r.2.2))
    else none
  | .send data w => if s.alive then some (s.after (s.client.send data w)) else none
  | .shutdown => if s.alive then some (s.after s.client.shutdown) else none
  | .handleWrite w => if s.alive then (s.client.handleWrite w).map s.after else none
  | .handleClose => if s.alive then s.client.handleClose.map s.after else none
  | .connectionDestroyed =>
    -- only a connection that is still up calls the client back
    if 0 < s.functors ∧ (s.alive = true ∨ s.client.conn.state ≠ .kConnected) then
      some ({ s with functors := s.functors - 1 }.after s.client.connectionDestroyed).release
    else none
  | .destroy => if s.alive then some { s with alive := false }.release else none

def closes (s : Life) (sockfd : ℕ) : ℕ := s.effects.count (.close sockfd)

end Life

def Persists (c : TcpClient) (savedError : SavedError) : Prop :=
  c.connectTimes < maxRetryTimes ∧ (savedError.succeeds = true ∨ savedError.retries = true)

instance (c : TcpClient) (savedError : SavedError) : Decidable (c.Persists savedError) :=
  inferInstanceAs (Decidable (_ ∧ _))

def Has (c : TcpClient) (sockfd : ℕ) : Prop := c.sockfd = sockfd ∧ c.conn.channel.fd = sockfd

/-- A function leaves the descriptor where it is and closes it a number of times. -/
def Keeps (sockfd : ℕ) (r : TcpClient × List Effect) (closes : ℕ) : Prop :=
  r.1.Has sockfd ∧ r.2.count (.close sockfd) = closes

variable {c : TcpClient} {sockfd : ℕ}

theorem Keeps.cons {r : TcpClient × List Effect} {closes : ℕ} (h : Keeps sockfd r closes)
    {effect : Effect} (hclose : effect ≠ .close sockfd) :
    Keeps sockfd (r.1, effect :: r.2) closes :=
  ⟨h.1, (List.count_cons_of_ne hclose).trans h.2⟩

theorem report_close (c : TcpClient) (sockfd : ℕ) : c.report.count (.close sockfd) = 0 := by
  rw [report]
  cases c.connectionCallback <;> rfl

theorem settle_keeps (h : c.Has sockfd) (effects : List TcpConnection.Effect) :
    Keeps sockfd (c.settle effects) 0 := by
  induction effects generalizing c with
  | nil => exact ⟨h, rfl⟩
  | cons effect effects ih =>
    cases effect with
    | connectionCallback connected =>
      obtain ⟨hhas, hcount⟩ := ih (c := (c.onConnection connected).1) h
      refine ⟨hhas, ?_⟩
      change List.count _ (_ ++ _) = 0
      rw [List.count_append, hcount]
      exact report_close _ _
    | cleanupCallback =>
      obtain ⟨hhas, hcount⟩ := ih h
      refine ⟨hhas, ?_⟩
      change List.count _ (_ ++ _) = 0
      rw [List.count_append, hcount, onCleanup]
      cases c.cleanupCallback <;> rfl
    | update events => exact (ih h).cons nofun
    | write accepted => exact (ih h).cons nofun
    | shutdownWrite pending => exact (ih h).cons nofun
    | remove => exact (ih h).cons nofun

theorem has_of_conn (h : c.Has sockfd) {conn : TcpConnection}
    (hconn : conn.channel.fd = c.conn.channel.fd) : Has { c with conn := conn } sockfd :=
  ⟨h.1, hconn.trans h.2⟩

theorem initConnection_keeps (h : c.Has sockfd) :
    Keeps sockfd (c.initConnection.1, c.initConnection.2.2) 0 :=
  Keeps.cons (settle_keeps (c := { c with
    connectTimes := 0, conn := c.conn.connectionEstablished.1 }) h _) nofun

theorem giveUp_keeps (h : c.Has sockfd) : Keeps sockfd (c.giveUp.1, c.giveUp.2.2) 1 := by
  refine ⟨h, ?_⟩
  change (Effect.close c.sockfd :: _).count _ = 1
  rw [h.1, List.count_cons_self, report_close]

theorem connect_keeps (h : c.Has sockfd) (savedError : SavedError) :
    Keeps sockfd ((c.connect savedError).1, (c.connect savedError).2.2)
      (if c.Persists savedError then 0 else 1) := by
  have hattempted : c.attempted.Has sockfd := h
  by_cases hc : c.connectTimes < maxRetryTimes
  · rw [connect_of_lt hc]
    refine Keeps.cons (r := ((c.attempted.answer savedError).1, _)) ?_ nofun
    cases hs : savedError.succeeds with
    | true =>
      rw [answer_success hs, if_pos ⟨hc, .inl hs⟩]
      exact initConnection_keeps hattempted
    | false =>
      cases hr : savedError.retries with
      | true =>
        rw [answer_retry hr, if_pos ⟨hc, .inr hr⟩]
        exact ⟨h, rfl⟩
      | false =>
        rw [answer_fatal hs hr, if_neg (by simp [Persists, hs, hr])]
        exact giveUp_keeps hattempted
  · rw [connect_exhausted (not_lt.mp hc), if_neg (fun hp => hc hp.1)]
    exact giveUp_keeps hattempted

theorem send_keeps (h : c.Has sockfd) (data : Bytes) (w : TcpConnection.WriteResult) :
    Keeps sockfd (c.send data w) 0 := by
  refine settle_keeps (has_of_conn h ?_) _
  rw [TcpConnection.send, TcpConnection.sendInThread]
  split_ifs
  · rfl
  · dsimp only
    split_ifs <;> rfl
  · rfl

theorem shutdown_keeps (h : c.Has sockfd) : Keeps sockfd c.shutdown 0 := by
  have hconn : c.conn.shutdown.1.channel.fd = c.conn.channel.fd := by
    rw [TcpConnection.shutdown]
    split_ifs <;> rfl
  exact settle_keeps (c := { c with state := .kDisconnected, conn := c.conn.shutdown.1 })
    ⟨h.1, hconn.trans h.2⟩ _

theorem handleWrite_keeps (h : c.Has sockfd) {w : TcpConnection.WriteResult}
    {r : TcpClient × List Effect} (hr : c.handleWrite w = some r) : Keeps sockfd r 0 := by
  obtain ⟨⟨conn, effects⟩, hconn, rfl⟩ := Option.map_eq_some_iff.mp hr
  refine settle_keeps (has_of_conn h ?_) _
  change conn.channel.fd = _
  rw [TcpConnection.handleWrite] at hconn
  split_ifs at hconn
  · obtain ⟨rest, -, hrest⟩ := Option.map_eq_some_iff.mp hconn
    dsimp only at hrest
    split_ifs at hrest <;> cases hrest <;> rfl
  · cases hconn
    rfl
  · cases hconn
    rfl

theorem handleClose_keeps (h : c.Has sockfd) {r : TcpClient × List Effect}
    (hr : c.handleClose = some r) : Keeps sockfd r 0 := by
  obtain ⟨⟨conn, effects⟩, hconn, rfl⟩ := Option.map_eq_some_iff.mp hr
  refine settle_keeps (has_of_conn h ?_) _
  change conn.channel.fd = _
  rw [TcpConnection.handleClose] at hconn
  split_ifs at hconn
  cases hconn
  rfl

theorem connectionDestroyed_keeps (h : c.Has sockfd) :
    Keeps sockfd c.connectionDestroyed 0 := by
  refine settle_keeps (has_of_conn h ?_) _
  rw [TcpConnection.connectionDestroyed]
  split_ifs <;> rfl

namespace Life

def Persists (s : Life) : Event → Prop
  | .connect savedError | .repetition savedError => s.client.Persists savedError
  | _ => True

instance (s : Life) (e : Event) : Decidable (s.Persists e) := by
  cases e <;> unfold Persists <;> infer_instance

/-- The connection is destroyed exactly when nothing owns it. -/
structure Sound (sockfd : ℕ) (s : Life) : Prop where
  has : s.client.Has sockfd
  freed_iff : s.freed = true ↔ s.alive = false ∧ s.functors = 0

theorem sound_init {c : TcpClient} (h : c.Has sockfd) : Sound sockfd (init c) :=
  ⟨h, iff_of_false nofun fun h => nomatch h.1⟩

theorem closes_after (s : Life) (r : TcpClient × List Effect) (sockfd : ℕ) :
    (s.after r).closes sockfd = s.closes sockfd + r.2.count (.close sockfd) :=
  List.count_append

theorem after_alive {s : Life} (halive : s.alive = true) (hfreed : s.freed = false)
    {r : TcpClient × List Effect} {n : ℕ} (hr : Keeps sockfd r n) :
    Sound sockfd (s.after r) ∧
      (s.after r).closes sockfd = s.closes sockfd + (s.after r).freed.toNat + n := by
  refine ⟨⟨hr.1, ?_⟩, ?_⟩
  · change s.freed = true ↔ s.alive = false ∧ _
    simp [halive, hfreed]
  · rw [closes_after, hr.2]
    change _ = _ + s.freed.toNat + n
    rw [hfreed]
    rfl

theorem release_spec {s : Life} (h : s.client.Has sockfd) (hfreed : s.freed = false) :
    Sound sockfd s.release ∧
      s.release.closes sockfd = s.closes sockfd + s.release.freed.toNat := by
  rw [release]
  split_ifs with hgone
  · refine ⟨⟨h, iff_of_true rfl hgone⟩, ?_⟩
    change List.count _ (_ ++ _) = _
    rw [List.count_append, h.2]
    simp [closes]
  · exact ⟨⟨h, iff_of_false (by simp [hfreed]) hgone⟩, by rw [hfreed]; rfl⟩

theorem step_closes {s t : Life} {e : Event} (h : Sound sockfd s) (ht : s.step e = some t) :
    s.freed = false ∧ Sound sockfd t ∧
      t.closes sockfd = s.closes sockfd + t.freed.toNat + if s.Persists e then 0 else 1 := by
  have hfreed : s.alive = true ∨ 0 < s.functors → s.freed = false := by
    intro howned
    rw [Bool.eq_false_iff, Ne, h.freed_iff]
    rintro ⟨halive, hfunctors⟩
    rcases howned with halive' | hfunctors'
    · rw [halive] at halive'
      cases halive'
    · omega
  cases e with
  | connect savedError =>
    obtain ⟨halive, rfl⟩ := of_guard ht
    have hs := hfreed (.inl halive)
    exact ⟨hs, after_alive halive hs (connect_keeps h.has savedError)⟩
  | repetition savedError =>
    obtain ⟨hdue, rfl⟩ := of_guard ht
    have hs := hfreed (.inl hdue.1)
    exact ⟨hs, after_alive (s := { s with repetitions := s.repetitions - 1 }) hdue.1 hs
      (connect_keeps h.has savedError)⟩
  | send data w =>
    obtain ⟨halive, rfl⟩ := of_guard ht
    have hs := hfreed (.inl halive)
    exact ⟨hs, after_alive halive hs (send_keeps h.has data w)⟩
  | shutdown =>
    obtain ⟨halive, rfl⟩ := of_guard ht
    have hs := hfreed (.inl halive)
    exact ⟨hs, after_alive halive hs (shutdown_keeps h.has)⟩
  | handleWrite w =>
    simp only [step] at ht
    split_ifs at ht with halive
    obtain ⟨r, hr, rfl⟩ := Option.map_eq_some_iff.mp ht
    have hs := hfreed (.inl halive)
    exact ⟨hs, after_alive halive hs (handleWrite_keeps h.has hr)⟩
  | handleClose =>
    simp only [step] at ht
    split_ifs at ht with halive
    obtain ⟨r, hr, rfl⟩ := Option.map_eq_some_iff.mp ht
    have hs := hfreed (.inl halive)
    exact ⟨hs, after_alive halive hs (handleClose_keeps h.has hr)⟩
  | connectionDestroyed =>
    obtain ⟨hqueued, rfl⟩ := of_guard ht
    have hs := hfreed (.inr hqueued.1)
    obtain ⟨hhas, hcount⟩ := connectionDestroyed_keeps h.has
    obtain ⟨hsound, hcloses⟩ := release_spec
      (s := { s with functors := s.functors - 1 }.after s.client.connectionDestroyed) hhas hs
    refine ⟨hs, hsound, ?_⟩
    rw [hcloses, closes_after, hcount]
    rfl
  | destroy =>
    obtain ⟨halive, rfl⟩ := of_guard ht
    have hs := hfreed (.inl halive)
    exact ⟨hs, release_spec (s := { s with alive := false }) h.has hs⟩

/-- The socket is closed once when the connection has been destroyed, and never before. -/
def ClosedByConnection (sockfd : ℕ) (s : Life) : Prop := s.closes sockfd = s.freed.toNat

theorem closedByConnection_step {s t : Life} {e : Event} (h : Sound sockfd s)
    (ht : s.step e = some t) :
    t.ClosedByConnection sockfd ↔ s.ClosedByConnection sockfd ∧ s.Persists e := by
  obtain ⟨hfreed, -, hcloses⟩ := step_closes h ht
  rw [ClosedByConnection, ClosedByConnection, hcloses, hfreed, Bool.toNat_false]
  split_ifs with hpersists <;> simp only [hpersists, and_true, and_false, iff_false] <;> omega

/-- In every run of a client from its construction to the end of its connection, with any results
of `::connect` and any life of the connection, the socket is closed once exactly when no attempt
ends in an error. -/
theorem closes_once_iff_persists (sockfd : ℕ) (retryDelayMs : ℤ) (callback cleanup : Bool)
    (es : List Event) (s : Life)
    (hrun : runFrom step (init { new sockfd retryDelayMs with
      connectionCallback := callback, cleanupCallback := cleanup }) es = some s)
    (hfreed : s.freed = true) :
    s.closes sockfd = 1 ↔
      Along step Persists (init { new sockfd retryDelayMs with
        connectionCallback := callback, cleanupCallback := cleanup }) es := by
  have hend := end_iff_along (A := fun _ _ => True) (I := Sound sockfd)
    (P := ClosedByConnection sockfd) (G := Persists)
    (fun _ _ _ hs _ ht => (step_closes hs ht).2.1)
    (fun _ _ _ hs _ ht => closedByConnection_step hs ht) (sound_init ⟨rfl, rfl⟩)
    (along_true step _ es) hrun
  rw [ClosedByConnection, hfreed] at hend
  refine hend.trans (and_iff_right ?_)
  rfl

/-- Two refused attempts, a connection, a hang-up of the peer and the end of the client. -/
def sampleLife : List Event :=
  [.connect .EINPROGRESS, .repetition .ECONNREFUSED, .repetition .success, .handleClose,
    .connectionDestroyed, .destroy]

theorem sampleLife_closes_once :
    ((runFrom step (init { new 7 500 with connectionCallback := true, cleanupCallback := true })
      sampleLife).get (by decide)).closes 7 = 1 ↔
    Along step Persists (init { new 7 500 with
      connectionCallback := true, cleanupCallback := true }) sampleLife :=
  closes_once_iff_persists 7 500 true true sampleLife _ (Option.some_get _).symm (by decide)

/-- The first attempt fails for good; the client closes the socket, and so does its connection. -/
theorem refused_client_closes_twice :
    (runFrom step (init (new 7 500)) [.connect .EACCES, .destroy]).map
      (fun s => (s.freed, s.closes 7)) = some (true, 2) := by
  decide

end Life

end Matelib.TcpClient
