import Matelib.HttpFraming
import Matelib.HttpThread
import Matelib.OutputStream

/-!
# HTTP responses on their way out

The connections of one thread with the sockets under them. What `onMessage` sends goes through
`TcpConnection::send` into the socket as far as the kernel takes it, and the rest goes out with
`handleWrite`. Behind any deliveries and writes, a socket has been given the answers to its requests
one behind the other, up to the first that closes.
-/

namespace Matelib.HttpPipeline

open HttpServer Transition TcpConnection

/-- A connection with its input buffer and what it did to its socket. -/
structure Conn where
  inputBuffer : ValidBuffer
  out : OutputStream.Session

def Conn.established (sockfd : ℕ) : Conn := ⟨ValidBuffer.empty, OutputStream.established sockfd⟩

structure State (κ : Type*) where
  ctx : HttpContext
  conns : κ → Conn

/-- `readv` has delivered `data`, and `w` is what `::write` returns for the response. -/
inductive Event (κ : Type*) where
  | read (c : κ) (data : Bytes) (w : WriteResult)
  | handleWrite (c : κ) (w : WriteResult)

variable {κ : Type*}

def State.init (sockfd : κ → ℕ) : State κ := ⟨HttpContext.init, fun c => .established (sockfd c)⟩

def perform (w : WriteResult) (out : OutputStream.Session) : Action → Option OutputStream.Session
  | .callback _ => some out
  | .send data => OutputStream.step out (.send data w)
  | .shutdown => OutputStream.step out .shutdown

variable [DecidableEq κ]

/-- An end of file is no event here. -/
def step (httpCallback : HttpCallback) (s : State κ) : Event κ → Option (State κ)
  | .read c data w =>
    let (n, buf) := (s.conns c).inputBuffer.readFd (.got data)
    if 0 < n.1 then
      (onMessage httpCallback s.ctx buf).bind fun (actions, ctx, rest) =>
        (actions.foldlM (perform w) (s.conns c).out).map fun out =>
          ⟨ctx, Function.update s.conns c ⟨rest, out⟩⟩
    else none
  | .handleWrite c w =>
    (OutputStream.step (s.conns c).out (.handleWrite w)).map fun out =>
      { s with conns := Function.update s.conns c { s.conns c with out := out } }

def text? : Action → Option Bytes
  | .send data => some data
  | _ => none

def texts (httpCallback : HttpCallback) (s : State κ) (c : κ) (data : Bytes) : List Bytes :=
  (onMessage httpCallback s.ctx ((s.conns c).inputBuffer.readFd (.got data)).2).elim []
    fun result => result.1.filterMap text?

/-- The contract of `::write`, for the response or for the output buffer. -/
def Writes (httpCallback : HttpCallback) (s : State κ) : Event κ → Prop
  | .read c data w =>
    ∀ text ∈ texts httpCallback s c data, w.Contract text.length ∧ w.NoPipe
  | .handleWrite c w => OutputStream.Writes (s.conns c).out (.handleWrite w)

instance (httpCallback : HttpCallback) (s : State κ) : ∀ e, Decidable (Writes httpCallback s e)
  | .read _ _ _ => inferInstanceAs (Decidable (∀ text ∈ _, _))
  | .handleWrite c w =>
    inferInstanceAs (Decidable (OutputStream.Writes (s.conns c).out (.handleWrite w)))

def Event.delivery : Event κ → List (κ × Bytes)
  | .read c data _ => [(c, data)]
  | .handleWrite _ _ => []

def sentText (a : Action) : Bytes := (text? a).getD []

/-- What a connection has done is on its stream, and it is connected as long as `shutdown` has not
been called. -/
structure Agrees (conn : Conn) (c : HttpServer.Conn) : Prop where
  inputBuffer : conn.inputBuffer = c.inputBuffer
  connected : c.connected = conn.out.conn.connected
  intact : OutputStream.Intact conn.out
  sent : conn.out.sent = c.outputs.flatMap sentText

structure Related (s : State κ) (t : HttpServer.Thread κ) : Prop where
  ctx : s.ctx = t.ctx
  conns : ∀ c, Agrees (s.conns c) (t.conns c)

theorem agrees_established (sockfd : ℕ) :
    Agrees (Conn.established sockfd) HttpServer.Conn.init where
  inputBuffer := rfl
  connected := rfl
  intact := OutputStream.established_intact sockfd
  sent := rfl

theorem foldl_apply (s : OutputStream.Session) (effects : List Effect) :
    (effects.foldl OutputStream.apply s).conn = s.conn ∧
      (effects.foldl OutputStream.apply s).sent = s.sent := by
  induction effects generalizing s with
  | nil => exact ⟨rfl, rfl⟩
  | cons e effects ih =>
    obtain ⟨hconn, hsent⟩ := ih (OutputStream.apply s e)
    rw [List.foldl_cons, hconn, hsent]
    cases e <;> exact ⟨rfl, rfl⟩

theorem settle_spec (s : OutputStream.Session) (r : TcpConnection × List Effect) :
    (OutputStream.settle s r).conn = r.1 ∧ (OutputStream.settle s r).sent = s.sent :=
  foldl_apply { s with conn := r.1 } r.2

theorem state_sendInThread (c : TcpConnection) (data : Bytes) (w : WriteResult) :
    (c.sendInThread data w).1.state = c.state := by
  simp only [sendInThread]
  split_ifs <;> rfl

theorem state_send (c : TcpConnection) (data : Bytes) (w : WriteResult) :
    (c.send data w).1.state = c.state := by
  rw [send]
  split_ifs
  · exact state_sendInThread c data w
  · rfl

theorem connected_send (c : TcpConnection) (data : Bytes) (w : WriteResult) :
    (c.send data w).1.connected = c.connected := by
  rw [connected, connected, state_send]

theorem connected_shutdown (c : TcpConnection) : c.shutdown.1.connected = false := by
  rw [shutdown]
  split_ifs with hc
  · rfl
  · exact beq_false_of_ne hc

theorem state_handleWrite {c : TcpConnection} {w : WriteResult} {r : TcpConnection × List Effect}
    (h : c.handleWrite w = some r) : r.1.state = c.state := by
  rw [handleWrite] at h
  split_ifs at h with hw hpos
  · obtain ⟨rest, -, rfl⟩ := Option.map_eq_some_iff.mp h
    simp only
    split_ifs <;> rfl
  · cases h
    rfl
  · cases h
    rfl

theorem Agrees.perform {conn : Conn} {c : HttpServer.Conn} (h : Agrees conn c) {w : WriteResult}
    {a : Action} (hw : ∀ text, a = .send text → w.Contract text.length ∧ w.NoPipe) :
    ∃ out, perform w conn.out a = some out ∧ Agrees { conn with out := out } (c.emit a) := by
  cases a with
  | callback request =>
    refine ⟨conn.out, rfl, h.inputBuffer, h.connected, h.intact, ?_⟩
    rw [HttpServer.Conn.emit, List.flatMap_append, h.sent]
    exact (List.append_nil _).symm
  | send data =>
    obtain ⟨out, hout, hintact⟩ :=
      OutputStream.step_intact conn.out (.send data w) h.intact (hw data rfl)
    refine ⟨out, hout, ?_⟩
    cases hout
    cases hconnected : conn.out.conn.connected with
    | true =>
      rw [hconnected, if_pos rfl] at hintact
      rw [if_pos rfl]
      obtain ⟨hconn, hsent⟩ := settle_spec { conn.out with sent := conn.out.sent ++ data }
        (conn.out.conn.send data w)
      have hemit : c.emit (.send data) = { c with outputs := c.outputs ++ [.send data] } :=
        if_pos (h.connected.trans hconnected)
      rw [hemit]
      refine ⟨h.inputBuffer, ?_, hintact, ?_⟩
      · rw [hconn, connected_send]
        exact h.connected
      · rw [hsent, List.flatMap_append, h.sent]
        exact congrArg _ (List.append_nil data).symm
    | false =>
      rw [hconnected, if_neg Bool.false_ne_true] at hintact
      rw [if_neg Bool.false_ne_true]
      obtain ⟨hconn, hsent⟩ := settle_spec conn.out (conn.out.conn.send data w)
      have hemit : c.emit (.send data) = c :=
        if_neg (by rw [h.connected, hconnected]; exact Bool.false_ne_true)
      rw [hemit]
      refine ⟨h.inputBuffer, ?_, hintact, ?_⟩
      · rw [hconn, connected_send]
        exact h.connected
      · rw [hsent]
        exact h.sent
  | shutdown =>
    obtain ⟨out, hout, hintact⟩ := OutputStream.step_intact conn.out .shutdown h.intact trivial
    refine ⟨out, hout, ?_⟩
    cases hout
    obtain ⟨hconn, hsent⟩ :=
      settle_spec { conn.out with shutdownCalled := true } conn.out.conn.shutdown
    refine ⟨?_, ?_, hintact, ?_⟩
    · rw [HttpServer.Conn.emit]
      split_ifs <;> exact h.inputBuffer
    · rw [hconn, connected_shutdown, HttpServer.Conn.emit]
      split_ifs with hc
      · rfl
      · exact Bool.eq_false_of_not_eq_true hc
    · rw [hsent, HttpServer.Conn.emit]
      split_ifs
      · rw [List.flatMap_append, ← h.sent]
        exact (List.append_nil _).symm
      · exact h.sent

theorem Agrees.foldlM_perform {conn : Conn} {c : HttpServer.Conn} (h : Agrees conn c)
    {w : WriteResult} {actions : List Action}
    (hw : ∀ text, .send text ∈ actions → w.Contract text.length ∧ w.NoPipe) :
    ∃ out, actions.foldlM (HttpPipeline.perform w) conn.out = some out ∧
      Agrees { conn with out := out } (actions.foldl HttpServer.Conn.emit c) := by
  induction actions generalizing conn c with
  | nil => exact ⟨conn.out, rfl, h⟩
  | cons a actions ih =>
    obtain ⟨out, hout, hagrees⟩ := h.perform (a := a) (w := w) fun text ha =>
      hw text (ha ▸ List.mem_cons_self)
    obtain ⟨out', hout', hagrees'⟩ := ih hagrees fun text ht => hw text (List.mem_cons_of_mem a ht)
    refine ⟨out', ?_, hagrees'⟩
    rw [List.foldlM_cons, hout]
    exact hout'

theorem Agrees.handleWrite {conn : Conn} {c : HttpServer.Conn} (h : Agrees conn c)
    {w : WriteResult} (hw : OutputStream.Writes conn.out (.handleWrite w))
    {out : OutputStream.Session} (hout : OutputStream.step conn.out (.handleWrite w) = some out) :
    Agrees { conn with out := out } c := by
  obtain ⟨out', hout', hintact⟩ :=
    OutputStream.step_intact conn.out (.handleWrite w) h.intact hw
  cases hout.symm.trans hout'
  obtain ⟨r, hr, rfl⟩ := Option.map_eq_some_iff.mp hout
  obtain ⟨hconn, hsent⟩ := settle_spec conn.out r
  refine ⟨h.inputBuffer, ?_, hintact, ?_⟩
  · rw [hconn]
    exact h.connected.trans (congrArg (· == .kConnected) (state_handleWrite hr).symm)
  · rw [hsent]
    exact h.sent

theorem related_update {s : State κ} {t : HttpServer.Thread κ} (h : Related s t) (c : κ)
    (ctx : HttpContext) {conn : Conn} {conn' : HttpServer.Conn} (hc : Agrees conn conn') :
    Related ⟨ctx, Function.update s.conns c conn⟩ ⟨ctx, Function.update t.conns c conn'⟩ := by
  refine ⟨rfl, ?_⟩
  intro b
  by_cases hb : b = c
  · subst hb
    simp only [Function.update_self]
    exact hc
  · simp only [Function.update_of_ne hb]
    exact h.conns b

theorem step_related (httpCallback : HttpCallback) {s s' : State κ} {t : HttpServer.Thread κ}
    {e : Event κ} (h : Related s t) (hw : Writes httpCallback s e)
    (hstep : step httpCallback s e = some s') :
    ∃ t', runFrom (HttpServer.Thread.handleRead httpCallback) t e.delivery = some t' ∧
      Related s' t' := by
  cases e with
  | read c data w =>
    have hconn := h.conns c
    rw [step] at hstep
    simp only at hstep
    split_ifs at hstep with hn
    obtain ⟨⟨actions, ctx, rest⟩, hmessage, hmap⟩ := Option.bind_eq_some_iff.mp hstep
    obtain ⟨out, hout, rfl⟩ := Option.map_eq_some_iff.mp hmap
    have hrest : Agrees ⟨rest, (s.conns c).out⟩ { t.conns c with inputBuffer := rest } :=
      ⟨rfl, hconn.connected, hconn.intact, hconn.sent⟩
    have hcontract (text : Bytes) (ht : .send text ∈ actions) :
        w.Contract text.length ∧ w.NoPipe := by
      refine hw text ?_
      rw [texts, hmessage, Option.elim_some, List.mem_filterMap]
      exact ⟨.send text, ht, rfl⟩
    obtain ⟨out', hout', hagrees⟩ := hrest.foldlM_perform hcontract
    cases hout.symm.trans hout'
    refine ⟨_, ?_, related_update h c ctx hagrees⟩
    refine (runFrom_cons ..).mpr ⟨_, ?_, rfl⟩
    rw [HttpServer.Thread.handleRead]
    simp only [← hconn.inputBuffer, ← h.ctx, hn, if_true, hmessage, Option.map_some]
  | handleWrite c w =>
    obtain ⟨out, hout, rfl⟩ := Option.map_eq_some_iff.mp hstep
    refine ⟨t, rfl, ?_⟩
    have hupdate := related_update h c s.ctx ((h.conns c).handleWrite hw hout)
    rw [Function.update_eq_self, h.ctx] at hupdate
    rw [h.ctx]
    exact hupdate

/-- The thread with its sockets refines the one that lists what is done on each connection. -/
theorem run_related (httpCallback : HttpCallback) {sockfd : κ → ℕ} {events : List (Event κ)}
    {s : State κ} (hw : Along (step httpCallback) (Writes httpCallback) (.init sockfd) events)
    (hrun : runFrom (step httpCallback) (.init sockfd) events = some s) :
    ∃ t, runFrom (HttpServer.Thread.handleRead httpCallback) HttpServer.Thread.init
      (events.flatMap Event.delivery) = some t ∧ Related s t :=
  runFrom_relates (fun _ _ _ _ h hw hstep => step_related httpCallback h hw hstep)
    ⟨rfl, fun c => agrees_established (sockfd c)⟩ hw hrun

theorem onMessage_whole (httpCallback : HttpCallback) {buf : ValidBuffer} {r : WireRequest}
    {rest : Bytes} (hbytes : buf.readable = r.wire ++ rest) :
    ∃ buf', onMessage httpCallback HttpContext.init buf =
      some (respond httpCallback r.request, HttpContext.init, buf') ∧ buf'.readable = rest := by
  have hgo : HttpContext.init.state ≠ .kGotAll := by decide
  obtain ⟨p, hp, hview⟩ := HttpContext.parseRequest_spec hgo buf
  rw [hbytes, r.parsed_wire, Option.some.injEq] at hview
  have hok : p.ok = true := (congrArg Parsed.ok hview).symm
  have hctx : p.ctx = ⟨.kGotAll, r.request⟩ := (congrArg Parsed.ctx hview).symm
  refine ⟨p.rest, ?_, (congrArg Parsed.rest hview).symm⟩
  rw [onMessage, hp, Option.map_some, if_pos hok, hctx]
  rfl

theorem foldl_emit_buffer (actions : List Action) (c : HttpServer.Conn) (buf : ValidBuffer) :
    { actions.foldl HttpServer.Conn.emit c with inputBuffer := buf } =
      actions.foldl HttpServer.Conn.emit { c with inputBuffer := buf } := by
  induction actions generalizing c with
  | nil => rfl
  | cons a actions ih =>
    rw [List.foldl_cons, List.foldl_cons, ih]
    congr 1
    cases a with
    | callback request => rfl
    | send data =>
      simp only [HttpServer.Conn.emit]
      split_ifs <;> rfl
    | shutdown =>
      simp only [HttpServer.Conn.emit]
      split_ifs <;> rfl

theorem handleRead_answers (httpCallback : HttpCallback) {t : HttpServer.Thread κ} {d : κ × Bytes}
    (hctx : t.ctx = HttpContext.init) (hne : d.2 ≠ []) {r : WireRequest} {rest : Bytes}
    (hbytes : (t.conns d.1).inputBuffer.readable ++ d.2 = r.wire ++ rest) :
    ∃ buf, buf.readable = rest ∧ HttpServer.Thread.handleRead httpCallback t d =
      some ⟨HttpContext.init, Function.update t.conns d.1
        ((respond httpCallback r.request).foldl HttpServer.Conn.emit
          { t.conns d.1 with inputBuffer := buf })⟩ := by
  have hread := ValidBuffer.readable_readFd (t.conns d.1).inputBuffer (.got d.2)
  obtain ⟨buf, hmessage, hrest⟩ := onMessage_whole httpCallback (hread.trans hbytes)
  have hpos : (0 : ℤ) < d.2.length := by
    have := List.length_pos_iff.mpr hne
    omega
  refine ⟨buf, hrest, ?_⟩
  rw [HttpServer.Thread.handleRead]
  simp only [ValidBuffer.readFd_fst, ReadvResult.report, if_pos hpos, hctx, hmessage,
    Option.map_some]

def answerAll (httpCallback : HttpCallback) (rs : List WireRequest) : List Action :=
  rs.flatMap fun r => respond httpCallback r.request

theorem received_cons_self (d : κ × Bytes) (h : History κ) :
    received d.1 (d :: h) = d.2 :: received d.1 h := by
  simp [received]

theorem received_cons_of_ne {b : κ} {d : κ × Bytes} (hb : b ≠ d.1) (h : History κ) :
    received b (d :: h) = received b h := by
  simp [received, hb.symm]

/-- Every connection has received, or is about to receive with the deliveries `h`, its requests `rs`
and then a rest, and the deliveries keep step with the requests. -/
structure Paced (t : HttpServer.Thread κ) (h : History κ) (rs : κ → List WireRequest)
    (rest : κ → Bytes) : Prop where
  ctx : t.ctx = HttpContext.init
  nonempty : ∀ d ∈ h, d.2 ≠ []
  bytes : ∀ c, (t.conns c).inputBuffer.readable ++ (received c h).flatten =
    (rs c).flatMap WireRequest.wire ++ rest c
  inStep : ∀ c, InStep (t.conns c).inputBuffer.readable.length (rs c) (received c h)

theorem Paced.step (httpCallback : HttpCallback) {t : HttpServer.Thread κ} {d : κ × Bytes}
    {h : History κ} {rs : κ → List WireRequest} {rest : κ → Bytes} (hp : Paced t (d :: h) rs rest) :
    ∃ u rs', HttpServer.Thread.handleRead httpCallback t d = some u ∧ Paced u h rs' rest ∧
      ∀ c buf, (answerAll httpCallback (rs' c)).foldl HttpServer.Conn.emit
          { u.conns c with inputBuffer := buf } =
        (answerAll httpCallback (rs c)).foldl HttpServer.Conn.emit
          { t.conns c with inputBuffer := buf } := by
  have hne := List.forall_mem_cons.mp hp.nonempty
  have hstep := hp.inStep d.1
  have hwire := hp.bytes d.1
  rw [received_cons_self] at hstep hwire
  cases hrs : rs d.1 with
  | nil =>
    rw [hrs] at hstep
    cases hstep.1
  | cons r rs' =>
    rw [hrs] at hstep hwire
    rw [List.flatten_cons, ← List.append_assoc (t.conns d.1).inputBuffer.readable,
      List.flatMap_cons, List.append_assoc r.wire] at hwire
    have hwhole := hstep.2 1 (Nat.succ_le_succ (Nat.zero_le _))
    simp only [List.take_succ_cons, List.take_zero, List.flatMap_cons, List.flatMap_nil,
      List.flatten_cons, List.flatten_nil, List.append_nil] at hwhole
    -- the delivery completes `r`, and `tail` is already there of what follows
    obtain ⟨tail, htail⟩ : r.wire <+: (t.conns d.1).inputBuffer.readable ++ d.2 := by
      refine List.prefix_of_prefix_length_le (List.prefix_append r.wire _) ⟨_, hwire⟩ ?_
      rwa [List.length_append]
    have hlen := congrArg List.length htail
    rw [List.length_append, List.length_append] at hlen
    rw [← htail, List.append_assoc, List.append_cancel_left_eq] at hwire
    obtain ⟨buf, rfl, hread⟩ := handleRead_answers httpCallback hp.ctx hne.1 htail.symm
    have hbuffer : ((respond httpCallback r.request).foldl HttpServer.Conn.emit
        { t.conns d.1 with inputBuffer := buf }).inputBuffer = buf := by
      rw [← foldl_emit_buffer]
    refine ⟨_, Function.update rs d.1 rs', hread, ⟨rfl, hne.2, ?_, ?_⟩, ?_⟩
    · intro c
      by_cases hc : c = d.1
      · subst hc
        simp only [Function.update_self, hbuffer]
        exact hwire
      · simp only [Function.update_of_ne hc]
        rw [← received_cons_of_ne hc]
        exact hp.bytes c
    · intro c
      by_cases hc : c = d.1
      · subst hc
        simp only [Function.update_self, hbuffer]
        exact (inStep_cons hlen.symm).mp hstep
      · simp only [Function.update_of_ne hc]
        rw [← received_cons_of_ne hc]
        exact hp.inStep c
    · intro c buf'
      by_cases hc : c = d.1
      · subst hc
        simp only [Function.update_self]
        rw [foldl_emit_buffer, hrs, answerAll, answerAll, List.flatMap_cons, List.foldl_append]
      · simp only [Function.update_of_ne hc]

/-- While the deliveries on every connection keep step with its requests, the context is free
between two of them, whatever their order, and every connection has its requests answered. -/
theorem Paced.answered (httpCallback : HttpCallback) {h : History κ} {t : HttpServer.Thread κ}
    {rs : κ → List WireRequest} {rest : κ → Bytes} (hp : Paced t h rs rest) :
    ∃ t', runFrom (HttpServer.Thread.handleRead httpCallback) t h = some t' ∧
      ∀ c, ∃ buf, t'.conns c =
        (answerAll httpCallback (rs c)).foldl HttpServer.Conn.emit
          { t.conns c with inputBuffer := buf } := by
  induction h generalizing t rs with
  | nil =>
    refine ⟨t, rfl, ?_⟩
    intro c
    have hrs : rs c = [] := List.length_eq_zero_iff.mp (hp.inStep c).1.symm
    rw [hrs]
    exact ⟨(t.conns c).inputBuffer, rfl⟩
  | cons d h ih =>
    obtain ⟨u, rs', hread, hpaced, hrest⟩ := hp.step httpCallback
    obtain ⟨t', ht', hconns⟩ := ih hpaced
    refine ⟨t', (runFrom_cons ..).mpr ⟨u, hread, ht'⟩, ?_⟩
    intro c
    obtain ⟨buf, hconn⟩ := hconns c
    exact ⟨buf, hconn.trans (hrest c buf)⟩

def response (httpCallback : HttpCallback) (request : HttpRequest) : HttpResponse :=
  httpCallback request (HttpResponse.new
    (request.header (ascii "Connection") = ascii "close" ∨ request.version = .kHttp10)
    request.version)

theorem respond_eq (httpCallback : HttpCallback) (request : HttpRequest) :
    respond httpCallback request =
      [.callback request, .send (response httpCallback request).bytes] ++
        if (response httpCallback request).closeConnection then [.shutdown] else [] := by
  simp only [respond, HttpResponse.readable_appendToBuffer, ValidBuffer.readable_empty,
    List.nil_append]
  rfl

/-- The responses up to the first one that closes. -/
def upToClose : List HttpResponse → List HttpResponse
  | [] => []
  | r :: rs => if r.closeConnection then [r] else r :: upToClose rs

def beforeClose (rs : List HttpResponse) : List HttpResponse :=
  rs.takeWhile fun r => !r.closeConnection

def responses (httpCallback : HttpCallback) (rs : List WireRequest) : List HttpResponse :=
  rs.map fun r => response httpCallback r.request

theorem foldl_emit_closed {c : HttpServer.Conn} (hc : c.connected = false) (actions : List Action) :
    (actions.foldl HttpServer.Conn.emit c).connected = false ∧
      (actions.foldl HttpServer.Conn.emit c).outputs.flatMap sentText =
        c.outputs.flatMap sentText := by
  induction actions generalizing c with
  | nil => exact ⟨hc, rfl⟩
  | cons a actions ih =>
    have hstep : (c.emit a).connected = false ∧
        (c.emit a).outputs.flatMap sentText = c.outputs.flatMap sentText := by
      cases a with
      | callback request =>
        refine ⟨hc, ?_⟩
        rw [HttpServer.Conn.emit, List.flatMap_append]
        exact List.append_nil _
      | send data =>
        rw [HttpServer.Conn.emit, hc, if_neg Bool.false_ne_true]
        exact ⟨hc, rfl⟩
      | shutdown =>
        rw [HttpServer.Conn.emit, hc, if_neg Bool.false_ne_true]
        exact ⟨hc, rfl⟩
    obtain ⟨hconnected, htext⟩ := ih hstep.1
    exact ⟨hconnected, htext.trans hstep.2⟩

theorem foldl_emit_answers (httpCallback : HttpCallback) {c : HttpServer.Conn}
    (hc : c.connected = true) (rs : List WireRequest) :
    ((answerAll httpCallback rs).foldl HttpServer.Conn.emit c).connected =
        !(responses httpCallback rs).any HttpResponse.closeConnection ∧
      ((answerAll httpCallback rs).foldl HttpServer.Conn.emit c).outputs.flatMap sentText =
        c.outputs.flatMap sentText ++
          (upToClose (responses httpCallback rs)).flatMap HttpResponse.bytes := by
  induction rs generalizing c with
  | nil => exact ⟨hc, (List.append_nil _).symm⟩
  | cons r rs ih =>
    have hsent (d : HttpServer.Conn) (hd : d.connected = true) :
        ([.callback r.request, .send (response httpCallback r.request).bytes].foldl
          HttpServer.Conn.emit d) = { d with
            outputs := d.outputs ++ [.callback r.request] ++
              [.send (response httpCallback r.request).bytes] } := by
      rw [List.foldl_cons, List.foldl_cons, List.foldl_nil]
      exact if_pos hd
    rw [answerAll, List.flatMap_cons, List.foldl_append, respond_eq, List.foldl_append, hsent c hc,
      responses, List.map_cons, List.any_cons, upToClose]
    have htext : (c.outputs ++ [Action.callback r.request] ++
        [Action.send (response httpCallback r.request).bytes]).flatMap sentText =
        c.outputs.flatMap sentText ++ (response httpCallback r.request).bytes := by
      rw [List.flatMap_append, List.flatMap_append, List.append_assoc]
      exact congrArg _ (List.append_nil _)
    cases hclose : (response httpCallback r.request).closeConnection with
    | true =>
      rw [if_pos rfl, if_pos rfl, Bool.true_or, List.foldl_cons, List.foldl_nil,
        HttpServer.Conn.emit, if_pos hc]
      obtain ⟨hconnected, hrest⟩ := foldl_emit_closed (c := ⟨c.inputBuffer, false,
        c.outputs ++ [.callback r.request] ++ [.send (response httpCallback r.request).bytes] ++
          [.shutdown]⟩) rfl (answerAll httpCallback rs)
      refine ⟨hconnected, hrest.trans ?_⟩
      rw [List.flatMap_append, htext, List.flatMap_singleton, List.flatMap_singleton]
      exact List.append_nil _
    | false =>
      rw [if_neg Bool.false_ne_true, if_neg Bool.false_ne_true, Bool.false_or, List.foldl_nil]
      obtain ⟨hconnected, hrest⟩ := ih (c := ⟨c.inputBuffer, c.connected,
        c.outputs ++ [.callback r.request] ++ [.send (response httpCallback r.request).bytes]⟩) hc
      refine ⟨hconnected, hrest.trans ?_⟩
      rw [htext, List.flatMap_cons, List.append_assoc]
      rfl

theorem upToClose_eq (rs : List HttpResponse) :
    upToClose rs = beforeClose rs ++ (rs.find? HttpResponse.closeConnection).toList := by
  induction rs with
  | nil => rfl
  | cons r rs ih =>
    rw [upToClose, beforeClose, List.takeWhile_cons, List.find?_cons]
    cases r.closeConnection with
    | true => rfl
    | false =>
      change r :: upToClose rs = r :: (beforeClose rs ++ _)
      rw [ih]

/-- What a socket has been given, and what waits for it, are the answers up to the first that
closes. The framing rule takes off those in front of it, which have to be framable, and leaves the
one that closes. The socket is half-closed once they are out. -/
structure Delivered (answers : List HttpResponse) (out : OutputStream.Session) : Prop where
  stream : out.accepted ++ out.conn.outputBuffer.readable =
    (upToClose answers).flatMap HttpResponse.bytes
  framed : (∀ r ∈ beforeClose answers, r.Framable) →
    takeFrames (beforeClose answers).length (out.accepted ++ out.conn.outputBuffer.readable) =
      some ((beforeClose answers).map HttpResponse.framed,
        (answers.find? HttpResponse.closeConnection).toList.flatMap HttpResponse.bytes)
  halfCloses : out.halfCloses =
    if answers.any HttpResponse.closeConnection ∧ out.conn.outputBuffer.readable = [] then
      [⟨true, []⟩]
    else []

/-- When the deliveries on every connection of a thread bring its requests one by one, then, for
whatever `::write` returns and in whatever order the connections are served and drained, every
socket has been given the answers to its requests. -/
theorem answers_delivered (httpCallback : HttpCallback) {sockfd : κ → ℕ} {events : List (Event κ)}
    {s : State κ} {rs : κ → List WireRequest} {rest : κ → Bytes}
    (hpaced : Paced HttpServer.Thread.init (events.flatMap Event.delivery) rs rest)
    (hw : Along (step httpCallback) (Writes httpCallback) (.init sockfd) events)
    (hrun : runFrom (step httpCallback) (.init sockfd) events = some s) (c : κ) :
    Delivered (responses httpCallback (rs c)) (s.conns c).out := by
  obtain ⟨t, ht, hrelated⟩ := run_related httpCallback hw hrun
  obtain ⟨t', ht', hconns⟩ := hpaced.answered httpCallback
  cases ht.symm.trans ht'
  obtain ⟨buf, hconn⟩ := hconns c
  have hagrees := hrelated.conns c
  obtain ⟨hconnected, htext⟩ := foldl_emit_answers httpCallback
    (c := { HttpServer.Thread.init.conns c with inputBuffer := buf }) rfl (rs c)
  rw [← hconn, hagrees.connected] at hconnected
  rw [← hconn, ← hagrees.sent, ← hagrees.intact.stream] at htext
  refine ⟨htext, ?_, ?_⟩
  · intro hframable
    rw [htext]
    change takeFrames _ ((upToClose (responses httpCallback (rs c))).flatMap _) = _
    rw [upToClose_eq, List.flatMap_append]
    exact HttpResponse.takeFrames_responses hframable _
  · -- the connection has been shut down exactly when an answer has closed it
    have hany : (responses httpCallback (rs c)).any HttpResponse.closeConnection =
        !(s.conns c).out.conn.connected := by
      rw [hconnected, Bool.not_not]
    rw [hany]
    obtain ⟨hstate, hnone⟩ | ⟨hstate, -, hphase⟩ := hagrees.intact.phase
    · rw [hnone, connected, hstate, if_neg]
      rintro ⟨habsurd, -⟩
      cases habsurd
    · rw [connected, hstate]
      obtain ⟨hleft, hnone⟩ | ⟨hempty, hone⟩ := hphase
      · rw [hnone, if_neg]
        exact fun h => hleft h.2
      · rw [hone, if_pos ⟨rfl, hempty⟩]

def pageCallback : HttpCallback := fun _ r =>
  ((r.setStatusCode .k200Ok).setStatusMessage (ascii "OK")).setBody (ascii "page")

def sampleRun : List (Event Bool) :=
  [.read true sampleRequest.wire ⟨5, .EWOULDBLOCK⟩,
   .read false sampleRequest.wire ⟨-1, .EWOULDBLOCK⟩, .handleWrite true ⟨8, .EWOULDBLOCK⟩,
   .read true (sampleRequest.wire ++ [71]) ⟨0, .EWOULDBLOCK⟩]

theorem sampleRun_answers_delivered :
    ∃ s, runFrom (step pageCallback) (.init fun _ => 7) sampleRun = some s ∧
      Delivered (responses pageCallback [sampleRequest, sampleRequest]) (s.conns true).out := by
  have hisSome : (runFrom (step pageCallback) (.init fun _ => 7) sampleRun).isSome = true := by
    decide +kernel
  obtain ⟨s, hs⟩ := Option.isSome_iff_exists.mp hisSome
  have hpaced : Paced HttpServer.Thread.init (sampleRun.flatMap Event.delivery)
      (fun c => if c then [sampleRequest, sampleRequest] else [sampleRequest])
      (fun c => if c then [71] else []) :=
    ⟨rfl, by decide, by decide +kernel, by decide +kernel⟩
  have hw : Along (step pageCallback) (Writes pageCallback) (.init fun _ => 7) sampleRun := by
    decide +kernel
  exact ⟨s, hs, answers_delivered pageCallback hpaced hw hs true⟩

end Matelib.HttpPipeline
