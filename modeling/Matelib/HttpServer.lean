import Matelib.HttpResponse
import Matelib.HttpWire

/-!
# The HTTP server on one connection

`onMessage` as it runs on the input buffer of a connection with the context of its thread, and the
deliveries of `TcpConnection::handleRead` that call it. `onMessage` does not look at `gotAll()`: it
answers whatever has been parsed so far and answers once, so the requests are answered correctly
exactly when the deliveries keep step with them.
-/

namespace Matelib

namespace HttpServer

/-- A user callback, which fills in the response to a request. -/
abbrev HttpCallback := HttpRequest → HttpResponse → HttpResponse

def defaultHttpCallback : HttpCallback := fun _ response =>
  ((response.setStatusCode .k404NotFound).setStatusMessage (ascii "Not Found")).setCloseConnection
    true

/-- What `onMessage` does to the outside, in this order. -/
inductive Action where
  | callback (request : HttpRequest)
  | send (data : Bytes)
  | shutdown
  deriving DecidableEq

def badRequest : List Action := [.send (ascii "HTTP/1.1 400 Bad Request\r\n\r\n"), .shutdown]

def respond (httpCallback : HttpCallback) (request : HttpRequest) : List Action :=
  let connection := request.header (ascii "Connection")
  let close := connection = ascii "close" ∨ request.version = .kHttp10
  let response := httpCallback request (HttpResponse.new close request.version)
  let buf := response.appendToBuffer ValidBuffer.empty
  [.callback request, .send buf.readable] ++ if response.closeConnection then [.shutdown] else []

def onMessage (httpCallback : HttpCallback) (ctx : HttpContext) (buf : ValidBuffer) :
    Option (List Action × HttpContext × ValidBuffer) :=
  (ctx.parseRequest buf).map fun p =>
    if p.ok then (respond httpCallback p.ctx.request, p.ctx.reset, p.rest)
    else (badRequest, p.ctx, p.rest)

/-- A connection with the context of its thread. `arrived` counts the bytes that it has received,
and `calls` lists the requests given to the callback, each with the count at that time. -/
structure Session where
  ctx : HttpContext
  inputBuffer : ValidBuffer
  arrived : ℕ
  calls : List (ℕ × HttpRequest)
  sent : List Action

def Session.init : Session := ⟨HttpContext.init, ValidBuffer.empty, 0, [], []⟩

def Action.request? : Action → Option HttpRequest
  | .callback request => some request
  | _ => none

def Session.record (s : Session) (data : Bytes)
    (result : List Action × HttpContext × ValidBuffer) : Session where
  ctx := result.2.1
  inputBuffer := result.2.2
  arrived := s.arrived + data.length
  calls := s.calls ++ (result.1.filterMap Action.request?).map (s.arrived + data.length, ·)
  sent := s.sent ++ result.1

/-- `TcpConnection::handleRead` after `readv` has delivered `data`; no data means end of file, which
does not reach the server. -/
def handleRead (httpCallback : HttpCallback) (s : Session) (data : Bytes) : Option Session :=
  let (n, inputBuffer) := s.inputBuffer.readFd (.got data)
  if 0 < n.1 then (onMessage httpCallback s.ctx inputBuffer).map (s.record data) else some s

def serve (httpCallback : HttpCallback) (s : Session) (chunks : List Bytes) : Option Session :=
  chunks.foldlM (handleRead httpCallback) s

theorem requests_respond (httpCallback : HttpCallback) (request : HttpRequest) :
    (respond httpCallback request).filterMap Action.request? = [request] := by
  simp only [respond]
  split_ifs
  · rfl
  · rfl

theorem handleRead_spec (httpCallback : HttpCallback) {s : Session}
    (hctx : s.ctx.state = .kExpectRequestLine) {data : Bytes} (hdata : data ≠ []) :
    ∃ p s', s.ctx.parsed (s.inputBuffer.readable ++ data) = some p ∧
      handleRead httpCallback s data = some s' ∧ s'.ctx.state = .kExpectRequestLine ∧
      s'.ctx = (if p.ok then HttpContext.init else p.ctx) ∧ s'.inputBuffer.readable = p.rest ∧
      s'.arrived = s.arrived + data.length ∧
      s'.calls = s.calls ++ if p.ok then [(s.arrived + data.length, p.ctx.request)] else [] := by
  have hgo : s.ctx.state ≠ .kGotAll := by
    rw [hctx]
    exact HttpRequestParseState.noConfusion
  obtain ⟨p, hp, hview⟩ := HttpContext.parseRequest_spec hgo (s.inputBuffer.readFd (.got data)).2
  rw [ValidBuffer.readable_readFd] at hview
  have hpos : (0 : ℤ) < data.length := by
    have := List.length_pos_iff.mpr hdata
    omega
  have hread : handleRead httpCallback s data =
      (onMessage httpCallback s.ctx (s.inputBuffer.readFd (.got data)).2).map (s.record data) := by
    rw [handleRead]
    simp only [ValidBuffer.readFd_fst, ReadvResult.report, if_pos hpos]
  rw [hread, onMessage, hp, Option.map_some, Option.map_some]
  refine ⟨p.view, _, hview, rfl, ?_⟩
  cases hok : p.ok with
  | false =>
    have hfail := HttpContext.state_of_not_ok hview hok
    simp only [Parsed.view, hok, Bool.false_eq_true, if_false]
    exact ⟨hfail, rfl, rfl, rfl, by simp [Session.record, badRequest, Action.request?]⟩
  | true =>
    simp only [Parsed.view, hok, if_true]
    exact ⟨rfl, rfl, rfl, rfl, by simp [Session.record, requests_respond]⟩

theorem serve_returns (httpCallback : HttpCallback) {s : Session}
    (hctx : s.ctx.state = .kExpectRequestLine) {chunks : List Bytes}
    (hne : ∀ c ∈ chunks, c ≠ []) :
    ∃ s', serve httpCallback s chunks = some s' ∧ s.calls <+: s'.calls := by
  induction chunks generalizing s with
  | nil => exact ⟨s, rfl, List.prefix_rfl⟩
  | cons c chunks ih =>
    rw [List.forall_mem_cons] at hne
    obtain ⟨p, t, _, ht, hstate, _, _, _, hcalls⟩ := handleRead_spec httpCallback hctx hne.1
    obtain ⟨s', hs', hcalls'⟩ := ih hstate hne.2
    refine ⟨s', ?_, ?_⟩
    · rw [serve, List.foldlM_cons, ht]
      exact hs'
    · rw [hcalls] at hcalls'
      exact (List.prefix_append _ _).trans hcalls'

/-- The calls are the requests in order, each made when the whole request had arrived; `before`
counts the bytes in front of the first of them. -/
def Answered : ℕ → List WireRequest → List (ℕ × HttpRequest) → Prop
  | _, [], [] => True
  | before, r :: rs, call :: calls =>
    call.2 = r.request ∧ before + r.wire.length ≤ call.1 ∧
      Answered (before + r.wire.length) rs calls
  | _, _, _ => False

def NoneLeft (s : Session) : Prop :=
  ∀ (r : WireRequest) (rest : Bytes), s.inputBuffer.readable ≠ r.wire ++ rest

/-- There are as many deliveries as requests, and with `held` bytes in the input buffer before, the
first `i` deliveries bring the first `i` requests whole. -/
def InStep (held : ℕ) (rs : List WireRequest) (chunks : List Bytes) : Prop :=
  chunks.length = rs.length ∧
    ∀ i ≤ rs.length,
      ((rs.take i).flatMap WireRequest.wire).length ≤ held + (chunks.take i).flatten.length

instance (held : ℕ) (rs : List WireRequest) (chunks : List Bytes) :
    Decidable (InStep held rs chunks) :=
  inferInstanceAs (Decidable (_ ∧ _))

theorem inStep_cons {held : ℕ} {r : WireRequest} {rs : List WireRequest} {c rest : Bytes}
    {chunks : List Bytes} (hlen : held + c.length = r.wire.length + rest.length) :
    InStep held (r :: rs) (c :: chunks) ↔ InStep rest.length rs chunks := by
  unfold InStep
  rw [List.length_cons, List.length_cons, Nat.succ_inj]
  apply and_congr_right
  intro _
  constructor
  · intro h i hi
    have := h (i + 1) (Nat.succ_le_succ hi)
    simp only [List.take_succ_cons, List.flatMap_cons, List.flatten_cons,
      List.length_append] at this
    omega
  · intro h i hi
    cases i with
    | zero => simp
    | succ i =>
      have := h i (Nat.le_of_succ_le_succ hi)
      simp only [List.take_succ_cons, List.flatMap_cons, List.flatten_cons, List.length_append]
      omega

/-- A proper prefix of a request parses without failure. -/
theorem parsed_prefix_ok {r : WireRequest} {a b : Bytes} (hab : a ++ b = r.wire) {p : Parsed Bytes}
    (hp : HttpContext.init.parsed a = some p) : p.ok = true := by
  by_contra hok
  have hwhole := r.parsed_wire []
  have hoff : ¬ HttpContext.goesOn p := fun h => hok h.1
  rw [List.append_nil, ← hab, HttpContext.parsed_append (by decide) hp, if_neg hoff] at hwhole
  exact hok (congrArg Parsed.ok (Option.some.inj hwhole))

theorem handleRead_whole (httpCallback : HttpCallback) {s : Session}
    (hctx : s.ctx = HttpContext.init)
    {data : Bytes} (hdata : data ≠ []) {r : WireRequest} {rest : Bytes}
    (hbytes : s.inputBuffer.readable ++ data = r.wire ++ rest) :
    ∃ t, handleRead httpCallback s data = some t ∧ t.ctx = HttpContext.init ∧
      t.inputBuffer.readable = rest ∧ t.arrived = s.arrived + data.length ∧
      t.calls = s.calls ++ [(s.arrived + data.length, r.request)] := by
  have hstate : s.ctx.state = .kExpectRequestLine := by rw [hctx]; rfl
  obtain ⟨p, t, hp, ht, _, htctx, hbuf, harrived, hcalls⟩ :=
    handleRead_spec httpCallback hstate hdata
  rw [hctx, hbytes, r.parsed_wire] at hp
  cases hp
  exact ⟨t, ht, htctx, hbuf, harrived, hcalls⟩

theorem handleRead_early (httpCallback : HttpCallback) {s : Session}
    (hctx : s.ctx = HttpContext.init)
    {data : Bytes} (hdata : data ≠ []) {r : WireRequest} {missing : Bytes}
    (hbytes : s.inputBuffer.readable ++ data ++ missing = r.wire) :
    ∃ t q, handleRead httpCallback s data = some t ∧ t.ctx.state = .kExpectRequestLine ∧
      t.calls = s.calls ++ [(s.arrived + data.length, q)] := by
  have hstate : s.ctx.state = .kExpectRequestLine := by rw [hctx]; rfl
  obtain ⟨p, t, hp, ht, htstate, _, _, _, hcalls⟩ := handleRead_spec httpCallback hstate hdata
  rw [hctx] at hp
  rw [parsed_prefix_ok hbytes hp, if_pos rfl] at hcalls
  exact ⟨t, _, ht, htstate, hcalls⟩

/-- Serving the deliveries of well-formed requests from the boundary of a request. -/
theorem serve_boundary (httpCallback : HttpCallback) {rs : List WireRequest} {chunks : List Bytes}
    {s : Session} (before : ℕ) (hctx : s.ctx = HttpContext.init) (hne : ∀ c ∈ chunks, c ≠ [])
    (hbytes : s.inputBuffer.readable ++ chunks.flatten = rs.flatMap WireRequest.wire)
    (harrived : s.arrived = before + s.inputBuffer.readable.length) :
    ∃ s' calls, serve httpCallback s chunks = some s' ∧ s'.calls = s.calls ++ calls ∧
      (Answered before rs calls ∧ NoneLeft s' ↔
        InStep s.inputBuffer.readable.length rs chunks) := by
  induction chunks generalizing rs s before with
  | nil =>
    refine ⟨s, [], rfl, (List.append_nil _).symm, ?_⟩
    cases rs with
    | nil =>
      rw [List.flatten_nil, List.append_nil, List.flatMap_nil] at hbytes
      have hleft : NoneLeft s := by
        intro r rest h
        rw [hbytes] at h
        exact r.wire_ne_nil (List.append_eq_nil_iff.mp h.symm).1
      simp [Answered, InStep, hleft]
    | cons r rs => simp [Answered, InStep]
  | cons c chunks ih =>
    rw [List.forall_mem_cons] at hne
    rw [List.flatten_cons, ← List.append_assoc] at hbytes
    have hserve : ∀ {t}, handleRead httpCallback s c = some t →
        serve httpCallback s (c :: chunks) = serve httpCallback t chunks := by
      intro t ht
      rw [serve, List.foldlM_cons, ht]
      rfl
    cases rs with
    | nil =>
      rw [List.flatMap_nil, List.append_eq_nil_iff, List.append_eq_nil_iff] at hbytes
      exact absurd hbytes.1.2 hne.1
    | cons r rs =>
      rw [List.flatMap_cons] at hbytes
      by_cases hwhole : r.wire.length ≤ (s.inputBuffer.readable ++ c).length
      · -- the first request is complete: it is answered and the rest is at a boundary again
        obtain ⟨rest, hrest⟩ : r.wire <+: s.inputBuffer.readable ++ c :=
          List.prefix_of_prefix_length_le (List.prefix_append r.wire _)
            ⟨chunks.flatten, hbytes⟩ hwhole
        rw [← hrest, List.append_assoc, List.append_cancel_left_eq] at hbytes
        have hlen := congrArg List.length hrest
        rw [List.length_append, List.length_append] at hlen
        obtain ⟨t, ht, htctx, htbuf, htarr, htcalls⟩ :=
          handleRead_whole httpCallback hctx hne.1 hrest.symm
        rw [← htbuf] at hbytes hlen
        obtain ⟨s', calls, hs', hcalls, hiff⟩ :=
          ih (before + r.wire.length) htctx hne.2 hbytes (by omega)
        refine ⟨s', (s.arrived + c.length, r.request) :: calls, (hserve ht).trans hs', ?_, ?_⟩
        · rw [hcalls, htcalls, List.append_assoc, List.singleton_append]
        · have htime : before + r.wire.length ≤ s.arrived + c.length := by omega
          rw [inStep_cons hlen.symm, ← hiff]
          simp only [Answered, htime, true_and]
      · -- the callback is called for a request that has not arrived
        obtain ⟨missing, hmissing⟩ : s.inputBuffer.readable ++ c <+: r.wire :=
          List.prefix_of_prefix_length_le ⟨chunks.flatten, hbytes⟩
            (List.prefix_append r.wire _) (Nat.le_of_not_le hwhole)
        rw [List.length_append] at hwhole
        obtain ⟨t, q, ht, htstate, htcalls⟩ := handleRead_early httpCallback hctx hne.1 hmissing
        obtain ⟨s', hs', calls, hcalls⟩ := serve_returns httpCallback htstate hne.2
        refine ⟨s', (s.arrived + c.length, q) :: calls, (hserve ht).trans hs', ?_, ?_⟩
        · rw [← hcalls, htcalls, List.append_assoc, List.singleton_append]
        · constructor
          · rintro ⟨⟨_, htime, _⟩, _⟩
            omega
          · rintro ⟨_, hstep⟩
            have hfirst := hstep 1 (Nat.succ_le_succ (Nat.zero_le _))
            simp only [List.take_succ_cons, List.take_zero, List.flatMap_cons, List.flatMap_nil,
              List.flatten_cons, List.flatten_nil, List.append_nil] at hfirst
            omega

/-- The server answers the requests of a connection, each once, in order and only when it has
arrived, exactly when the deliveries keep step with the requests. -/
theorem answers_iff_inStep (httpCallback : HttpCallback) (rs : List WireRequest)
    (chunks : List Bytes) (hne : ∀ c ∈ chunks, c ≠ [])
    (hbytes : chunks.flatten = rs.flatMap WireRequest.wire) :
    ∃ s, serve httpCallback Session.init chunks = some s ∧
      (Answered 0 rs s.calls ∧ NoneLeft s ↔ InStep 0 rs chunks) := by
  have hempty : Session.init.inputBuffer.readable = [] := ValidBuffer.readable_empty
  obtain ⟨s, calls, hs, hcalls, hiff⟩ := serve_boundary httpCallback (s := Session.init)
    0 rfl hne (by rw [hempty, hbytes, List.nil_append]) (by rw [hempty]; rfl)
  rw [hempty] at hiff
  rw [show Session.init.calls = [] from rfl, List.nil_append] at hcalls
  exact ⟨s, hs, hcalls ▸ hiff⟩

def sampleRequest : WireRequest where
  method := .kGet
  path := ascii "/"
  version := .kHttp11
  headers := [⟨ascii "Host", ascii " a", by decide, by decide, by decide⟩]
  method_known := by decide
  version_known := by decide
  path_inLine := by decide
  path_noSpace := by decide

theorem wholeRequests_answered :
    ∃ s, serve defaultHttpCallback Session.init [sampleRequest.wire, sampleRequest.wire] = some s ∧
      Answered 0 [sampleRequest, sampleRequest] s.calls ∧ NoneLeft s := by
  obtain ⟨s, hs, hiff⟩ := answers_iff_inStep defaultHttpCallback [sampleRequest, sampleRequest]
    [sampleRequest.wire, sampleRequest.wire] (by decide) (by decide)
  exact ⟨s, hs, hiff.mpr (by decide)⟩

/-- The request line arrives first and the rest of the request in a second delivery. -/
def splitDelivery : List Bytes := [ascii "GET / HTTP/1.1\r\n", ascii "Host: a\r\n\r\n"]

/-- The callback is called for `splitDelivery` when only its request line has arrived, and the
header that follows is answered as a bad request. -/
theorem splitRequest_answered_early :
    ¬ ((∀ c ∈ splitDelivery, c ≠ []) →
      splitDelivery.flatten = [sampleRequest].flatMap WireRequest.wire →
      ∃ s, serve defaultHttpCallback Session.init splitDelivery = some s ∧
        Answered 0 [sampleRequest] s.calls ∧ NoneLeft s) := by
  intro h
  obtain ⟨s, hs, hcalls, _⟩ := h (by decide) (by decide)
  have hearly : (serve defaultHttpCallback Session.init splitDelivery).map
      (fun s => s.calls.map Prod.fst) = some [16] := by decide +kernel
  rw [hs, Option.map_some, Option.some.injEq] at hearly
  cases hc : s.calls with
  | nil => rw [hc] at hearly; cases hearly
  | cons call calls =>
    rw [hc, List.map_cons, List.cons.injEq] at hearly
    rw [hc] at hcalls
    have htime : 0 + sampleRequest.wire.length ≤ 16 := hearly.1 ▸ hcalls.2.1
    exact absurd htime (by decide)

end HttpServer

end Matelib
