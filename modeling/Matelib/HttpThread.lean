import Matelib.HttpServer
import Mathlib.Logic.Function.Basic

/-!
# HTTP connections of one thread

All connections of a thread parse with one context. A delivery that is answered resets it, but a
rejected request line stays in it, and a later delivery without a line end passes what was stored to
the callback. Two histories with the same deliveries on a connection are answered alike on it
exactly when such deliveries find the same request in the context.
-/

namespace Matelib

open Search

namespace HttpServer

/-- A connection of the thread. `outputs` lists what `onMessage` has done on it: the callbacks, and
the calls of `send` and `shutdown` that found it connected. -/
structure Conn where
  inputBuffer : ValidBuffer
  connected : Bool
  outputs : List Action

def Conn.init : Conn := ⟨ValidBuffer.empty, true, []⟩

/-- `send` and `shutdown` do nothing on a connection that is no longer in `kConnected`. -/
def Conn.emit (c : Conn) : Action → Conn
  | .callback request => { c with outputs := c.outputs ++ [.callback request] }
  | .send data => if c.connected then { c with outputs := c.outputs ++ [.send data] } else c
  | .shutdown =>
    if c.connected then { c with connected := false, outputs := c.outputs ++ [.shutdown] } else c

/-- A thread with its context and its connections. -/
structure Thread (κ : Type*) where
  ctx : HttpContext
  conns : κ → Conn

abbrev History (κ : Type*) := List (κ × Bytes)

/-- What is delivered on the connection `b`, in chunks. -/
def received {κ : Type*} [DecidableEq κ] (b : κ) (h : History κ) : List Bytes :=
  (h.filter fun d => d.1 = b).map Prod.snd

namespace Thread

variable {κ : Type*} [DecidableEq κ]

def init : Thread κ := ⟨HttpContext.init, fun _ => Conn.init⟩

/-- `TcpConnection::handleRead` on the connection `d.1` after `readv` has delivered `d.2`. -/
def handleRead (httpCallback : HttpCallback) (t : Thread κ) (d : κ × Bytes) : Option (Thread κ) :=
  let (n, buf) := (t.conns d.1).inputBuffer.readFd (.got d.2)
  if 0 < n.1 then
    (onMessage httpCallback t.ctx buf).map fun (actions, ctx, rest) =>
      ⟨ctx, Function.update t.conns d.1
        (actions.foldl Conn.emit { t.conns d.1 with inputBuffer := rest })⟩
  else some t

def serve (httpCallback : HttpCallback) (t : Thread κ) (h : History κ) : Option (Thread κ) :=
  h.foldlM (handleRead httpCallback) t

/-- The delivery leaves the input of its connection without the end of a line. -/
def Unended (t : Thread κ) (d : κ × Bytes) : Prop :=
  d.2 ≠ [] ∧ search Buffer.kCRLF ((t.conns d.1).inputBuffer.readable ++ d.2) = none

instance (t : Thread κ) (d : κ × Bytes) : Decidable (Unended t d) :=
  inferInstanceAs (Decidable (_ ∧ _))

/-- The requests that the deliveries on `b` without the end of a line find in the context. -/
def leftovers (httpCallback : HttpCallback) (b : κ) : Thread κ → History κ → List HttpRequest
  | _, [] => []
  | t, d :: h =>
    (if d.1 = b ∧ Unended t d then [t.ctx.request] else []) ++
      ((handleRead httpCallback t d).elim [] fun t' => leftovers httpCallback b t' h)

end Thread

/-- The context between two deliveries: it waits for a request line, and all that it can hold is
what rejected request lines have stored. -/
structure Idle (ctx : HttpContext) : Prop where
  state : ctx.state = .kExpectRequestLine
  headers : ctx.request.headers = OrderedMap.empty
  body : ctx.request.body = []

theorem idle_init : Idle HttpContext.init := ⟨rfl, rfl, rfl⟩

theorem idle_reset (ctx : HttpContext) : Idle ctx.reset := ⟨rfl, rfl, rfl⟩

theorem Idle.processRequestLine {ctx : HttpContext} (h : Idle ctx) (line : Bytes) :
    Idle (ctx.processRequestLine line).2 := by
  obtain ⟨hheaders, hbody⟩ := ctx.request.processRequestLine_frame line
  exact ⟨h.state, hheaders.trans h.headers, hbody.trans h.body⟩

theorem Idle.rejected {ctx : HttpContext} (h : Idle ctx) {a : Bytes} {p : Parsed Bytes}
    (hp : ctx.parsed a = some p) (hok : p.ok = false) : Idle p.ctx := by
  cases ha : search Buffer.kCRLF a with
  | none =>
    rw [HttpContext.parsed_unended h.state ha] at hp
    cases hp
    cases hok
  | some i =>
    rw [HttpContext.parsed_line h.state ha] at hp
    split_ifs at hp
    · obtain ⟨o, ho, rfl⟩ := Option.map_eq_some_iff.mp hp
      exact absurd hok (by rw [HttpContext.ok_of_scan HttpRequestParseState.noConfusion ho]; decide)
    · cases hp
      exact h.processRequestLine _

theorem Idle.parsed_agree {ctx₁ ctx₂ : HttpContext} (h₁ : Idle ctx₁) (h₂ : Idle ctx₂) {a : Bytes}
    {i : ℕ} (ha : search Buffer.kCRLF a = some i) {p₁ p₂ : Parsed Bytes}
    (hp₁ : ctx₁.parsed a = some p₁) (hp₂ : ctx₂.parsed a = some p₂) :
    p₁.ok = p₂.ok ∧ p₁.rest = p₂.rest ∧ (p₁.ok = true → p₁.ctx = p₂.ctx) := by
  obtain ⟨hok, hrequest⟩ := HttpRequest.processRequestLine_congr
    (h₁.headers.trans h₂.headers.symm) (h₁.body.trans h₂.body.symm) (a.take i)
  rw [HttpContext.parsed_line h₁.state ha] at hp₁
  rw [HttpContext.parsed_line h₂.state ha] at hp₂
  by_cases hline : (ctx₁.processRequestLine (a.take i)).1 = true
  · -- an accepted line is stored over what was left, so the rest is parsed in the same context
    have hctx : (ctx₁.processRequestLine (a.take i)).2.receiveRequestLine =
        (ctx₂.processRequestLine (a.take i)).2.receiveRequestLine := by
      simp only [HttpContext.processRequestLine, HttpContext.receiveRequestLine, hrequest hline]
    have hline₂ : (ctx₂.processRequestLine (a.take i)).1 = true := hok.symm.trans hline
    rw [if_pos hline, hctx] at hp₁
    rw [if_pos hline₂] at hp₂
    cases hp₁.symm.trans hp₂
    exact ⟨rfl, rfl, fun _ => rfl⟩
  · have hline₂ : ¬ (ctx₂.processRequestLine (a.take i)).1 = true := fun h => hline (hok.trans h)
    rw [if_neg hline] at hp₁
    rw [if_neg hline₂] at hp₂
    cases hp₁
    cases hp₂
    exact ⟨rfl, rfl, fun h => absurd h Bool.false_ne_true⟩

def answer (httpCallback : HttpCallback) {β : Type} (p : Parsed β) : List Action :=
  if p.ok then respond httpCallback p.ctx.request else badRequest

theorem onMessage_idle (httpCallback : HttpCallback) {ctx : HttpContext} (h : Idle ctx)
    (buf : ValidBuffer) :
    ∃ p ctx' rest, ctx.parsed buf.readable = some p ∧
      onMessage httpCallback ctx buf = some (answer httpCallback p, ctx', rest) ∧
      Idle ctx' ∧ rest.readable = p.rest := by
  have hgo : ctx.state ≠ .kGotAll := by
    rw [h.state]
    exact HttpRequestParseState.noConfusion
  obtain ⟨p, hp, hview⟩ := HttpContext.parseRequest_spec hgo buf
  rw [onMessage, hp, Option.map_some]
  cases hok : p.ok with
  | false =>
    refine ⟨p.view, p.ctx, p.rest, hview, ?_, h.rejected hview hok, rfl⟩
    simp only [answer, Parsed.view, hok, Bool.false_eq_true, if_false]
  | true =>
    refine ⟨p.view, p.ctx.reset, p.rest, hview, ?_, idle_reset p.ctx, rfl⟩
    simp only [answer, Parsed.view, hok, if_true]

theorem outputs_emit (c : Conn) (a : Action) : c.outputs <+: (c.emit a).outputs := by
  cases a with
  | callback request => exact List.prefix_append _ _
  | send data =>
    rw [Conn.emit]
    split_ifs
    · exact List.prefix_append _ _
    · exact List.prefix_rfl
  | shutdown =>
    rw [Conn.emit]
    split_ifs
    · exact List.prefix_append _ _
    · exact List.prefix_rfl

theorem outputs_foldl_emit (c : Conn) (actions : List Action) :
    c.outputs <+: (actions.foldl Conn.emit c).outputs := by
  induction actions generalizing c with
  | nil => exact List.prefix_rfl
  | cons a actions ih => exact (outputs_emit c a).trans (ih (c.emit a))

/-- Two connections that nothing observable distinguishes; their vectors may differ. -/
structure Conn.Alike (c₁ c₂ : Conn) : Prop where
  input : c₁.inputBuffer.readable = c₂.inputBuffer.readable
  connected : c₁.connected = c₂.connected
  outputs : c₁.outputs = c₂.outputs

theorem Conn.Alike.emit {c₁ c₂ : Conn} (h : Alike c₁ c₂) (a : Action) :
    Alike (c₁.emit a) (c₂.emit a) := by
  obtain ⟨hinput, hconnected, houtputs⟩ := h
  cases a with
  | callback request => exact ⟨hinput, hconnected, congrArg (· ++ _) houtputs⟩
  | send data =>
    rw [Conn.emit, Conn.emit, ← hconnected]
    split_ifs
    · exact ⟨hinput, rfl, congrArg (· ++ _) houtputs⟩
    · exact ⟨hinput, hconnected, houtputs⟩
  | shutdown =>
    rw [Conn.emit, Conn.emit, ← hconnected]
    split_ifs
    · exact ⟨hinput, rfl, congrArg (· ++ _) houtputs⟩
    · exact ⟨hinput, hconnected, houtputs⟩

theorem Conn.Alike.foldl_emit {c₁ c₂ : Conn} (h : Alike c₁ c₂) (actions : List Action) :
    Alike (actions.foldl Conn.emit c₁) (actions.foldl Conn.emit c₂) := by
  induction actions generalizing c₁ c₂ with
  | nil => exact h
  | cons a actions ih => exact ih (h.emit a)

namespace Thread

variable {κ : Type*} [DecidableEq κ]

theorem handleRead_spec (httpCallback : HttpCallback) {t : Thread κ} (h : Idle t.ctx)
    (d : κ × Bytes) :
    ∃ t', handleRead httpCallback t d = some t' ∧ Idle t'.ctx ∧
      (∀ c, c ≠ d.1 → t'.conns c = t.conns c) ∧ (d.2 = [] → t' = t) ∧
      (d.2 ≠ [] → ∃ p rest, t.ctx.parsed ((t.conns d.1).inputBuffer.readable ++ d.2) = some p ∧
        rest.readable = p.rest ∧ t'.conns d.1 =
          (answer httpCallback p).foldl Conn.emit { t.conns d.1 with inputBuffer := rest }) := by
  by_cases hd : d.2 = []
  · refine ⟨t, ?_, h, fun _ _ => rfl, fun _ => rfl, fun hne => absurd hd hne⟩
    rw [handleRead]
    simp only [ValidBuffer.readFd_fst, ReadvResult.report, hd, List.length_nil, Nat.cast_zero,
      lt_irrefl, if_false]
  · have hpos : (0 : ℤ) < d.2.length := by
      have := List.length_pos_iff.mpr hd
      omega
    obtain ⟨p, ctx, rest, hp, hmessage, hidle, hrest⟩ :=
      onMessage_idle httpCallback h ((t.conns d.1).inputBuffer.readFd (.got d.2)).2
    rw [ValidBuffer.readable_readFd] at hp
    refine ⟨⟨ctx, Function.update t.conns d.1
      ((answer httpCallback p).foldl Conn.emit { t.conns d.1 with inputBuffer := rest })⟩,
      ?_, hidle, ?_, fun hnil => absurd hnil hd, ?_⟩
    · rw [handleRead]
      simp only [ValidBuffer.readFd_fst, ReadvResult.report, if_pos hpos, hmessage, Option.map_some]
    · intro c hc
      exact Function.update_of_ne hc _ _
    · intro _
      exact ⟨p, rest, hp, hrest, Function.update_self _ _ _⟩

theorem callback_outputs (httpCallback : HttpCallback) (request : HttpRequest) (c : Conn) :
    c.outputs ++ [.callback request] <+:
      ((respond httpCallback request).foldl Conn.emit c).outputs := by
  rw [respond, List.cons_append, List.foldl_cons]
  exact outputs_foldl_emit (c.emit (.callback request)) _

theorem handleRead_unended (httpCallback : HttpCallback) {t t' : Thread κ} (h : Idle t.ctx)
    {d : κ × Bytes} (ht : handleRead httpCallback t d = some t') (hd : Unended t d) :
    (t.conns d.1).outputs ++ [.callback t.ctx.request] <+: (t'.conns d.1).outputs := by
  obtain ⟨u, hu, _, _, _, hanswer⟩ := handleRead_spec httpCallback h d
  cases ht.symm.trans hu
  obtain ⟨p, rest, hp, _, hconn⟩ := hanswer hd.1
  rw [HttpContext.parsed_unended h.state hd.2] at hp
  cases hp
  rw [hconn]
  exact callback_outputs httpCallback t.ctx.request { t.conns d.1 with inputBuffer := rest }

theorem request_of_outputs {before outputs : List Action} {r₁ r₂ : HttpRequest}
    (h₁ : before ++ [.callback r₁] <+: outputs) (h₂ : before ++ [.callback r₂] <+: outputs) :
    r₁ = r₂ := by
  have hlen :
      (before ++ [Action.callback r₁]).length = (before ++ [Action.callback r₂]).length := by
    rw [List.length_append, List.length_append]
    rfl
  have heq := (List.prefix_of_prefix_length_le h₁ h₂ hlen.le).eq_of_length hlen
  rw [List.append_cancel_left_eq, List.singleton_inj, Action.callback.injEq] at heq
  exact heq

/-- A delivery on two alike connections keeps them alike when it has the end of a line, or when it
finds the same request in both contexts. -/
theorem handleRead_alike (httpCallback : HttpCallback) {t₁ t₂ t₁' t₂' : Thread κ}
    (h₁ : Idle t₁.ctx) (h₂ : Idle t₂.ctx) {d : κ × Bytes}
    (halike : (t₁.conns d.1).Alike (t₂.conns d.1))
    (ht₁ : handleRead httpCallback t₁ d = some t₁') (ht₂ : handleRead httpCallback t₂ d = some t₂')
    (hleft : Unended t₁ d → t₁.ctx.request = t₂.ctx.request) :
    (t₁'.conns d.1).Alike (t₂'.conns d.1) := by
  by_cases hd : d.2 = []
  · obtain ⟨u₁, hu₁, _, _, hnil₁, _⟩ := handleRead_spec httpCallback h₁ d
    obtain ⟨u₂, hu₂, _, _, hnil₂, _⟩ := handleRead_spec httpCallback h₂ d
    cases ht₁.symm.trans hu₁
    cases ht₂.symm.trans hu₂
    rw [hnil₁ hd, hnil₂ hd]
    exact halike
  · obtain ⟨u₁, hu₁, _, _, _, hanswer₁⟩ := handleRead_spec httpCallback h₁ d
    obtain ⟨u₂, hu₂, _, _, _, hanswer₂⟩ := handleRead_spec httpCallback h₂ d
    cases ht₁.symm.trans hu₁
    cases ht₂.symm.trans hu₂
    obtain ⟨p₁, rest₁, hp₁, hrest₁, hconn₁⟩ := hanswer₁ hd
    obtain ⟨p₂, rest₂, hp₂, hrest₂, hconn₂⟩ := hanswer₂ hd
    rw [← halike.input] at hp₂
    have hsame : answer httpCallback p₁ = answer httpCallback p₂ ∧ p₁.rest = p₂.rest := by
      cases ha : search Buffer.kCRLF ((t₁.conns d.1).inputBuffer.readable ++ d.2) with
      | none =>
        rw [HttpContext.parsed_unended h₁.state ha] at hp₁
        rw [HttpContext.parsed_unended h₂.state ha] at hp₂
        cases hp₁
        cases hp₂
        simp only [answer, hleft ⟨hd, ha⟩, and_self]
      | some i =>
        obtain ⟨hok, hrest, hctx⟩ := h₁.parsed_agree h₂ ha hp₁ hp₂
        refine ⟨?_, hrest⟩
        by_cases hyes : p₁.ok = true
        · rw [answer, answer, if_pos hyes, if_pos (hok ▸ hyes), hctx hyes]
        · rw [answer, answer, if_neg hyes, if_neg (hok ▸ hyes)]
    rw [hconn₁, hconn₂, hsame.1]
    apply Conn.Alike.foldl_emit
    exact ⟨by rw [hrest₁, hrest₂, hsame.2], halike.connected, halike.outputs⟩

theorem serve_cons (httpCallback : HttpCallback) {t t' : Thread κ} {d : κ × Bytes}
    (ht : handleRead httpCallback t d = some t') (h : History κ) :
    serve httpCallback t (d :: h) = serve httpCallback t' h := by
  rw [serve, List.foldlM_cons, ht]
  rfl

theorem leftovers_cons (httpCallback : HttpCallback) (b : κ) {t t' : Thread κ} {d : κ × Bytes}
    (ht : handleRead httpCallback t d = some t') (h : History κ) :
    leftovers httpCallback b t (d :: h) =
      (if d.1 = b ∧ Unended t d then [t.ctx.request] else []) ++ leftovers httpCallback b t' h := by
  rw [leftovers, ht]
  rfl

theorem serve_returns (httpCallback : HttpCallback) {t : Thread κ} (hidle : Idle t.ctx)
    (h : History κ) :
    ∃ t', serve httpCallback t h = some t' ∧ Idle t'.ctx ∧
      ∀ b, (t.conns b).outputs <+: (t'.conns b).outputs := by
  induction h generalizing t with
  | nil => exact ⟨t, rfl, hidle, fun _ => List.prefix_rfl⟩
  | cons d h ih =>
    obtain ⟨u, hu, huidle, hother, hnil, hanswer⟩ := handleRead_spec httpCallback hidle d
    obtain ⟨t', ht', hidle', houtputs⟩ := ih huidle
    refine ⟨t', (serve_cons httpCallback hu h).trans ht', hidle', ?_⟩
    intro b
    refine List.IsPrefix.trans ?_ (houtputs b)
    by_cases hb : b = d.1
    · subst hb
      by_cases hd : d.2 = []
      · rw [hnil hd]
      · obtain ⟨p, rest, _, _, hconn⟩ := hanswer hd
        rw [hconn]
        exact outputs_foldl_emit { t.conns d.1 with inputBuffer := rest } _
    · rw [hother b hb]

theorem serve_others (httpCallback : HttpCallback) {t : Thread κ} (hidle : Idle t.ctx) {b : κ}
    {h : History κ} (hb : ∀ d ∈ h, d.1 ≠ b) :
    ∃ t', serve httpCallback t h = some t' ∧ Idle t'.ctx ∧ t'.conns b = t.conns b := by
  induction h generalizing t with
  | nil => exact ⟨t, rfl, hidle, rfl⟩
  | cons d h ih =>
    rw [List.forall_mem_cons] at hb
    obtain ⟨u, hu, huidle, hother, _⟩ := handleRead_spec httpCallback hidle d
    obtain ⟨t', ht', htidle, hconn⟩ := ih huidle hb.2
    exact ⟨t', (serve_cons httpCallback hu h).trans ht', htidle,
      hconn.trans (hother b (Ne.symm hb.1))⟩

theorem leftovers_others (httpCallback : HttpCallback) {t t' : Thread κ} (hidle : Idle t.ctx)
    {b : κ} {h : History κ} (hb : ∀ d ∈ h, d.1 ≠ b) (ht' : serve httpCallback t h = some t')
    (rest : History κ) :
    leftovers httpCallback b t (h ++ rest) = leftovers httpCallback b t' rest := by
  induction h generalizing t with
  | nil =>
    cases ht'
    rfl
  | cons d h ih =>
    rw [List.forall_mem_cons] at hb
    obtain ⟨u, hu, huidle, _⟩ := handleRead_spec httpCallback hidle d
    rw [serve_cons httpCallback hu] at ht'
    rw [List.cons_append, leftovers_cons httpCallback b hu, if_neg fun hd => hb.1 hd.1,
      List.nil_append, ih huidle hb.2 ht']

theorem serve_append (httpCallback : HttpCallback) {t t' : Thread κ} {h : History κ}
    (ht' : serve httpCallback t h = some t') (rest : History κ) :
    serve httpCallback t (h ++ rest) = serve httpCallback t' rest := by
  rw [serve, List.foldlM_append]
  exact (congrArg (· >>= _) ht').trans rfl

theorem received_cons {b : κ} {h : History κ} {data : Bytes} {chunks : List Bytes}
    (hb : received b h = data :: chunks) :
    ∃ others rest, h = others ++ (b, data) :: rest ∧ (∀ d ∈ others, d.1 ≠ b) ∧
      received b rest = chunks := by
  obtain ⟨d, _, hmap, rfl, rfl⟩ := List.map_eq_cons_iff.mp hb
  obtain ⟨others, rest, rfl, hothers, hd, rfl⟩ := List.filter_eq_cons_iff.mp hmap
  refine ⟨others, rest, ?_, ?_, rfl⟩
  · rw [← of_decide_eq_true hd]
  · intro d hd hb
    exact hothers d hd (decide_eq_true hb)

theorem received_eq_nil {b : κ} {h : History κ} (hb : received b h = []) : ∀ d ∈ h, d.1 ≠ b := by
  intro d hd hdb
  have hmem : d ∈ h.filter fun d => d.1 = b := List.mem_filter.mpr ⟨hd, decide_eq_true hdb⟩
  rw [List.map_eq_nil_iff.mp hb] at hmem
  cases hmem

/-- From alike connections, the same deliveries on `b` end in the same outputs exactly when they
find the same leftovers. -/
theorem serve_alike_iff (httpCallback : HttpCallback) {b : κ} {chunks : List Bytes}
    {t₁ t₂ : Thread κ} {h₁ h₂ : History κ} (hidle₁ : Idle t₁.ctx) (hidle₂ : Idle t₂.ctx)
    (halike : (t₁.conns b).Alike (t₂.conns b)) (hb₁ : received b h₁ = chunks)
    (hb₂ : received b h₂ = chunks) :
    ∃ t₁' t₂', serve httpCallback t₁ h₁ = some t₁' ∧ serve httpCallback t₂ h₂ = some t₂' ∧
      ((t₁'.conns b).outputs = (t₂'.conns b).outputs ↔
        leftovers httpCallback b t₁ h₁ = leftovers httpCallback b t₂ h₂) := by
  induction chunks generalizing t₁ t₂ h₁ h₂ with
  | nil =>
    obtain ⟨t₁', ht₁', _, hconn₁⟩ := serve_others httpCallback hidle₁ (received_eq_nil hb₁)
    obtain ⟨t₂', ht₂', _, hconn₂⟩ := serve_others httpCallback hidle₂ (received_eq_nil hb₂)
    have hleft₁ := leftovers_others httpCallback hidle₁ (received_eq_nil hb₁) ht₁' []
    have hleft₂ := leftovers_others httpCallback hidle₂ (received_eq_nil hb₂) ht₂' []
    rw [List.append_nil] at hleft₁ hleft₂
    refine ⟨t₁', t₂', ht₁', ht₂', ?_⟩
    rw [hconn₁, hconn₂, hleft₁, hleft₂]
    exact iff_of_true halike.outputs rfl
  | cons data chunks ih =>
    obtain ⟨others₁, rest₁, rfl, hothers₁, hrest₁⟩ := received_cons hb₁
    obtain ⟨others₂, rest₂, rfl, hothers₂, hrest₂⟩ := received_cons hb₂
    obtain ⟨u₁, hu₁, huidle₁, hconn₁⟩ := serve_others httpCallback hidle₁ hothers₁
    obtain ⟨u₂, hu₂, huidle₂, hconn₂⟩ := serve_others httpCallback hidle₂ hothers₂
    obtain ⟨v₁, hv₁, hvidle₁, _⟩ := handleRead_spec httpCallback huidle₁ (b, data)
    obtain ⟨v₂, hv₂, hvidle₂, _⟩ := handleRead_spec httpCallback huidle₂ (b, data)
    rw [← hconn₁, ← hconn₂] at halike
    have hunended : Unended u₂ (b, data) ↔ Unended u₁ (b, data) := by
      unfold Unended
      rw [halike.input]
    rw [serve_append httpCallback hu₁, serve_append httpCallback hu₂, serve_cons httpCallback hv₁,
      serve_cons httpCallback hv₂, leftovers_others httpCallback hidle₁ hothers₁ hu₁,
      leftovers_others httpCallback hidle₂ hothers₂ hu₂, leftovers_cons httpCallback b hv₁,
      leftovers_cons httpCallback b hv₂]
    by_cases hsame : Unended u₁ (b, data) → u₁.ctx.request = u₂.ctx.request
    · -- this delivery is answered alike, and both runs go on from alike connections
      obtain ⟨t₁', t₂', ht₁', ht₂', hiff⟩ := ih hvidle₁ hvidle₂
        (handleRead_alike httpCallback huidle₁ huidle₂ halike hv₁ hv₂ hsame) hrest₁ hrest₂
      refine ⟨t₁', t₂', ht₁', ht₂', hiff.trans ?_⟩
      by_cases hend : Unended u₁ (b, data)
      · rw [if_pos ⟨rfl, hend⟩, if_pos ⟨rfl, hunended.mpr hend⟩, hsame hend,
          List.append_cancel_left_eq]
      · rw [if_neg fun h => hend h.2, if_neg fun h => hend (hunended.mp h.2), List.nil_append,
          List.nil_append]
    · -- the callback is called with different requests
      rw [Classical.not_imp] at hsame
      obtain ⟨hend, hne⟩ := hsame
      obtain ⟨t₁', ht₁', -, hmore₁⟩ := serve_returns httpCallback hvidle₁ rest₁
      obtain ⟨t₂', ht₂', -, hmore₂⟩ := serve_returns httpCallback hvidle₂ rest₂
      refine ⟨t₁', t₂', ht₁', ht₂', iff_of_false ?_ ?_⟩
      · intro heq
        have hfirst₁ := (handleRead_unended httpCallback huidle₁ hv₁ hend).trans (hmore₁ b)
        have hfirst₂ := (handleRead_unended httpCallback huidle₂ hv₂ (hunended.mpr hend)).trans
          (hmore₂ b)
        rw [halike.outputs, heq] at hfirst₁
        exact hne (request_of_outputs hfirst₁ hfirst₂)
      · rw [if_pos ⟨rfl, hend⟩, if_pos ⟨rfl, hunended.mpr hend⟩]
        intro heq
        rw [List.singleton_append, List.singleton_append, List.cons.injEq] at heq
        exact hne heq.1

end Thread

/-- `parseRequest` ends in every state but `kGotAll`, and however bytes arrive on the connections of
a thread, every `onMessage` returns and leaves the context at a request line without headers. -/
theorem parse_ends {κ : Type*} [DecidableEq κ] (httpCallback : HttpCallback) :
    (∀ ctx : HttpContext, ctx.state ≠ .kGotAll → ∀ buf, ∃ p, ctx.parseRequest buf = some p) ∧
      ∀ h : History κ, ∃ t, Thread.init.serve httpCallback h = some t ∧
        t.ctx.state = .kExpectRequestLine ∧ t.ctx.request.headers = OrderedMap.empty := by
  constructor
  · intro ctx hctx buf
    obtain ⟨p, hp, -⟩ := HttpContext.parseRequest_spec hctx buf
    exact ⟨p, hp⟩
  · intro h
    obtain ⟨t, ht, hidle, -⟩ := Thread.serve_returns (t := Thread.init) httpCallback idle_init h
    exact ⟨t, ht, hidle.state, hidle.headers⟩

/-- With the same deliveries on the connection `b` and a callback that is a function of the request,
the callbacks and responses on `b` are the same in two histories of the thread exactly when the
deliveries on `b` without the end of a line find the same requests in the context. -/
theorem answered_alike_iff {κ : Type*} [DecidableEq κ] (httpCallback : HttpCallback) (b : κ)
    (h₁ h₂ : History κ) (hb : received b h₁ = received b h₂) :
    ∃ t₁ t₂, Thread.init.serve httpCallback h₁ = some t₁ ∧
      Thread.init.serve httpCallback h₂ = some t₂ ∧
      ((t₁.conns b).outputs = (t₂.conns b).outputs ↔
        Thread.leftovers httpCallback b Thread.init h₁ =
          Thread.leftovers httpCallback b Thread.init h₂) :=
  Thread.serve_alike_iff httpCallback idle_init idle_init ⟨rfl, rfl, rfl⟩ rfl hb.symm

/-- A request line with an unknown version on one connection, and then a byte on the other. -/
def leakingHistory : History Bool :=
  [(false, ascii "GET /secret HTTP/2.0\r\n"), (true, ascii "G")]

/-- The same for the other connection alone. -/
def quietHistory : History Bool := [(true, ascii "G")]

def wholeHistory : History Bool :=
  [(false, ascii "GET /secret HTTP/1.1\r\n\r\n"), (true, ascii "GET / HTTP/1.1\r\n\r\n")]

def wholeQuietHistory : History Bool := [(true, ascii "GET / HTTP/1.1\r\n\r\n")]

theorem leakingHistory_iff :
    (∃ t₁ t₂, Thread.init.serve defaultHttpCallback leakingHistory = some t₁ ∧
      Thread.init.serve defaultHttpCallback quietHistory = some t₂ ∧
      ((t₁.conns true).outputs = (t₂.conns true).outputs ↔
        Thread.leftovers defaultHttpCallback true Thread.init leakingHistory =
          Thread.leftovers defaultHttpCallback true Thread.init quietHistory)) ∧
    ∃ t₁ t₂, Thread.init.serve defaultHttpCallback wholeHistory = some t₁ ∧
      Thread.init.serve defaultHttpCallback wholeQuietHistory = some t₂ ∧
      (t₁.conns true).outputs = (t₂.conns true).outputs := by
  refine ⟨answered_alike_iff defaultHttpCallback true leakingHistory quietHistory rfl, ?_⟩
  obtain ⟨t₁, t₂, ht₁, ht₂, hiff⟩ :=
    answered_alike_iff defaultHttpCallback true wholeHistory wholeQuietHistory rfl
  exact ⟨t₁, t₂, ht₁, ht₂, hiff.mpr (by decide +kernel)⟩

/-- The callback for the second connection is called with the path that the first one has sent. -/
theorem leakingHistory_leaks :
    ¬ ∀ (h₁ h₂ : History Bool), received true h₁ = received true h₂ →
      ∃ t₁ t₂, Thread.init.serve defaultHttpCallback h₁ = some t₁ ∧
        Thread.init.serve defaultHttpCallback h₂ = some t₂ ∧
        (t₁.conns true).outputs = (t₂.conns true).outputs := by
  intro h
  obtain ⟨t₁, t₂, ht₁, ht₂, heq⟩ := h leakingHistory quietHistory rfl
  have hleak : (Thread.init.serve defaultHttpCallback leakingHistory).map
        (fun t => (t.conns true).outputs) ≠
      (Thread.init.serve defaultHttpCallback quietHistory).map
        (fun t => (t.conns true).outputs) := by
    decide +kernel
  rw [ht₁, ht₂, Option.map_some, Option.map_some, heq] at hleak
  exact hleak rfl

end HttpServer

end Matelib
