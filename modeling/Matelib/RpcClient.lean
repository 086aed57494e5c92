import Matelib.RpcServer
import Matelib.TcpConnection

/-!
# The RPC client

`call` packs a request into the serializer of the client, and `netCall` writes it, reads a reply and
unpacks that. A system is a client connected to a server; when requests and replies arrive whole, a
call through it is a direct call of the bound function.
-/

namespace Matelib

structure RpcClient where
  stateCode : RpcStateCode
  serializer : Serializer
  deriving DecidableEq

namespace RpcClient

open RpcServer TcpConnection

def init : RpcClient := ⟨RPC_SUCCESS, Serializer.init⟩

/-- `call` up to `netCall`: the name and the arguments are packed. -/
def package (c : RpcClient) (call : Invocation) : Option RpcClient :=
  ((c.serializer.inputStr call.name).bind fun s => s.packageArgs call.args).map fun s =>
    { c with serializer := s }

/-- The result of a call that failed on the network. -/
def timeout (ret : Option Ty) : ValueT :=
  { ValueT.init ret with stateCode := RPC_RECV_TIMEOUT, msg := ascii "recv timeout" }

/-- `netCall`, given what `::write` and `readv` return. The byte counts pass through `int`. -/
def netCall (c : RpcClient) (ret : Option Ty) (written : ℤ) (reply : ReadvResult) :
    Option (ValueT × RpcClient) :=
  if c.stateCode = RPC_RECV_TIMEOUT then some (timeout ret, c)
  else
    let n := toInt c.serializer.readableBytes
    let s := c.serializer.clear
    if toInt written ≠ n then some (timeout ret, ⟨RPC_RECV_TIMEOUT, s⟩)
    else
      let (n, buf) := s.streamBuffer.readFd reply
      let s := { s with streamBuffer := buf }
      if toInt n.1 ≤ 0 then some (timeout ret, ⟨RPC_RECV_TIMEOUT, s⟩)
      else
        (ValueT.read s (ValueT.init ret)).map fun (val, s) =>
          let code := if val.stateCode = RPC_RECV_TIMEOUT then RPC_RECV_TIMEOUT else c.stateCode
          (val, ⟨code, s.clear⟩)

variable {σ : Type}

structure System (σ : Type) where
  client : RpcClient
  server : Session σ

def System.init (app : σ) : System σ := ⟨RpcClient.init, Session.init app⟩

/-- A call of the client, with the result type it asks for. -/
structure Call extends Invocation where
  ret : Option Ty
  deriving DecidableEq

/-- A call on a network that carries requests and replies whole: `::write` accepts the request, it
arrives in one delivery, and one `readFd` brings the reply. -/
def call (functions : Functions σ) (sys : System σ) (c : Call) : Option (ValueT × System σ) :=
  (sys.client.package c.toInvocation).bind fun client =>
    let request := client.serializer.streamBuffer.readable
    if client.stateCode = RPC_RECV_TIMEOUT then
      -- nothing is sent any more
      (client.netCall c.ret 0 (.got [])).map fun (val, client) => (val, ⟨client, sys.server⟩)
    else
      (handleRead functions sys.server request).bind fun server =>
        let reply := server.replies.getLastD []
        (client.netCall c.ret request.length (.got reply)).map fun (val, client) =>
          (val, ⟨client, server⟩)

def callAll (functions : Functions σ) : System σ → List Call → Option (List (ValueT × System σ))
  | _, [] => some []
  | sys, c :: cs => (call functions sys c).bind fun r =>
    (callAll functions r.2 cs).map fun rs => r :: rs

/-- A call with arguments and a result type that match the function bound to its name. -/
structure Matching (functions : Functions σ) (c : Call) : Prop extends
    WellFormed functions c.toInvocation where
  ret_match : ∀ f, functions.find c.name = some f → c.ret = f.ret

instance (functions : Functions σ) (c : Call) : Decidable (Matching functions c) :=
  decidable_of_iff (WellFormed functions c.toInvocation ∧
      ∀ f, functions.find c.name = some f → c.ret = f.ret)
    ⟨fun ⟨h₁, h₂⟩ => ⟨h₁, h₂⟩, fun h => ⟨h.1, h.2⟩⟩

/-- The format can carry the result of the call, when it is made in the state `app`. -/
def LegalResult (functions : Functions σ) (app : σ) (call : Invocation) : Prop :=
  ∀ f, functions.find call.name = some f → (f.call_helper app call.args).1.Legal

/-- The results of a sequence of calls are legal, of each in the state that the earlier ones
leave. -/
def LegalResults (functions : Functions σ) : σ → List Call → Prop
  | _, [] => True
  | app, c :: cs => LegalResult functions app c.toInvocation ∧
    LegalResults functions (answer functions app c.toInvocation).app cs

instance (functions : Functions σ) (app : σ) (call : Invocation) :
    Decidable (LegalResult functions app call) :=
  inferInstanceAs (Decidable (∀ f, functions.find call.name = some f → _))

instance LegalResults.decidable (functions : Functions σ) :
    (app : σ) → (calls : List Call) → Decidable (LegalResults functions app calls)
  | _, [] => isTrue trivial
  | app, c :: cs =>
    have := LegalResults.decidable functions (answer functions app c.toInvocation).app cs
    inferInstanceAs (Decidable (_ ∧ _))

/-- The client has had no failure on the network, and nothing is left of earlier calls. -/
structure System.Idle (sys : System σ) : Prop where
  no_timeout : sys.client.stateCode ≠ RPC_RECV_TIMEOUT
  client_empty : sys.client.serializer.Holds []
  server_idle : sys.server.Idle

theorem System.idle_init (app : σ) : (System.init app).Idle :=
  ⟨show RPC_SUCCESS ≠ RPC_RECV_TIMEOUT by decide, Serializer.holds_init, Session.idle_init app⟩

/-- From `sys` to `sys'` the call `c` was a direct call: a bound function is called exactly once,
with exactly the arguments of the caller, and its result is returned; an unbound name calls nothing
and is reported. Both serializers are empty afterwards. -/
structure DirectCall (functions : Functions σ) (sys : System σ) (c : Call) (val : ValueT)
    (sys' : System σ) : Prop where
  bound : ∀ f, functions.find c.name = some f →
    sys'.server.invocations = sys.server.invocations ++ [c.toInvocation] ∧
    val = ValueT.success (f.call_helper sys.server.app c.args).1 ∧
    sys'.server.app = (f.call_helper sys.server.app c.args).2
  notBound : functions.find c.name = none →
    sys'.server.invocations = sys.server.invocations ∧
    val.stateCode = RPC_FUNCTION_NOTBIND ∧ sys'.server.app = sys.server.app
  client_empty : sys'.client.serializer.readableBytes = 0
  server_empty : sys'.server.ds.readableBytes = 0

def Transparent (functions : Functions σ) : System σ → List Call → List (ValueT × System σ) → Prop
  | _, [], [] => True
  | sys, c :: cs, r :: rs => DirectCall functions sys c r.1 r.2 ∧ Transparent functions r.2 cs rs
  | _, _, _ => False

theorem package_appends {client : RpcClient} {a : Bytes} (h : client.serializer.Holds a)
    (call : Invocation) :
    ∃ s, client.package call = some { client with serializer := s } ∧
      s.Holds (a ++ ((Value.str call.name).written ++ call.args.flatMap Value.written)) := by
  obtain ⟨s₁, hs₁, h₁⟩ := h.inputObj_written (.str call.name)
  obtain ⟨s₂, hs₂, h₂⟩ := h₁.packageArgs_written call.args
  have hname : client.serializer.inputStr call.name = some s₁ := hs₁
  rw [List.append_assoc] at h₂
  exact ⟨s₂, by rw [package, hname, Option.bind_some, hs₂, Option.map_some], h₂⟩

theorem package_written {client : RpcClient} (h : client.serializer.Holds []) (call : Invocation) :
    ∃ s, client.package call = some { client with serializer := s } ∧
      s.Holds ((Value.str call.name).written ++ call.args.flatMap Value.written) :=
  package_appends h call

theorem package_spec {functions : Functions σ} {client : RpcClient} (h : client.serializer.Holds [])
    {call : Invocation} (hcall : WellFormed functions call) :
    ∃ s, client.package call = some { client with serializer := s } ∧ s.Holds (request call) := by
  have hall := package_written h call
  rwa [hcall.name_legal.written,
    List.flatMap_congr fun v hv => (hcall.args_legal v hv).written] at hall

theorem holds_reply {s : Serializer} {a : Bytes} (h : s.Holds a) (reply : ReadvResult) :
    Serializer.Holds
      { s.clear with streamBuffer := (s.clear.streamBuffer.readFd reply).2 } reply.bytes :=
  ⟨h.clear.1, by rw [ValidBuffer.readable_readFd, h.clear.2, List.nil_append]⟩

theorem netCall_reply {c : RpcClient} (hc : c.stateCode ≠ RPC_RECV_TIMEOUT) {a reply : Bytes}
    (h : c.serializer.Holds a) (hpos : 0 < reply.length) (hsmall : reply.length < 2147483648)
    {ret : Option Ty} {val : ValueT} (hval : val.stateCode ≠ RPC_RECV_TIMEOUT)
    (hread : ∀ s : Serializer, s.Holds reply →
      ∃ s', ValueT.read s (ValueT.init ret) = some (val, s') ∧ s'.Holds []) :
    ∃ s', c.netCall ret a.length (.got reply) = some (val, ⟨c.stateCode, s'⟩) ∧ s'.Holds [] := by
  obtain ⟨s', hs', hempty⟩ := hread _ (holds_reply h (.got reply))
  have hint : toInt (reply.length : ℤ) = reply.length := toInt_eq_self (by omega) (by omega)
  have hgot : ¬ ((reply.length : ℤ) ≤ 0) := by omega
  refine ⟨s'.clear, ?_, hempty.clear⟩
  simp only [netCall, if_neg hc, h.readableBytes, ne_eq, not_true_eq_false, if_false,
    ValidBuffer.readFd_fst, ReadvResult.report, hint, if_neg hgot, hs', Option.map_some,
    if_neg hval]

theorem length_wire_str {data : Bytes} (h : data.length < 65536) :
    (Value.str data).write.length < 65538 := by
  rw [Value.write, List.length_append, length_littleEndian]
  omega

theorem length_write_lt {v : Value} (h : v.Legal) : v.write.length < 65538 := by
  cases v with
  | int w x =>
    rw [Value.write, length_littleEndian]
    cases w <;> decide
  | str data => exact length_wire_str h.2

theorem netCall_answer {functions : Functions σ} {c : Call} (hc : Matching functions c) {app : σ}
    (hlegal : LegalResult functions app c.toInvocation) {client : RpcClient}
    (hclient : client.stateCode ≠ RPC_RECV_TIMEOUT) {a : Bytes} (h : client.serializer.Holds a) :
    ∃ val s', client.netCall c.ret a.length (.got (answer functions app c.toInvocation).reply) =
        some (val, ⟨client.stateCode, s'⟩) ∧ s'.Holds [] ∧
      (∀ f, functions.find c.name = some f →
        val = ValueT.success (f.call_helper app c.args).1) ∧
      (functions.find c.name = none → val.stateCode = RPC_FUNCTION_NOTBIND) := by
  cases hfind : functions.find c.name with
  | some f =>
    have hval := hlegal f hfind
    have hty := f.ty_call_helper app c.args
    rw [← hc.ret_match f hfind] at hty
    have hreply : (answer functions app c.toInvocation).reply =
        (ValueT.success (f.call_helper app c.args).1).wire := by rw [answer, hfind]
    have hlen := ValueT.length_wire_success (f.call_helper app c.args).1
    have hsmall := length_write_lt hval
    rw [hval.written] at hlen
    have hread : ∀ s : Serializer, s.Holds (ValueT.success (f.call_helper app c.args).1).wire →
        ∃ s', ValueT.read s (ValueT.init c.ret) =
          some (ValueT.success (f.call_helper app c.args).1, s') ∧ s'.Holds [] := by
      intro s hs
      rw [← List.append_nil (ValueT.wire _)] at hs
      exact ValueT.read_success hs hval hty
    obtain ⟨s', hs', hempty⟩ := netCall_reply hclient h (by omega) (by omega)
      (show RPC_SUCCESS ≠ RPC_RECV_TIMEOUT by decide) hread
    refine ⟨_, s', by rw [hreply]; exact hs', hempty, ?_, ?_⟩
    · rintro f' ⟨⟩
      rfl
    · intro hnone
      cases hnone
  | none =>
    have hmsg := notBoundMsg_legal hc.name_legal.1
    have hreply : (answer functions app c.toInvocation).reply =
        littleEndian Width.w32.bytes RPC_FUNCTION_NOTBIND.toNat ++
          (Value.str (notBoundMsg c.name)).write := by rw [answer, hfind]
    have hsmall := length_write_lt hmsg
    have hlen : (littleEndian Width.w32.bytes RPC_FUNCTION_NOTBIND.toNat ++
        (Value.str (notBoundMsg c.name)).write).length =
          4 + (Value.str (notBoundMsg c.name)).write.length := by
      rw [List.length_append, length_littleEndian]
      rfl
    have hread : ∀ s : Serializer,
        s.Holds (littleEndian Width.w32.bytes RPC_FUNCTION_NOTBIND.toNat ++
          (Value.str (notBoundMsg c.name)).write) →
        ∃ s', ValueT.read s (ValueT.init c.ret) =
          some (⟨RPC_FUNCTION_NOTBIND, notBoundMsg c.name, (ValueT.init c.ret).value⟩, s') ∧
          s'.Holds [] := by
      intro s hs
      rw [← List.append_nil (Value.write _)] at hs
      exact ValueT.read_failure hs (by decide) hmsg
    obtain ⟨s', hs', hempty⟩ := netCall_reply hclient h (by omega) (by omega)
      (show RPC_FUNCTION_NOTBIND ≠ RPC_RECV_TIMEOUT by decide) hread
    refine ⟨_, s', by rw [hreply]; exact hs', hempty, ?_, fun _ => rfl⟩
    intro f hf
    cases hf

/-- One call on an idle system is a direct call and leaves it idle. -/
theorem call_direct {functions : Functions σ} {sys : System σ} (hsys : sys.Idle) {c : Call}
    (hc : Matching functions c) (hlegal : LegalResult functions sys.server.app c.toInvocation) :
    ∃ val sys', call functions sys c = some (val, sys') ∧ DirectCall functions sys c val sys' ∧
      sys'.server.app = (answer functions sys.server.app c.toInvocation).app ∧ sys'.Idle := by
  obtain ⟨s, hs, hholds⟩ := package_spec hsys.client_empty hc.toWellFormed
  obtain ⟨server, hserver, hidle, happ, hinv, hrep⟩ :=
    handleRead_request hc.toWellFormed hsys.server_idle
  have hlast : server.replies.getLastD [] =
      (answer functions sys.server.app c.toInvocation).reply := by
    rw [hrep, List.getLastD_concat]
  have hopen : RpcClient.stateCode { sys.client with serializer := s } ≠ RPC_RECV_TIMEOUT :=
    hsys.no_timeout
  obtain ⟨val, s', hnet, hempty, hbound, hnotBound⟩ :=
    netCall_answer hc hlegal hopen hholds
  refine ⟨val, ⟨⟨sys.client.stateCode, s'⟩, server⟩, ?_, ?_, happ, hsys.no_timeout, hempty, hidle⟩
  · simp only [call, hs, Option.bind_some, if_neg hsys.no_timeout, hholds.2, hserver, hlast, hnet,
      Option.map_some]
  · refine ⟨?_, ?_, hempty.readableBytes, hidle.ds_empty.readableBytes⟩
    · intro f hf
      rw [answer, hf] at happ hinv
      exact ⟨hinv, hbound f hf, happ⟩
    · intro hf
      rw [answer, hf] at happ hinv
      exact ⟨hinv.trans (List.append_nil _), hnotBound hf, happ⟩

/-- Every sequence of matching calls with legal results, on a client and a server that carry
requests and replies whole, returns, and each of its calls is a direct call. -/
theorem calls_transparent {functions : Functions σ} {app : σ} {calls : List Call}
    (hcalls : ∀ c ∈ calls, Matching functions c) (hlegal : LegalResults functions app calls) :
    ∃ results, callAll functions (System.init app) calls = some results ∧
      Transparent functions (System.init app) calls results := by
  have hrun : ∀ {sys : System σ}, sys.Idle → LegalResults functions sys.server.app calls →
      ∃ results, callAll functions sys calls = some results ∧
        Transparent functions sys calls results := by
    clear hlegal
    induction calls with
    | nil => exact fun _ _ => ⟨[], rfl, trivial⟩
    | cons c cs ih =>
      intro sys hsys hlegal
      rw [List.forall_mem_cons] at hcalls
      obtain ⟨val, sys', hcall, hdirect, happ, hidle⟩ := call_direct hsys hcalls.1 hlegal.1
      obtain ⟨results, hresults, hrest⟩ := ih hcalls.2 hidle (by rw [happ]; exact hlegal.2)
      exact ⟨(val, sys') :: results, by
        rw [callAll, hcall, Option.bind_some, hresults, Option.map_some], hdirect, hrest⟩
  exact hrun (System.idle_init app) hlegal

/-- The calls of `RpcClient_test`, and one of a name that is not bound. -/
def sampleCalls : List Call :=
  [⟨callAdd 10 100, some (.int .w32)⟩, ⟨⟨ascii "print", [.str (ascii "RpcServer")]⟩, none⟩,
    ⟨callGetName, some .str⟩, ⟨callSetName (ascii "HelloWord"), none⟩, ⟨callUnbound, none⟩,
    ⟨callGetName, some .str⟩]

theorem sampleCalls_transparent :
    ∃ results, callAll testFunctions (System.init TestState.init) sampleCalls = some results ∧
      Transparent testFunctions (System.init TestState.init) sampleCalls results :=
  calls_transparent (by decide +kernel) (by decide +kernel)

/-- The string that was set comes back. -/
example : (callAll testFunctions (System.init TestState.init) sampleCalls).map
    (fun results => results.getLast?.map fun r => r.1.value) =
      some (some (.str (ascii "HelloWord"))) := by decide +kernel

end RpcClient

end Matelib
