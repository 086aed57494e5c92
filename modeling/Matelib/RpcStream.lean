import Matelib.RpcClient

/-!
# Replies in the byte stream

The replies of a server wait in the socket of the client as one stream of bytes. `netCall` reads it
once, decodes what it has got and drops what it has not decoded. So the results are about replies
that one `readFd` returns whole.
-/

namespace Matelib

namespace ValueT

def encode (val : ValueT) : Bytes :=
  littleEndian Width.w32.bytes val.stateCode.toNat ++ ((Value.str val.msg).write ++
    if val.stateCode = RPC_SUCCESS then val.value.write else [])

/-- What a server may reply to a call with result type `ret`. `RPC_RECV_TIMEOUT` stands for failures
that the client finds itself. -/
structure Encodable (ret : Option Ty) (val : ValueT) : Prop where
  no_timeout : val.stateCode ≠ RPC_RECV_TIMEOUT
  msg_legal : (Value.str val.msg).Legal
  success : val.stateCode = RPC_SUCCESS → val.value.Legal ∧ val.value.ty = valueType ret
  failure : val.stateCode ≠ RPC_SUCCESS → val.value = (init ret).value

instance (ret : Option Ty) (val : ValueT) : Decidable (val.Encodable ret) :=
  decidable_of_iff (val.stateCode ≠ RPC_RECV_TIMEOUT ∧ (Value.str val.msg).Legal ∧
      (val.stateCode = RPC_SUCCESS → val.value.Legal ∧ val.value.ty = valueType ret) ∧
      (val.stateCode ≠ RPC_SUCCESS → val.value = (init ret).value))
    ⟨fun ⟨h₁, h₂, h₃, h₄⟩ => ⟨h₁, h₂, h₃, h₄⟩, fun h => ⟨h.1, h.2, h.3, h.4⟩⟩

theorem encode_success {value : Value} (h : value.Legal) :
    (success value).encode = (success value).wire := by
  have hwritten : (success value).value.written = value.write := h.written
  rw [encode, wire, hwritten, List.append_assoc]
  rfl

theorem encodable_success {ret : Option Ty} {value : Value} (hvalue : value.Legal)
    (hty : value.ty = valueType ret) : (success value).Encodable ret where
  no_timeout := show RPC_SUCCESS ≠ RPC_RECV_TIMEOUT by decide
  msg_legal := show (Value.str []).Legal by decide
  success _ := ⟨hvalue, hty⟩
  failure h := absurd rfl h

theorem length_encode_pos (val : ValueT) : 0 < val.encode.length := by
  rw [encode, List.length_append, length_littleEndian]
  exact Nat.add_pos_left (by decide) _

theorem length_encode_lt {ret : Option Ty} {val : ValueT} (h : val.Encodable ret) :
    val.encode.length < 2147483648 := by
  have hmsg := RpcClient.length_write_lt h.msg_legal
  have hvalue : (if val.stateCode = RPC_SUCCESS then val.value.write else []).length < 65538 := by
    split_ifs with hcode
    · exact RpcClient.length_write_lt (h.success hcode).1
    · decide
  rw [encode, List.length_append, List.length_append, length_littleEndian]
  have hwidth : Width.w32.bytes = 4 := rfl
  omega

theorem read_encode {s : Serializer} {ret : Option Ty} {val : ValueT} {rest : Bytes}
    (h : s.Holds (val.encode ++ rest)) (hval : val.Encodable ret) :
    ∃ s', read s (init ret) = some (val, s') ∧ s'.Holds rest := by
  simp only [encode, List.append_assoc] at h
  obtain ⟨s₁, hs₁, h₁⟩ := h.outputInt_write
  obtain ⟨s₂, hs₂, h₂⟩ := h₁.outputStr_write hval.msg_legal
  have hcode : s.outputInt .w32 (init ret).stateCode = some (val.stateCode, s₁) := hs₁
  have hmsg : s₁.outputStr (init ret).msg = some (val.msg, s₂) := hs₂
  simp only [read, hcode, hmsg, Option.bind_some]
  by_cases hsuccess : val.stateCode = RPC_SUCCESS
  · obtain ⟨hlegal, hty⟩ := hval.success hsuccess
    rw [if_pos hsuccess] at h₂
    obtain ⟨s₃, hs₃, h₃⟩ := h₂.outputObj_write hlegal
    rw [hty] at hs₃
    have hvalue : s₂.outputObj (init ret).value = some (val.value, s₃) := hs₃
    rw [if_pos hsuccess, hvalue]
    exact ⟨s₃, rfl, h₃⟩
  · rw [if_neg hsuccess, List.nil_append] at h₂
    rw [if_neg hsuccess, ← hval.failure hsuccess]
    exact ⟨s₂, rfl, h₂⟩

end ValueT

namespace RpcServer

variable {σ : Type}

def answerValue (functions : Functions σ) (app : σ) (call : Invocation) (ret : Option Ty) :
    ValueT :=
  match functions.find call.name with
  | some f => ValueT.success (f.call_helper app call.args).1
  | none => ⟨RPC_FUNCTION_NOTBIND, notBoundMsg call.name, (ValueT.init ret).value⟩

theorem answer_encode {functions : Functions σ} {app : σ} {c : RpcClient.Call}
    (hc : RpcClient.Matching functions c)
    (hlegal : RpcClient.LegalResult functions app c.toInvocation) :
    (answer functions app c.toInvocation).reply =
        (answerValue functions app c.toInvocation c.ret).encode ∧
      (answerValue functions app c.toInvocation c.ret).Encodable c.ret := by
  rw [answer, answerValue]
  cases hfind : functions.find c.name with
  | some f =>
    have hty := f.ty_call_helper app c.args
    rw [← hc.ret_match f hfind] at hty
    have hvalue := hlegal f hfind
    exact ⟨(ValueT.encode_success hvalue).symm, ValueT.encodable_success hvalue hty⟩
  | none =>
    have hcode : RPC_FUNCTION_NOTBIND ≠ RPC_SUCCESS := by decide
    have htimeout : RPC_FUNCTION_NOTBIND ≠ RPC_RECV_TIMEOUT := by decide
    refine ⟨?_, htimeout, notBoundMsg_legal hc.name_legal.1, ?_, fun _ => rfl⟩
    · rw [ValueT.encode, if_neg hcode, List.append_nil]
    · intro hf
      exact absurd hf hcode

end RpcServer

namespace RpcClient

open RpcServer Transition

/-- A call with the result that the server encodes for it, and the number of bytes that `readFd`
then returns. -/
structure Exchange where
  call : Call
  result : ValueT
  arrived : ℕ
  deriving DecidableEq

/-- A client with the bytes of replies that it has not read. -/
structure Link where
  client : RpcClient
  unread : Bytes
  deriving DecidableEq

namespace Link

def init : Link := ⟨RpcClient.init, []⟩

/-- What `readFd` finds, when the server has replied. -/
def available (link : Link) (e : Exchange) : Bytes := link.unread ++ e.result.encode

/-- One call, whose request the server gets whole. -/
def exchange (link : Link) (e : Exchange) : Option (ValueT × Link) :=
  (link.client.package e.call.toInvocation).bind fun client =>
    if client.stateCode = RPC_RECV_TIMEOUT then
      -- nothing is sent any more
      (client.netCall e.call.ret 0 (.got [])).map fun (val, client) => (val, { link with client })
    else
      let request := client.serializer.streamBuffer.readable
      let reply := (link.available e).take e.arrived
      (client.netCall e.call.ret request.length (.got reply)).map fun (val, client) =>
        (val, ⟨client, (link.available e).drop e.arrived⟩)

def step (link : Link) (e : Exchange) : Option Link := (link.exchange e).map Prod.snd

/-- `readFd` returns some of the bytes that are there. -/
def Possible (link : Link) (e : Exchange) : Prop :=
  e.result.Encodable e.call.ret ∧ 0 < e.arrived ∧ e.arrived ≤ (link.available e).length

/-- The call returns what the server encoded for it, and its reply is all that it reads from. -/
def Delivered (link : Link) (e : Exchange) : Prop :=
  link.unread = [] ∧ (link.exchange e).map Prod.fst = some e.result

instance (link : Link) (e : Exchange) : Decidable (link.Possible e) :=
  inferInstanceAs (Decidable (_ ∧ _))

instance (link : Link) (e : Exchange) : Decidable (link.Delivered e) :=
  inferInstanceAs (Decidable (_ ∧ _))

/-- Between two calls. -/
structure Idle (link : Link) : Prop where
  no_timeout : link.client.stateCode ≠ RPC_RECV_TIMEOUT
  client_empty : link.client.serializer.Holds []
  all_read : link.unread = []

theorem idle_init : init.Idle :=
  ⟨show RPC_SUCCESS ≠ RPC_RECV_TIMEOUT by decide, Serializer.holds_init, rfl⟩

theorem exchange_spec {link : Link} (h : link.Idle) {e : Exchange}
    (he : e.result.Encodable e.call.ret) (hwhole : e.arrived = e.result.encode.length) :
    ∃ link', link.exchange e = some (e.result, link') ∧ link'.Idle := by
  obtain ⟨s, hs, hholds⟩ := package_written h.client_empty e.call.toInvocation
  have hopen : RpcClient.stateCode { link.client with serializer := s } ≠ RPC_RECV_TIMEOUT :=
    h.no_timeout
  have hread : ∀ s : Serializer, s.Holds e.result.encode →
      ∃ s', ValueT.read s (ValueT.init e.call.ret) = some (e.result, s') ∧ s'.Holds [] := by
    intro s hs
    rw [← List.append_nil (ValueT.encode _)] at hs
    exact ValueT.read_encode hs he
  obtain ⟨s', hnet, hempty⟩ := netCall_reply hopen hholds e.result.length_encode_pos
    (ValueT.length_encode_lt he) he.no_timeout hread
  have havailable : link.available e = e.result.encode := by
    rw [available, h.all_read, List.nil_append]
  refine ⟨⟨⟨link.client.stateCode, s'⟩, []⟩, ?_, h.no_timeout, hempty, rfl⟩
  simp only [exchange, hs, Option.bind_some, if_neg hopen, havailable, hwhole, List.take_length,
    List.drop_length, hholds.2, hnet, Option.map_some]

/-- In every sequence of calls whose replies are each read whole, every call returns what the server
encoded for it, from its own reply only. -/
theorem whole_replies_delivered {es : List Exchange}
    (hcorrect : ∀ e ∈ es, e.result.Encodable e.call.ret)
    (hwhole : ∀ e ∈ es, e.arrived = e.result.encode.length) :
    (∃ link, runFrom step init es = some link ∧ link.Idle) ∧ Along step Delivered init es := by
  have hgood : Along step
      (fun _ e => e.result.Encodable e.call.ret ∧ e.arrived = e.result.encode.length) init es :=
    along_of_forall fun e he => ⟨hcorrect e he, hwhole e he⟩
  have hstep : ∀ (link : Link) (e : Exchange), link.Idle →
      e.result.Encodable e.call.ret ∧ e.arrived = e.result.encode.length →
        ∃ link', link.step e = some link' ∧ link'.Idle := by
    intro link e h he
    obtain ⟨link', hlink', hidle⟩ := exchange_spec h he.1 he.2
    exact ⟨link', by rw [step, hlink']; rfl, hidle⟩
  refine ⟨runFrom_progress hstep idle_init hgood, ?_⟩
  apply along_of_invariant (I := Idle) _ _ idle_init hgood
  · intro link e h he
    obtain ⟨link', hlink', -⟩ := exchange_spec h he.1 he.2
    exact ⟨h.all_read, by rw [hlink']; rfl⟩
  · intro link e link' h he hlink'
    obtain ⟨link'', hlink'', hidle⟩ := hstep link e h he
    cases hlink'.symm.trans hlink''
    exact hidle

def wholeExchanges : List Exchange :=
  [⟨⟨callAdd 10 100, some (.int .w32)⟩, ValueT.success (.int .w32 110), 10⟩,
    ⟨⟨callUnbound, none⟩, ⟨RPC_FUNCTION_NOTBIND, notBoundMsg (ascii "sum"), .int .w8 0⟩, 28⟩,
    ⟨⟨callGetName, some .str⟩, ValueT.success (.str (ascii "HelloWord")), 17⟩]

theorem wholeExchanges_delivered :
    (∃ link, runFrom step init wholeExchanges = some link ∧ link.Idle) ∧
      Along step Delivered init wholeExchanges :=
  whole_replies_delivered (by decide) (by decide)

/-- Of the first reply only the state code and the message have arrived when it is read. -/
def cutExchanges : List Exchange :=
  [⟨⟨callAdd 3 (-3), some (.int .w32)⟩, ValueT.success (.int .w32 0), 6⟩,
    ⟨⟨callAdd 10 100, some (.int .w32)⟩, ValueT.success (.int .w32 110), 14⟩]

/-- The value of the first reply is decoded as the state code of the second. This does not depend on
what the first call returns in place of its value: here it happens to be right. -/
theorem cutReply_not_delivered :
    Along step Possible init cutExchanges ∧ ¬Along step Delivered init cutExchanges := by
  decide +kernel

/-- The second call reads 14 bytes and returns zero. -/
example : (runFrom step init (cutExchanges.take 1)).bind (fun link =>
    (link.exchange ⟨⟨callAdd 10 100, some (.int .w32)⟩, ValueT.success (.int .w32 110), 14⟩).map
      Prod.fst) = some (ValueT.success (.int .w32 0)) := by decide +kernel

end Link

end RpcClient

end Matelib
