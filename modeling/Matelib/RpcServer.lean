import Matelib.OrderedMap
import Matelib.Serializer

/-!
# The RPC server

`value_t`, the call proxy and `onMessage`, which works on the serializer of the thread. A server has
a state of its own that the bound functions may change. Requests are decoded without any framing, so
the results are about requests that arrive whole and alone.
-/

namespace Matelib

/-- The enumeration as it travels: any bit pattern may be received. -/
abbrev RpcStateCode := BitVec (8 * Width.w32.bytes)

def RPC_SUCCESS : RpcStateCode := 0
def RPC_FUNCTION_NOTBIND : RpcStateCode := 1
def RPC_RECV_TIMEOUT : RpcStateCode := 2

/-- `type_xx`: the value that stands for a result; `none` is `void`. -/
def valueType : Option Ty → Ty
  | none => .int .w8
  | some t => t

/-- `value_t`. -/
structure ValueT where
  stateCode : RpcStateCode
  msg : Bytes
  value : Value
  deriving DecidableEq

namespace ValueT

/-- The constructor. An integer value is indeterminate at first, here zero, and a reply that ends
behind its message is returned with it. -/
def init (ret : Option Ty) : ValueT := ⟨RPC_SUCCESS, [], Value.default (valueType ret)⟩

def success (value : Value) : ValueT := ⟨RPC_SUCCESS, [], value⟩

def read (s : Serializer) (val : ValueT) : Option (ValueT × Serializer) :=
  (s.outputInt .w32 val.stateCode).bind fun (code, s) =>
    (s.outputStr val.msg).bind fun (msg, s) =>
      if code = RPC_SUCCESS then
        (s.outputObj val.value).map fun (value, s) => (⟨code, msg, value⟩, s)
      else some (⟨code, msg, val.value⟩, s)

def write (s : Serializer) (val : ValueT) : Option Serializer :=
  ((s.inputInt .w32 val.stateCode).inputStr val.msg).bind fun s => s.inputObj val.value

end ValueT

/-- A bound function: its decayed parameter types, its result type (`none` for `void`) and what it
does to the state of the server. The three copies of `callproxyImpl` differ only in how they call
it. -/
structure Bound (σ : Type) where
  params : List Ty
  ret : Option Ty
  func : σ → List Value → Option Value × σ
  func_ty : ∀ app args, (func app args).1.map Value.ty = ret

namespace Bound

variable {σ : Type}

/-- `bind(name, func, obj)`: a member function, called on the object of the state that `obj` points
to. -/
def ofMember {Obj : Type} (params : List Ty) (ret : Option Ty)
    (func : Obj → List Value → Option Value × Obj)
    (func_ty : ∀ obj args, (func obj args).1.map Value.ty = ret) (get : σ → Obj)
    (set : σ → Obj → σ) : Bound σ where
  params := params
  ret := ret
  func app args :=
    let (ret, obj) := func (get app) args
    (ret, set app obj)
  func_ty app args := func_ty (get app) args

/-- `call_helper`, which turns the missing result of a `void` function into zero. -/
def call_helper (f : Bound σ) (app : σ) (args : List Value) : Value × σ :=
  let (ret, app) := f.func app args
  (ret.getD (.int .w8 0), app)

theorem ty_call_helper (f : Bound σ) (app : σ) (args : List Value) :
    (f.call_helper app args).1.ty = valueType f.ret := by
  have hty := f.func_ty app args
  simp only [call_helper]
  rw [← hty]
  cases (f.func app args).1 <;> rfl

end Bound

/-- A call of a bound function. -/
structure Invocation where
  name : Bytes
  args : List Value
  deriving DecidableEq

namespace RpcServer

variable {σ : Type}

abbrev Functions (σ : Type) := OrderedMap Bytes (Bound σ)

def callproxyImpl (func : Bound σ) (ds : Serializer) (app : σ) :
    Option (Serializer × σ × List Value) :=
  (Serializer.getTuple func.params ds).bind fun (args, ds) =>
    let ds := ds.clear
    let (ret, app) := func.call_helper app args
    (ValueT.write ds ⟨RPC_SUCCESS, [], ret⟩).map fun ds => (ds, app, args)

def notBound (funcname : Bytes) : Bytes := ascii "function not bind: " ++ funcname

/-- What `onMessage` leaves behind: the serializer of the thread, the state of the server and the
input buffer, with the function it called and the bytes it gave to `conn->send`. -/
structure Served (σ : Type) where
  ds : Serializer
  app : σ
  buf : ValidBuffer
  invoked : Option Invocation
  reply : Bytes

def onMessage (functions : Functions σ) (ds : Serializer) (app : σ) (buf : ValidBuffer) :
    Option (Served σ) :=
  -- `swap` moves the whole input buffer into the serializer
  let (ds, buf) := ({ ds with streamBuffer := buf }, ds.streamBuffer)
  (ds.outputStr []).bind fun (funcname, ds) =>
    match functions.find funcname with
    | none =>
      ((ds.clear.inputInt .w32 RPC_FUNCTION_NOTBIND).inputStr (notBound funcname)).map fun ds =>
        ⟨ds.clear, app, buf, none, ds.streamBuffer.readable⟩
    | some func =>
      (callproxyImpl func ds app).map fun (ds, app, args) =>
        ⟨ds.clear, app, buf, some ⟨funcname, args⟩, ds.streamBuffer.readable⟩

def request (call : Invocation) : Bytes :=
  (Value.str call.name).write ++ call.args.flatMap Value.write

/-- A call that the format can carry, with arguments of the types of the function bound to its name,
if there is one. -/
structure WellFormed (functions : Functions σ) (call : Invocation) : Prop where
  name_legal : (Value.str call.name).Legal
  args_legal : ∀ v ∈ call.args, v.Legal
  args_match : ∀ f, functions.find call.name = some f → call.args.map Value.ty = f.params

instance (functions : Functions σ) (call : Invocation) : Decidable (WellFormed functions call) :=
  decidable_of_iff ((Value.str call.name).Legal ∧ (∀ v ∈ call.args, v.Legal) ∧
      ∀ f, functions.find call.name = some f → call.args.map Value.ty = f.params)
    ⟨fun ⟨h₁, h₂, h₃⟩ => ⟨h₁, h₂, h₃⟩, fun h => ⟨h.1, h.2, h.3⟩⟩

end RpcServer

namespace ValueT

def wire (val : ValueT) : Bytes :=
  (Value.int .w32 val.stateCode).written ++ (Value.str val.msg).written ++ val.value.written

theorem length_wire_success (value : Value) :
    (success value).wire.length = 6 + value.written.length := by
  rw [wire, List.length_append, List.length_append]
  rfl

theorem write_wire {s : Serializer} {a : Bytes} (h : s.Holds a) (val : ValueT) :
    ∃ s', write s val = some s' ∧ s'.Holds (a ++ val.wire) := by
  obtain ⟨t, ht, hmsg⟩ := (h.inputInt .w32 val.stateCode).inputStr_written val.msg
  obtain ⟨s', hs', hall⟩ := hmsg.inputObj_written val.value
  refine ⟨s', by rw [write, ht, Option.bind_some, hs'], ?_⟩
  rw [wire, ← List.append_assoc, ← List.append_assoc]
  exact hall

theorem read_success {s : Serializer} {value : Value} {rest : Bytes} {ret : Option Ty}
    (h : s.Holds ((success value).wire ++ rest)) (hvalue : value.Legal)
    (hty : value.ty = valueType ret) :
    ∃ s', read s (init ret) = some (success value, s') ∧ s'.Holds rest := by
  simp only [wire, success, hvalue.written, List.append_assoc] at h
  obtain ⟨s₁, hcode, h₁⟩ := h.outputInt_write
  obtain ⟨s₂, hmsg, h₂⟩ := h₁.outputStr_write (by decide)
  obtain ⟨s₃, hval, h₃⟩ := h₂.outputObj_write hvalue
  rw [hty] at hval
  refine ⟨s₃, ?_, h₃⟩
  have hcode' : s.outputInt .w32 (init ret).stateCode = some (RPC_SUCCESS, s₁) := hcode
  have hmsg' : s₁.outputStr (init ret).msg = some ([], s₂) := hmsg
  have hval' : s₂.outputObj (init ret).value = some (value, s₃) := hval
  simp only [read, hcode', hmsg', hval', Option.bind_some, if_true, Option.map_some]
  rfl

theorem read_failure {s : Serializer} {code : RpcStateCode} {msg rest : Bytes} {ret : Option Ty}
    (h : s.Holds (littleEndian Width.w32.bytes code.toNat ++ ((Value.str msg).write ++ rest)))
    (hcode : code ≠ RPC_SUCCESS) (hmsg : (Value.str msg).Legal) :
    ∃ s', read s (init ret) = some (⟨code, msg, (init ret).value⟩, s') ∧ s'.Holds rest := by
  obtain ⟨s₁, hs₁, h₁⟩ := h.outputInt_write
  obtain ⟨s₂, hs₂, h₂⟩ := h₁.outputStr_write hmsg
  have hcode' : s.outputInt .w32 (init ret).stateCode = some (code, s₁) := hs₁
  have hmsg' : s₁.outputStr (init ret).msg = some (msg, s₂) := hs₂
  refine ⟨s₂, ?_, h₂⟩
  simp only [read, hcode', hmsg', Option.bind_some, if_neg hcode]

end ValueT

namespace RpcServer

variable {σ : Type}

theorem callproxyImpl_spec {func : Bound σ} {ds : Serializer} {args : List Value} {rest : Bytes}
    (h : ds.Holds (args.flatMap Value.write ++ rest)) (hargs : ∀ v ∈ args, v.Legal)
    (hty : args.map Value.ty = func.params) (app : σ) :
    ∃ ds', callproxyImpl func ds app = some (ds', (func.call_helper app args).2, args) ∧
      ds'.Holds (ValueT.success (func.call_helper app args).1).wire := by
  obtain ⟨ds₁, hds₁, h₁⟩ := h.getTuple_write hargs
  obtain ⟨ds', hds', h'⟩ :=
    ValueT.write_wire h₁.clear (ValueT.success (func.call_helper app args).1)
  rw [List.nil_append] at h'
  refine ⟨ds', ?_, h'⟩
  rw [hty] at hds₁
  have hwrite : ValueT.write ds₁.clear ⟨RPC_SUCCESS, [], (func.call_helper app args).1⟩ =
      some ds' := hds'
  simp only [callproxyImpl, hds₁, Option.bind_some, hwrite, Option.map_some]

/-- The message of a reply to an unbound name: its length is kept modulo 65536. -/
def notBoundMsg (name : Bytes) : Bytes :=
  (notBound name).take ((notBound name).length % 65536)

theorem notBound_free {name : Bytes} (h : 0 ∉ name) : 0 ∉ notBound name := by
  rw [notBound, List.mem_append, not_or]
  exact ⟨by decide, h⟩

theorem notBoundMsg_legal {name : Bytes} (h : 0 ∉ name) : (Value.str (notBoundMsg name)).Legal :=
  ⟨fun hmem => notBound_free h (List.mem_of_mem_take hmem),
    (List.length_take_le _ _).trans_lt (Nat.mod_lt _ (by decide))⟩

/-- What a call should lead to: the function that is called, the reply and the next state of the
server. -/
structure Answer (σ : Type) where
  invoked : Option Invocation
  reply : Bytes
  app : σ

def answer (functions : Functions σ) (app : σ) (call : Invocation) : Answer σ :=
  match functions.find call.name with
  | some f =>
    let (ret, app) := f.call_helper app call.args
    ⟨some call, (ValueT.success ret).wire, app⟩
  | none =>
    ⟨none, littleEndian Width.w32.bytes RPC_FUNCTION_NOTBIND.toNat ++
      (Value.str (notBoundMsg call.name)).write, app⟩

/-- A whole request is answered, and the serializer of the thread and the input buffer are empty
again. What follows the request in the buffer is dropped. -/
theorem onMessage_request {functions : Functions σ} {call : Invocation}
    (hcall : WellFormed functions call) {ds : Serializer} (hds : ds.Holds []) (app : σ)
    {buf : ValidBuffer} {rest : Bytes} (hbuf : buf.readable = request call ++ rest) :
    ∃ served, onMessage functions ds app buf = some served ∧
      (⟨served.invoked, served.reply, served.app⟩ : Answer σ) = answer functions app call ∧
      served.ds.Holds [] ∧ served.buf.readable = [] := by
  have hin : Serializer.Holds { ds with streamBuffer := buf }
      ((Value.str call.name).write ++ (call.args.flatMap Value.write ++ rest)) :=
    ⟨hds.1, by rw [hbuf, request, List.append_assoc]⟩
  obtain ⟨ds₁, hname, h₁⟩ := hin.outputStr_write hcall.name_legal
  cases hfind : functions.find call.name with
  | none =>
    have hfree := notBound_free hcall.name_legal.1
    obtain ⟨ds₂, hds₂, h₂⟩ := (h₁.clear.inputInt .w32 RPC_FUNCTION_NOTBIND).inputStr hfree
    refine ⟨⟨ds₂.clear, app, ds.streamBuffer, none, ds₂.streamBuffer.readable⟩, ?_, ?_, h₂.clear,
      hds.2⟩
    · simp only [onMessage, hname, Option.bind_some, hfind, hds₂, Option.map_some]
    · rw [answer, hfind, h₂.2]
      rfl
  | some func =>
    obtain ⟨ds₂, hproxy, h₂⟩ :=
      callproxyImpl_spec h₁ hcall.args_legal (hcall.args_match func hfind) app
    refine ⟨⟨ds₂.clear, (func.call_helper app call.args).2, ds.streamBuffer, some call,
      ds₂.streamBuffer.readable⟩, ?_, ?_, h₂.clear, hds.2⟩
    · simp only [onMessage, hname, Option.bind_some, hfind, hproxy, Option.map_some]
    · rw [answer, hfind, h₂.2]

/-- A connection with the serializer of its thread and the state of the server; `invocations` and
`replies` list the functions called and the bytes sent. -/
structure Session (σ : Type) where
  ds : Serializer
  app : σ
  inputBuffer : ValidBuffer
  invocations : List Invocation
  replies : List Bytes

def Session.init (app : σ) : Session σ := ⟨Serializer.init, app, ValidBuffer.empty, [], []⟩

def Session.record (s : Session σ) (served : Served σ) : Session σ where
  ds := served.ds
  app := served.app
  inputBuffer := served.buf
  invocations := s.invocations ++ served.invoked.toList
  replies := s.replies ++ [served.reply]

/-- `TcpConnection::handleRead` after `readv` has delivered `data`; no data means end of file, which
does not reach the server. -/
def handleRead (functions : Functions σ) (s : Session σ) (data : Bytes) : Option (Session σ) :=
  let (n, buf) := s.inputBuffer.readFd (.got data)
  if 0 < n.1 then (onMessage functions s.ds s.app buf).map s.record else some s

def serve (functions : Functions σ) (s : Session σ) (chunks : List Bytes) : Option (Session σ) :=
  chunks.foldlM (handleRead functions) s

/-- Nothing is left of earlier requests. -/
structure Session.Idle (s : Session σ) : Prop where
  ds_empty : s.ds.Holds []
  input_empty : s.inputBuffer.readable = []

theorem Session.idle_init (app : σ) : (Session.init app).Idle :=
  ⟨Serializer.holds_init, ValidBuffer.readable_empty⟩

theorem request_length_pos (call : Invocation) : 0 < (request call).length := by
  simp only [request, Value.write, List.length_append, length_littleEndian]
  omega

theorem handleRead_request {functions : Functions σ} {call : Invocation}
    (hcall : WellFormed functions call) {s : Session σ} (hs : s.Idle) :
    ∃ s', handleRead functions s (request call) = some s' ∧ s'.Idle ∧
      s'.app = (answer functions s.app call).app ∧
      s'.invocations = s.invocations ++ (answer functions s.app call).invoked.toList ∧
      s'.replies = s.replies ++ [(answer functions s.app call).reply] := by
  have hbuf : (s.inputBuffer.readFd (.got (request call))).2.readable = request call ++ [] := by
    rw [ValidBuffer.readable_readFd, hs.input_empty, List.nil_append, List.append_nil]
    rfl
  obtain ⟨served, hserved, hanswer, hds, hinput⟩ := onMessage_request hcall hs.ds_empty s.app hbuf
  have hpos : (0 : ℤ) < (request call).length := by
    have := request_length_pos call
    omega
  refine ⟨s.record served, ?_, ⟨hds, hinput⟩, ?_, ?_, ?_⟩
  · rw [handleRead]
    simp only [ValidBuffer.readFd_fst, ReadvResult.report, if_pos hpos, hserved, Option.map_some]
  all_goals rw [← hanswer]; rfl

def replies (functions : Functions σ) : σ → List Invocation → List Bytes
  | _, [] => []
  | app, call :: calls =>
    (answer functions app call).reply :: replies functions (answer functions app call).app calls

def boundCalls (functions : Functions σ) (calls : List Invocation) : List Invocation :=
  calls.filter fun call => (functions.find call.name).isSome

theorem toList_invoked (functions : Functions σ) (app : σ) (call : Invocation) :
    (answer functions app call).invoked.toList = boundCalls functions [call] := by
  rw [answer, boundCalls, List.filter_singleton]
  cases functions.find call.name <;> rfl

/-- Requests that are delivered each whole and alone: every bound function is called exactly once
with the arguments that were sent, there is one reply per request in order, and the server never
aborts. -/
theorem serve_whole_requests {functions : Functions σ} {calls : List Invocation}
    (hcalls : ∀ call ∈ calls, WellFormed functions call) {s : Session σ} (hs : s.Idle) :
    ∃ s', serve functions s (calls.map request) = some s' ∧ s'.Idle ∧
      s'.invocations = s.invocations ++ boundCalls functions calls ∧
      s'.replies = s.replies ++ replies functions s.app calls := by
  induction calls generalizing s with
  | nil => exact ⟨s, rfl, hs, (List.append_nil _).symm, (List.append_nil _).symm⟩
  | cons call calls ih =>
    rw [List.forall_mem_cons] at hcalls
    obtain ⟨t, ht, hidle, happ, hinv, hrep⟩ := handleRead_request hcalls.1 hs
    obtain ⟨s', hs', hidle', hinv', hrep'⟩ := ih hcalls.2 hidle
    refine ⟨s', ?_, hidle', ?_, ?_⟩
    · rw [List.map_cons, serve, List.foldlM_cons, ht]
      exact hs'
    · have hsplit : boundCalls functions (call :: calls) =
          boundCalls functions [call] ++ boundCalls functions calls :=
        List.filter_append [call] calls
      rw [hinv', hinv, toList_invoked, hsplit, List.append_assoc]
    · rw [hrep', hrep, happ, replies, List.append_assoc, List.singleton_append]

/-- The class of `RpcServer_test`. -/
structure Test where
  name_ : Bytes
  deriving DecidableEq

def Test.setName (t : Test) : List Value → Option Value × Test
  | [.str n] => (none, ⟨n⟩)
  | _ => (none, t)

def Test.getName (t : Test) (_ : List Value) : Option Value × Test := (some (.str t.name_), t)

/-- The state of `RpcServer_test`: its object, and what `print` has written. -/
structure TestState where
  t : Test
  stdout : Bytes
  deriving DecidableEq

def TestState.init : TestState := ⟨⟨[]⟩, []⟩

def add : Bound TestState where
  params := [.int .w32, .int .w32]
  ret := some (.int .w32)
  func app args :=
    match args with
    | [.int .w32 a, .int .w32 b] => (some (.int .w32 (a + b)), app)
    | _ => (some (.int .w32 0), app)
  func_ty app args := by split <;> rfl

def print : Bound TestState where
  params := [.str]
  ret := none
  func app args :=
    match args with
    | [.str s] => (none, { app with stdout := app.stdout ++ cstr s ++ ascii "\n" })
    | _ => (none, app)
  func_ty app args := by split <;> rfl

def setName : Bound TestState :=
  .ofMember [.str] none Test.setName (fun t args => by unfold Test.setName; split <;> rfl)
    TestState.t fun app t => { app with t }

def getName : Bound TestState :=
  .ofMember [] (some .str) Test.getName (fun _ _ => rfl) TestState.t fun app t => { app with t }

/-- The functions that `RpcServer_test` binds before the member functions. -/
def freeFunctions : Functions TestState :=
  (OrderedMap.empty.insert (ascii "add") add).insert (ascii "print") print

/-- The server of `RpcServer_test`. -/
def testFunctions : Functions TestState :=
  (freeFunctions.insert (ascii "setName") setName).insert (ascii "getName") getName

def callAdd (a b : BitVec 32) : Invocation := ⟨ascii "add", [.int .w32 a, .int .w32 b]⟩

def callSetName (n : Bytes) : Invocation := ⟨ascii "setName", [.str n]⟩

def callGetName : Invocation := ⟨ascii "getName", []⟩

def callUnbound : Invocation := ⟨ascii "sum", [.str (ascii "a"), .int .w8 1]⟩

def testCalls : List Invocation :=
  [callAdd 10 100, callSetName (ascii "HelloWord"), callUnbound, callGetName]

theorem testCalls_served :
    ∃ s', serve testFunctions (Session.init TestState.init) (testCalls.map request) = some s' ∧
      s'.Idle ∧ s'.invocations = [] ++ boundCalls testFunctions testCalls ∧
      s'.replies = [] ++ replies testFunctions TestState.init testCalls :=
  serve_whole_requests (by decide +kernel) (Session.idle_init TestState.init)

/-- Two requests that arrive in one delivery. -/
def coalescedRequests : List Bytes :=
  [request (callAdd 10 100) ++ request (callSetName (ascii "HelloWord"))]

/-- The second of two requests that arrive together is neither called nor answered. -/
theorem coalescedRequests_dropped :
    ¬ ∀ (calls : List Invocation) (chunks : List Bytes),
      (∀ call ∈ calls, WellFormed testFunctions call) → (∀ chunk ∈ chunks, chunk ≠ []) →
      chunks.flatten = calls.flatMap request →
      ∃ s, serve testFunctions (Session.init TestState.init) chunks = some s ∧
        s.invocations = boundCalls testFunctions calls ∧
        s.replies = replies testFunctions TestState.init calls := by
  intro h
  obtain ⟨s, hs, hinvocations, -⟩ :=
    h [callAdd 10 100, callSetName (ascii "HelloWord")] coalescedRequests (by decide +kernel)
      (by decide +kernel) (by decide +kernel)
  have hone : (serve testFunctions (Session.init TestState.init) coalescedRequests).map
      (fun s => s.invocations.length) = some 1 := by decide +kernel
  have htwo : (boundCalls testFunctions
      [callAdd 10 100, callSetName (ascii "HelloWord")]).length = 2 := by decide +kernel
  rw [hs, Option.map_some, hinvocations, htwo] at hone
  cases hone

end RpcServer

end Matelib
