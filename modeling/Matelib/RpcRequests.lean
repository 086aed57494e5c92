import Matelib.RpcClient

/-!
# What an RPC client writes

The calls of one client, with whatever `::write` and `readv` return in each of them. A `CallResult`
is what a call writes to the socket and what it returns. The serializer serves for requests and
replies, and it is empty whenever the client is still in order: so each request is written alone.
After the first `RPC_RECV_TIMEOUT` the client writes nothing any more.
-/

namespace Matelib

theorem ValueT.read_holds {s s' : Serializer} {a : Bytes} (h : s.Holds a) {ret : Option Ty}
    {val : ValueT} (hread : ValueT.read s (ValueT.init ret) = some (val, s')) :
    ∃ b, s'.Holds b := by
  obtain ⟨code, s₁, b₁, -, hcode, h₁⟩ := h.outputInt .w32
  have hcode' : s.outputInt .w32 (ValueT.init ret).stateCode = some (code, s₁) := hcode
  simp only [ValueT.read, hcode', Option.bind_some] at hread
  rcases h₁.outputStr_into (ValueT.init ret).msg with ⟨-, hnone⟩ | ⟨msg, s₂, b₂, -, hmsg, h₂⟩
  · rw [hnone, Option.bind_none] at hread
    cases hread
  · rw [hmsg, Option.bind_some] at hread
    split_ifs at hread
    · obtain ⟨⟨value, s₃⟩, hvalue, hlast⟩ := Option.map_eq_some_iff.mp hread
      cases hlast
      have hagree := h₂.outputObj (valueType ret)
      have hvalue' : s₂.outputObj (Value.default (valueType ret)) = some (value, s₃) := hvalue
      rw [hvalue'] at hagree
      cases hobj : Value.read (valueType ret) b₂ with
      | none => rw [hobj] at hagree; cases hagree
      | some q => rw [hobj] at hagree; exact ⟨q.2, hagree.2⟩
    · cases hread
      exact ⟨b₂, h₂⟩

namespace RpcClient

open RpcServer TcpConnection

/-- What `::write` and `readv` return during a call. -/
structure Outcome where
  written : ℤ
  reply : ReadvResult

/-- What `::write` is given: the bytes at `current()`, and their number as an `int`. -/
structure WriteCall where
  data : Bytes
  n : ℤ
  deriving DecidableEq

structure CallResult where
  write : Option WriteCall
  val : ValueT

/-- The call of `::write` that `netCall` makes, if it makes one. -/
def offered (c : RpcClient) : Option WriteCall :=
  if c.stateCode = RPC_RECV_TIMEOUT then none
  else some ⟨c.serializer.streamBuffer.readable, toInt c.serializer.readableBytes⟩

/-- `call`; `none` when an assertion fails while the reply is decoded. -/
def perform (c : RpcClient) (call : Call) (o : Outcome) : Option (CallResult × RpcClient) :=
  (c.package call.toInvocation).bind fun c =>
    (c.netCall call.ret o.written o.reply).map fun (val, c') => (⟨c.offered, val⟩, c')

def performAll : RpcClient → List (Call × Outcome) → Option (List CallResult)
  | _, [] => some []
  | c, (call, o) :: calls => (c.perform call o).bind fun (r, c) =>
    (performAll c calls).map fun rs => r :: rs

/-- The encoding of the name and the arguments of a call. -/
def encoding (call : Invocation) : Bytes :=
  (Value.str call.name).written ++ call.args.flatMap Value.written

theorem encoding_legal {call : Invocation} (hname : (Value.str call.name).Legal)
    (hargs : ∀ v ∈ call.args, v.Legal) : encoding call = request call := by
  rw [encoding, request, hname.written, List.flatMap_congr fun v hv => (hargs v hv).written]

theorem length_written_lt (v : Value) : v.written.length < 65538 := by
  cases v with
  | int w x => exact length_write_lt (v := .int w x) trivial
  | str data =>
    apply length_wire_str
    rw [List.length_take]
    have := Nat.mod_lt (cstr data).length (show 0 < 65536 by decide)
    omega

theorem length_encoding_le (call : Invocation) :
    (encoding call).length ≤ 65537 * (call.args.length + 1) := by
  have hargs : (call.args.flatMap Value.written).length ≤ call.args.length * 65537 := by
    rw [List.length_flatMap]
    have hsum := List.sum_le_card_nsmul (call.args.map fun v => v.written.length) 65537 (by
      intro n hn
      obtain ⟨v, -, rfl⟩ := List.mem_map.mp hn
      exact Nat.le_of_lt_succ (length_written_lt v))
    rwa [List.length_map, smul_eq_mul] at hsum
  have hname := length_written_lt (.str call.name)
  rw [encoding, List.length_append]
  omega

theorem toInt_length_encoding {call : Invocation} (h : call.args.length < 32767) :
    toInt (encoding call).length = (encoding call).length := by
  have hle := length_encoding_le call
  exact toInt_eq_self (by omega) (by omega)

/-- No call has timed out yet, and the serializer is empty. -/
structure InOrder (c : RpcClient) : Prop where
  no_timeout : c.stateCode ≠ RPC_RECV_TIMEOUT
  empty : c.serializer.Holds []

structure TimedOut (c : RpcClient) : Prop where
  timeout : c.stateCode = RPC_RECV_TIMEOUT
  order : ∃ a, c.serializer.Holds a

theorem init_inOrder : InOrder init := ⟨show RPC_SUCCESS ≠ RPC_RECV_TIMEOUT by decide,
  Serializer.holds_init⟩

theorem netCall_outcome {c c' : RpcClient} (hc : c.stateCode ≠ RPC_RECV_TIMEOUT) {a : Bytes}
    (h : c.serializer.Holds a) {ret : Option Ty} {written : ℤ} {reply : ReadvResult} {val : ValueT}
    (hcall : c.netCall ret written reply = some (val, c')) :
    (val.stateCode = RPC_RECV_TIMEOUT ∧ TimedOut c') ∨
      (val.stateCode ≠ RPC_RECV_TIMEOUT ∧ InOrder c') := by
  have hread := holds_reply h reply
  simp only [netCall, if_neg hc] at hcall
  split_ifs at hcall with hwrite hgot
  · cases hcall
    exact Or.inl ⟨rfl, rfl, [], h.clear⟩
  · cases hcall
    exact Or.inl ⟨rfl, rfl, _, hread⟩
  · obtain ⟨⟨v, s⟩, hval, hlast⟩ := Option.map_eq_some_iff.mp hcall
    cases hlast
    obtain ⟨b, hb⟩ := ValueT.read_holds hread hval
    by_cases hcode : v.stateCode = RPC_RECV_TIMEOUT
    · exact Or.inl ⟨hcode, if_pos hcode, [], hb.clear⟩
    · refine Or.inr ⟨hcode, ?_, hb.clear⟩
      rwa [if_neg hcode]

theorem perform_inOrder {c c' : RpcClient} (hc : InOrder c) {call : Call} {o : Outcome}
    {r : CallResult} (h : c.perform call o = some (r, c')) :
    r.write = some ⟨encoding call.toInvocation, toInt (encoding call.toInvocation).length⟩ ∧
      ((r.val.stateCode = RPC_RECV_TIMEOUT ∧ TimedOut c') ∨
        (r.val.stateCode ≠ RPC_RECV_TIMEOUT ∧ InOrder c')) := by
  obtain ⟨s, hs, hholds⟩ := package_written hc.empty call.toInvocation
  rw [perform, hs, Option.bind_some] at h
  obtain ⟨⟨val, c₁⟩, hcall, hlast⟩ := Option.map_eq_some_iff.mp h
  cases hlast
  refine ⟨?_, netCall_outcome (c := { c with serializer := s }) hc.no_timeout hholds hcall⟩
  simp only [offered, if_neg hc.no_timeout, hholds.2, hholds.readableBytes]
  rfl

theorem perform_timedOut {c c' : RpcClient} (hc : TimedOut c) {call : Call} {o : Outcome}
    {r : CallResult} (h : c.perform call o = some (r, c')) :
    r.write = none ∧ r.val = timeout call.ret ∧ TimedOut c' := by
  obtain ⟨a, ha⟩ := hc.order
  obtain ⟨s, hs, hholds⟩ := package_appends ha call.toInvocation
  rw [perform, hs, Option.bind_some] at h
  obtain ⟨⟨val, c₁⟩, hcall, hlast⟩ := Option.map_eq_some_iff.mp h
  cases hlast
  simp only [netCall, if_pos hc.timeout] at hcall
  cases hcall
  exact ⟨if_pos hc.timeout, rfl, hc.timeout, _, hholds⟩

theorem performAll_cons {c : RpcClient} {call : Call} {o : Outcome}
    {calls : List (Call × Outcome)} {results : List CallResult} :
    performAll c ((call, o) :: calls) = some results ↔
      ∃ r c' rs, c.perform call o = some (r, c') ∧ performAll c' calls = some rs ∧
        results = r :: rs := by
  rw [performAll, Option.bind_eq_some_iff]
  constructor
  · rintro ⟨⟨r, c'⟩, hfirst, hrest⟩
    obtain ⟨rs, hrs, rfl⟩ := Option.map_eq_some_iff.mp hrest
    exact ⟨r, c', rs, hfirst, hrs, rfl⟩
  · rintro ⟨r, c', rs, hfirst, hrs, rfl⟩
    exact ⟨(r, c'), hfirst, by simp only [hrs, Option.map_some]⟩

def SomeTimeout (earlier : List CallResult) : Prop :=
  ∃ r ∈ earlier, r.val.stateCode = RPC_RECV_TIMEOUT

/-- What a call does, given those before it: it writes the encoding of its name and arguments and
nothing else, or, after a timeout, writes nothing and times out as well. -/
structure Isolated (earlier : List CallResult) (call : Call) (r : CallResult) : Prop where
  request : ¬ SomeTimeout earlier → r.write =
    some ⟨encoding call.toInvocation, toInt (encoding call.toInvocation).length⟩
  count : call.args.length < 32767 → ∀ w, r.write = some w → w.n = w.data.length
  silent : SomeTimeout earlier → r.write = none ∧ r.val.stateCode = RPC_RECV_TIMEOUT

theorem Isolated.of_request {earlier : List CallResult} {call : Call} {r : CallResult}
    (hno : ¬ SomeTimeout earlier) (h : r.write =
      some ⟨encoding call.toInvocation, toInt (encoding call.toInvocation).length⟩) :
    Isolated earlier call r where
  request _ := h
  count hargs w hw := by
    cases hw.symm.trans h
    exact toInt_length_encoding hargs
  silent hsome := absurd hsome hno

theorem Isolated.of_silent {earlier : List CallResult} {call : Call} {r : CallResult}
    (hsome : SomeTimeout earlier) (hwrite : r.write = none)
    (hval : r.val.stateCode = RPC_RECV_TIMEOUT) : Isolated earlier call r where
  request hno := absurd hsome hno
  count _ w hw := by
    rw [hwrite] at hw
    cases hw
  silent _ := ⟨hwrite, hval⟩

theorem Isolated.behind {r₀ r : CallResult} {earlier : List CallResult} {call : Call}
    (hval : r₀.val.stateCode ≠ RPC_RECV_TIMEOUT) (h : Isolated earlier call r) :
    Isolated (r₀ :: earlier) call r := by
  have hiff : SomeTimeout (r₀ :: earlier) ↔ SomeTimeout earlier := by
    rw [SomeTimeout, List.exists_mem_cons_iff, or_iff_right hval]
    rfl
  refine ⟨?_, h.count, ?_⟩
  · rw [hiff]
    exact h.request
  · rw [hiff]
    exact h.silent

theorem performAll_timedOut {c : RpcClient} (hc : TimedOut c) {calls : List (Call × Outcome)}
    {results : List CallResult} (h : performAll c calls = some results) :
    results.length = calls.length ∧
      ∀ r ∈ results, r.write = none ∧ r.val.stateCode = RPC_RECV_TIMEOUT := by
  induction calls generalizing c results with
  | nil =>
    cases h
    exact ⟨rfl, by simp⟩
  | cons p calls ih =>
    obtain ⟨r, c', rs, hfirst, hrest, rfl⟩ := performAll_cons.mp h
    obtain ⟨hwrite, hval, hc'⟩ := perform_timedOut hc hfirst
    obtain ⟨hlen, hall⟩ := ih hc' hrest
    refine ⟨congrArg (· + 1) hlen, ?_⟩
    rw [List.forall_mem_cons]
    exact ⟨⟨hwrite, by rw [hval]; rfl⟩, hall⟩

theorem performAll_inOrder {c : RpcClient} (hc : InOrder c) {calls : List (Call × Outcome)}
    {results : List CallResult} (h : performAll c calls = some results) :
    results.length = calls.length ∧
      ∀ k call o r, calls[k]? = some (call, o) → results[k]? = some r →
        Isolated (results.take k) call r := by
  induction calls generalizing c results with
  | nil =>
    cases h
    exact ⟨rfl, by simp⟩
  | cons p calls ih =>
    obtain ⟨r₀, c', rs, hfirst, hrest, rfl⟩ := performAll_cons.mp h
    obtain ⟨hwrite, hnext⟩ := perform_inOrder hc hfirst
    have hhead : Isolated [] p.1 r₀ := .of_request (by simp [SomeTimeout]) hwrite
    rcases hnext with ⟨hval, hc'⟩ | ⟨hval, hc'⟩
    · obtain ⟨hlen, hall⟩ := performAll_timedOut hc' hrest
      refine ⟨congrArg (· + 1) hlen, ?_⟩
      intro k call o r hcall hr
      cases k with
      | zero =>
        cases hcall
        cases hr
        exact hhead
      | succ k =>
        have hmem := hall r (List.mem_of_getElem? hr)
        exact .of_silent ⟨r₀, List.mem_cons_self, hval⟩ hmem.1 hmem.2
    · obtain ⟨hlen, hall⟩ := ih hc' hrest
      refine ⟨congrArg (· + 1) hlen, ?_⟩
      intro k call o r hcall hr
      cases k with
      | zero =>
        cases hcall
        cases hr
        exact hhead
      | succ k => exact (hall k call o r hcall hr).behind hval

/-- In every sequence of calls of a client each call writes exactly the encoding of its own name and
arguments, until one returns `RPC_RECV_TIMEOUT`; all calls after that write nothing and return
`RPC_RECV_TIMEOUT`. -/
theorem requests_isolated {calls : List (Call × Outcome)} {results : List CallResult}
    (h : performAll init calls = some results) :
    results.length = calls.length ∧
      ∀ k call o r, calls[k]? = some (call, o) → results[k]? = some r →
        Isolated (results.take k) call r :=
  performAll_inOrder init_inOrder h

def sampleRequests : List (Call × Outcome) :=
  [(⟨⟨ascii "id", [.int .w32 5]⟩, some (.int .w32)⟩, ⟨8, .got [0, 0, 0, 0, 0, 0, 5, 0, 0, 0]⟩),
    (⟨⟨ascii "id", [.int .w32 6]⟩, some (.int .w32)⟩, ⟨3, .failed 11⟩),
    (⟨⟨ascii "id", [.int .w32 7]⟩, some (.int .w32)⟩, ⟨8, .got [0, 0, 0, 0, 0, 0, 7, 0, 0, 0]⟩)]

theorem sampleRequests_isolated : ∃ results, performAll init sampleRequests = some results ∧
    results.length = sampleRequests.length ∧
      ∀ k call o r, sampleRequests[k]? = some (call, o) → results[k]? = some r →
        Isolated (results.take k) call r := by
  have hsome : (performAll init sampleRequests).isSome = true := by decide +kernel
  obtain ⟨results, hresults⟩ := Option.isSome_iff_exists.mp hsome
  exact ⟨results, hresults, requests_isolated hresults⟩

/-- The second call ends in a timeout, and the third is not written. -/
example : (performAll init sampleRequests).map (List.map fun r =>
    (r.write.map WriteCall.n, r.val.stateCode)) =
      some [(some 8, 0), (some 8, 2), (none, 2)] := by decide +kernel

end RpcClient

end Matelib
