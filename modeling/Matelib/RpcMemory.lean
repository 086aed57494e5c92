import Matelib.RpcServer

/-!
# What the RPC decoder reads

`outputObj` copies bytes at `current()` before `retrieve` checks that they are readable. Here the
decoder is written over the memory it really reads: the vector with the bytes that earlier messages
have left in it, and behind the vector whatever is there. Its result is the one of the operations on
readable bytes, because every copy that takes too much is followed by the failing assertion.
-/

namespace Matelib

/-- The reads of a decoder at `current()`: how many bytes each takes, and how many were readable. -/
abbrev Reads := List (ℕ × ℕ)

/-- No read takes more than what is readable. -/
def Reads.Within (reads : Reads) : Prop := ∀ r ∈ reads, r.1 ≤ r.2

instance (reads : Reads) : Decidable reads.Within :=
  inferInstanceAs (Decidable (∀ r ∈ reads, r.1 ≤ r.2))

theorem Reads.Within.append {a b : Reads} (ha : a.Within) (hb : b.Within) : (a ++ b).Within :=
  List.forall_mem_append.mpr ⟨ha, hb⟩

namespace Serializer

/-- The `n` bytes of memory from `current()` on. The byte at distance `i` from `current()` is
`beyond i` when it lies behind the vector. -/
def memory (beyond : ℕ → UInt8) (s : Serializer) (n : ℕ) : Bytes :=
  (List.range n).map fun i =>
    s.streamBuffer.buf.buffer.getD (s.streamBuffer.peek + i) (beyond i)

namespace Raw

variable (beyond : ℕ → UInt8)

def outputInt (s : Serializer) (w : Width) (obj : BitVec (8 * w.bytes)) :
    Option (BitVec (8 * w.bytes) × Serializer) × Reads :=
  if w.bytes ≤ s.readableBytes then
    let buf := s.reverse2LittleEndian (s.memory beyond w.bytes)
    ((s.retrieve w.bytes).map fun s => (BitVec.ofNat _ (fromLittleEndian buf), s),
      [(w.bytes, s.readableBytes)])
  else (some (obj, s), [])

/-- Both copies come before the `retrieve` that checks them. -/
def outputStr (s : Serializer) (str : Bytes) : Option (Bytes × Serializer) × Reads :=
  let marklen := 2
  let buf := s.reverse2LittleEndian (s.memory beyond marklen)
  let mark := (marklen, s.readableBytes)
  match s.retrieve marklen with
  | none => (none, [mark])
  | some s =>
    let len := fromLittleEndian buf
    if len = 0 then (some (str, s), [mark])
    else
      let str := s.memory beyond len ++ str
      ((s.retrieve len).map fun s' => (str, s'), [mark, (len, s.readableBytes)])

def outputObj (s : Serializer) : Value → Option (Value × Serializer) × Reads
  | .int w obj =>
    let (out, reads) := outputInt beyond s w obj
    (out.map fun p => (.int w p.1, p.2), reads)
  | .str str =>
    let (out, reads) := outputStr beyond s str
    (out.map fun p => (.str p.1, p.2), reads)

def getTuple : List Ty → Serializer → Option (List Value × Serializer) × Reads
  | [], s => (some ([], s), [])
  | t :: ts, s => match outputObj beyond s (Value.default t) with
    | (none, reads) => (none, reads)
    | (some (v, s), reads) =>
      let (out, more) := getTuple ts s
      (out.map fun q => (v :: q.1, q.2), reads ++ more)

end Raw

theorem memory_eq_current (beyond : ℕ → UInt8) {s : Serializer} {n : ℕ}
    (h : n ≤ s.readableBytes) : s.memory beyond n = s.current n := by
  have hlen := ValidBuffer.length_readable s.streamBuffer
  have hrw := s.streamBuffer.valid.read_le_write
  have hwrite := s.streamBuffer.valid.write_le_size
  apply List.ext_getElem?
  intro i
  rw [memory, current, List.getElem?_map, List.getElem?_take]
  unfold readableBytes ValidBuffer.readableBytes Buffer.readableBytes at h
  by_cases hi : i < n
  · have hin : s.streamBuffer.peek + i < s.streamBuffer.buf.buffer.length := by
      unfold ValidBuffer.peek
      omega
    rw [List.getElem?_range hi, if_pos hi, Option.map_some, List.getD_eq_getElem?_getD,
      List.getElem?_eq_getElem hin, ValidBuffer.readable, Buffer.readable,
      Segment.getElem?_segment, if_pos (by omega)]
    exact (List.getElem?_eq_getElem hin).symm
  · rw [if_neg hi, List.getElem?_eq_none (by rw [List.length_range]; omega), Option.map_none]

theorem readableBytes_of_retrieve {s s' : Serializer} {n : ℕ} (h : s.retrieve n = some s') :
    n ≤ s.readableBytes := by
  by_contra hn
  have hnone := s.streamBuffer.retrieve_of_lt (n := n) (by
    rw [ValidBuffer.length_readable]
    exact Nat.lt_of_not_le hn)
  rw [retrieve, hnone] at h
  cases h

namespace Raw

variable (beyond : ℕ → UInt8)

theorem outputInt_eq (s : Serializer) (w : Width) (obj : BitVec (8 * w.bytes)) :
    (outputInt beyond s w obj).1 = s.outputInt w obj ∧ (outputInt beyond s w obj).2.Within := by
  rw [outputInt, Serializer.outputInt]
  by_cases h : w.bytes ≤ s.readableBytes
  · rw [if_pos h, if_pos h, memory_eq_current beyond h]
    exact ⟨rfl, List.forall_mem_singleton.mpr h⟩
  · rw [if_neg h, if_neg h]
    exact ⟨rfl, List.forall_mem_nil _⟩

theorem outputStr_eq (s : Serializer) (str : Bytes) :
    (outputStr beyond s str).1 = s.outputStr str ∧
      ((s.outputStr str).isSome → (outputStr beyond s str).2.Within) := by
  simp only [outputStr, Serializer.outputStr]
  cases hmark : s.retrieve 2 with
  | none => exact ⟨rfl, fun h => absurd h Bool.false_ne_true⟩
  | some t =>
    have hle := readableBytes_of_retrieve hmark
    simp only [memory_eq_current beyond hle, Option.bind_some]
    split_ifs with hzero
    · exact ⟨rfl, fun _ => List.forall_mem_singleton.mpr hle⟩
    · cases hdata : t.retrieve (fromLittleEndian (s.reverse2LittleEndian (s.current 2))) with
      | none => exact ⟨rfl, fun h => absurd h Bool.false_ne_true⟩
      | some u =>
        have hle' := readableBytes_of_retrieve hdata
        rw [memory_eq_current beyond hle']
        exact ⟨rfl, fun _ => List.forall_mem_cons.mpr ⟨hle, List.forall_mem_singleton.mpr hle'⟩⟩

theorem outputObj_eq (s : Serializer) (v : Value) :
    (outputObj beyond s v).1 = s.outputObj v ∧
      ((s.outputObj v).isSome → (outputObj beyond s v).2.Within) := by
  cases v with
  | int w obj =>
    obtain ⟨heq, hwithin⟩ := outputInt_eq beyond s w obj
    exact ⟨congrArg (Option.map _) heq, fun _ => hwithin⟩
  | str str =>
    obtain ⟨heq, hwithin⟩ := outputStr_eq beyond s str
    refine ⟨congrArg (Option.map _) heq, fun h => hwithin ?_⟩
    rwa [Serializer.outputObj, Option.isSome_map] at h

theorem getTuple_eq (ts : List Ty) (s : Serializer) :
    (getTuple beyond ts s).1 = Serializer.getTuple ts s ∧
      ((Serializer.getTuple ts s).isSome → (getTuple beyond ts s).2.Within) := by
  induction ts generalizing s with
  | nil => exact ⟨rfl, fun _ => List.forall_mem_nil _⟩
  | cons t ts ih =>
    obtain ⟨hfirst, hwithin⟩ := outputObj_eq beyond s (Value.default t)
    rw [getTuple, Serializer.getTuple]
    cases hout : outputObj beyond s (Value.default t) with
    | mk out reads =>
      rw [hout] at hfirst hwithin
      cases out with
      | none =>
        rw [← hfirst]
        exact ⟨rfl, fun h => absurd h Bool.false_ne_true⟩
      | some p =>
        obtain ⟨hrest, hmore⟩ := ih p.2
        rw [← hfirst, Option.bind_some]
        refine ⟨congrArg (Option.map _) hrest, fun h => ?_⟩
        rw [Option.isSome_map] at h
        exact (hwithin (by rw [← hfirst]; rfl)).append (hmore h)

end Raw

end Serializer

namespace RpcServer

open Serializer

variable {σ : Type}

namespace Raw

variable (beyond : ℕ → UInt8)

def callproxyImpl (func : Bound σ) (ds : Serializer) (app : σ) :
    Option (Serializer × σ × List Value) × Reads :=
  let (tuple, reads) := Raw.getTuple beyond func.params ds
  (tuple.bind fun (args, ds) =>
    let ds := ds.clear
    let (ret, app) := func.call_helper app args
    (ValueT.write ds ⟨RPC_SUCCESS, [], ret⟩).map fun ds => (ds, app, args), reads)

/-- `onMessage` over the memory behind `current()`, with what its decoder reads. -/
def onMessage (functions : Functions σ) (ds : Serializer) (app : σ) (buf : ValidBuffer) :
    Option (Served σ) × Reads :=
  let (ds, buf) := ({ ds with streamBuffer := buf }, ds.streamBuffer)
  match Raw.outputStr beyond ds [] with
  | (none, reads) => (none, reads)
  | (some (funcname, ds), reads) =>
    match functions.find funcname with
    | none =>
      (((ds.clear.inputInt .w32 RPC_FUNCTION_NOTBIND).inputStr (notBound funcname)).map fun ds =>
        ⟨ds.clear, app, buf, none, ds.streamBuffer.readable⟩, reads)
    | some func =>
      let (called, more) := callproxyImpl beyond func ds app
      (called.map fun (ds, app, args) =>
        ⟨ds.clear, app, buf, some ⟨funcname, args⟩, ds.streamBuffer.readable⟩, reads ++ more)

/-- What lies in memory behind the readable bytes never reaches the outcome of `onMessage`, and
unless it aborts it reads none of it. -/
theorem onMessage_eq (functions : Functions σ) (ds : Serializer) (app : σ) (buf : ValidBuffer) :
    (onMessage beyond functions ds app buf).1 = RpcServer.onMessage functions ds app buf ∧
      ((RpcServer.onMessage functions ds app buf).isSome →
        (onMessage beyond functions ds app buf).2.Within) := by
  obtain ⟨hname, hwithin⟩ := Raw.outputStr_eq beyond { ds with streamBuffer := buf } []
  simp only [onMessage, RpcServer.onMessage]
  cases hout : Raw.outputStr beyond { ds with streamBuffer := buf } [] with
  | mk out reads =>
    rw [hout] at hname hwithin
    rw [← hname]
    cases out with
    | none => exact ⟨rfl, fun h => absurd h Bool.false_ne_true⟩
    | some p =>
      have hread : reads.Within := hwithin (by rw [← hname]; rfl)
      simp only [Option.bind_some]
      cases functions.find p.1 with
      | none => exact ⟨rfl, fun _ => hread⟩
      | some func =>
        obtain ⟨htuple, hmore⟩ := Raw.getTuple_eq beyond func.params p.2
        simp only [callproxyImpl, RpcServer.callproxyImpl, htuple]
        refine ⟨trivial, fun h => hread.append (hmore ?_)⟩
        cases hargs : Serializer.getTuple func.params p.2 with
        | none =>
          rw [hargs] at h
          cases h
        | some q => rfl

end Raw

/-- What `onMessage` does with a message, by the bytes of the message alone. The result `none` means
that an assertion of the decoder fails. -/
def outcome (functions : Functions σ) (app : σ) (m : Bytes) : Option (Answer σ) :=
  match Value.read .str m with
  | some (.str name, rest) => match functions.find name with
    | none => some
      { invoked := none
        reply := (Value.int .w32 RPC_FUNCTION_NOTBIND).written ++
          (Value.str (notBound name)).written
        app := app }
    | some f => (Value.codec.readAll f.params rest).map fun (args, _) =>
      { invoked := some ⟨name, args⟩
        reply := (Value.int .w32 RPC_SUCCESS).written ++ (Value.str []).written ++
          (f.call_helper app args).1.written
        app := (f.call_helper app args).2 }
  | _ => none

def Served.answer (served : Served σ) : Answer σ := ⟨served.invoked, served.reply, served.app⟩

/-- Every message leaves the serializer of the thread and the input buffer empty. -/
def Served.Clean (served : Served σ) : Prop := served.ds.Holds [] ∧ served.buf.readable = []

theorem onMessage_outcome (functions : Functions σ) {ds : Serializer} (hds : ds.Holds []) (app : σ)
    (buf : ValidBuffer) :
    (RpcServer.onMessage functions ds app buf).map Served.answer =
        outcome functions app buf.readable ∧
      ∀ served ∈ RpcServer.onMessage functions ds app buf, served.Clean := by
  have hin : Serializer.Holds { ds with streamBuffer := buf } buf.readable := ⟨hds.1, rfl⟩
  rw [RpcServer.onMessage, outcome]
  rcases hin.outputStr with ⟨hnone, hout⟩ | ⟨name, ds₁, rest, hread, hout, h₁⟩
  · rw [hnone, hout]
    exact ⟨rfl, fun _ h => absurd h (Option.not_mem_none _)⟩
  · rw [hread, hout, Option.bind_some]
    simp only
    cases functions.find name with
    | none =>
      obtain ⟨ds₂, hds₂, h₂⟩ :=
        (h₁.clear.inputInt .w32 RPC_FUNCTION_NOTBIND).inputStr_written (notBound name)
      simp only [hds₂, Option.map_some]
      constructor
      · rw [Served.answer, h₂.2]
        rfl
      · intro served hserved
        cases hserved
        exact ⟨h₂.clear, hds.2⟩
    | some func =>
      have htuple := h₁.getTuple func.params
      simp only [RpcServer.callproxyImpl]
      cases hargs : Value.codec.readAll func.params rest with
      | none =>
        rw [hargs] at htuple
        rw [htuple.of_none]
        exact ⟨rfl, fun _ h => absurd h (Option.not_mem_none _)⟩
      | some p =>
        rw [hargs] at htuple
        obtain ⟨ds₂, hds₂, h₂⟩ := htuple.of_some
        obtain ⟨ds₃, hds₃, h₃⟩ :=
          ValueT.write_wire h₂.clear ⟨RPC_SUCCESS, [], (func.call_helper app p.1).1⟩
        simp only [hds₂, Option.bind_some, hds₃, Option.map_some]
        constructor
        · rw [Served.answer, h₃.2]
          rfl
        · intro served hserved
          cases hserved
          exact ⟨h₃.clear, hds.2⟩

/-- `m` is exactly the encoding of a call of a bound function. -/
def IsRequest (functions : Functions σ) (m : Bytes) (call : Invocation) : Prop :=
  (Value.str call.name).Fits ∧ (∀ v ∈ call.args, v.Fits) ∧
    (∃ f, functions.find call.name = some f ∧ call.args.map Value.ty = f.params) ∧ m = request call

/-- A message that encodes a call leads to this call, and any other message to no call, without a
read behind its bytes and without an abort. -/
def AcceptsExactly (functions : Functions σ) (m : Bytes) (result : Option (Served σ) × Reads) :
    Prop :=
  (∀ call, IsRequest functions m call →
    ∃ served, result.1 = some served ∧ served.invoked = some call) ∧
  ((¬ ∃ call, IsRequest functions m call) →
    result.2.Within ∧ ∃ served, result.1 = some served ∧ served.invoked = none)

/-- The message begins with a whole name that is not bound. -/
def StartsUnbound (functions : Functions σ) (m : Bytes) : Prop :=
  ∃ name rest, (Value.str name).Fits ∧ m = (Value.str name).write ++ rest ∧
    functions.find name = none

theorem outcome_of_isRequest {functions : Functions σ} {m : Bytes} {call : Invocation}
    (h : IsRequest functions m call) (app : σ) :
    ∃ a, outcome functions app m = some a ∧ a.invoked = some call := by
  obtain ⟨hname, hargs, ⟨f, hfind, hty⟩, rfl⟩ := h
  have hread : Value.read .str (request call) =
      some (.str call.name, call.args.flatMap Value.write) :=
    Value.read_write_fits (.str call.name) _ hname
  have hall : Value.codec.readAll f.params (call.args.flatMap Value.write) =
      some (call.args, []) := by
    have hfit := Value.fitCodec.readAll_write hargs []
    rw [List.append_nil] at hfit
    rw [← hty, Codec.readAll_congr (show Value.codec.read = Value.fitCodec.read from rfl)]
    exact hfit
  simp only [outcome, hread, hfind, hall, Option.map_some, Option.some.injEq]
  exact ⟨_, rfl, rfl⟩

theorem outcome_of_startsUnbound {functions : Functions σ} {m : Bytes}
    (h : StartsUnbound functions m) (app : σ) :
    ∃ a, outcome functions app m = some a ∧ a.invoked = none := by
  obtain ⟨name, rest, hname, rfl, hfind⟩ := h
  have hread : Value.read .str ((Value.str name).write ++ rest) = some (.str name, rest) :=
    Value.read_write_fits (.str name) _ hname
  simp only [outcome, hread, hfind, Option.some.injEq]
  exact ⟨_, rfl, rfl⟩

theorem startsUnbound_of_outcome {functions : Functions σ} {app : σ} {m : Bytes} {a : Answer σ}
    (h : outcome functions app m = some a) (hnone : a.invoked = none) :
    StartsUnbound functions m := by
  cases hread : Value.read .str m with
  | none =>
    simp only [outcome, hread, reduceCtorEq] at h
  | some p =>
    obtain ⟨value, rest⟩ := p
    obtain ⟨name, rfl, hname, hm⟩ := Value.read_str hread
    simp only [outcome, hread] at h
    cases hfind : functions.find name with
    | none => exact ⟨name, rest, hname, hm, hfind⟩
    | some f =>
      simp only [hfind, Option.map_eq_some_iff] at h
      obtain ⟨q, _, rfl⟩ := h
      cases hnone

/-- With an empty serializer the decoder treats a message exactly as its format demands when the
message begins with a name that is not bound, or encodes a call. -/
theorem acceptsExactly_iff (functions : Functions σ) (beyond : ℕ → UInt8) {ds : Serializer}
    (hds : ds.Holds []) (app : σ) (buf : ValidBuffer) :
    AcceptsExactly functions buf.readable (Raw.onMessage beyond functions ds app buf) ↔
      StartsUnbound functions buf.readable ∨ ∃ call, IsRequest functions buf.readable call := by
  obtain ⟨hraw, hwithin⟩ := Raw.onMessage_eq beyond functions ds app buf
  obtain ⟨hanswer, _⟩ := onMessage_outcome functions hds app buf
  have hserved : ∀ a, outcome functions app buf.readable = some a →
      ∃ served, RpcServer.onMessage functions ds app buf = some served ∧
        served.invoked = a.invoked := by
    intro a ha
    rw [ha, Option.map_eq_some_iff] at hanswer
    obtain ⟨served, hs, rfl⟩ := hanswer
    exact ⟨served, hs, rfl⟩
  rw [AcceptsExactly, hraw]
  constructor
  · rintro ⟨_, hother⟩
    by_cases hcall : ∃ call, IsRequest functions buf.readable call
    · exact Or.inr hcall
    · obtain ⟨_, served, hs, hnone⟩ := hother hcall
      rw [hs, Option.map_some] at hanswer
      exact Or.inl (startsUnbound_of_outcome hanswer.symm hnone)
  · intro h
    constructor
    · intro call hcall
      obtain ⟨a, ha, hinvoked⟩ := outcome_of_isRequest hcall app
      obtain ⟨served, hs, hsame⟩ := hserved a ha
      exact ⟨served, hs, hsame.trans hinvoked⟩
    · intro hcall
      obtain ⟨a, ha, hnone⟩ := outcome_of_startsUnbound (h.resolve_right hcall) app
      obtain ⟨served, hs, hsame⟩ := hserved a ha
      exact ⟨hwithin (by rw [hs]; rfl), served, hs, hsame.trans hnone⟩

end RpcServer

end Matelib
