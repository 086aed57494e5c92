import Matelib.RpcMemory
import Matelib.Transition
import Mathlib.Logic.Function.Basic

/-!
# RPC connections of one thread

All connections of a thread decode and reply through one serializer, and `swap` moves vectors with
the bytes of old messages between it and their input buffers. Between two deliveries all of them are
empty, so what a message leads to depends on its bytes alone.
-/

namespace Matelib

open Transition

namespace RpcServer

variable {σ : Type}

structure Conn where
  inputBuffer : ValidBuffer
  connected : Bool

/-- A thread with its serializer, the state of the server and its connections. `replies` lists what
`conn->send` has sent, each with its connection. -/
structure Thread (κ : Type*) (σ : Type) where
  ds : Serializer
  app : σ
  conns : κ → Conn
  replies : List (κ × Bytes)

/-- Bytes that arrive on a connection, with the memory that lies behind the vector when they are
decoded, or a connection that leaves `kConnected`. -/
inductive Event (κ : Type*) where
  | deliver (c : κ) (data : Bytes) (beyond : ℕ → UInt8)
  | disconnect (c : κ)

namespace Thread

variable {κ : Type*}

def init (app : σ) : Thread κ σ := ⟨Serializer.init, app, fun _ => ⟨ValidBuffer.empty, true⟩, []⟩

/-- The input buffer of `c` after `readv` has delivered `data`. -/
def delivered (t : Thread κ σ) (c : κ) (data : Bytes) : ValidBuffer :=
  ((t.conns c).inputBuffer.readFd (.got data)).2

variable [DecidableEq κ]

def disconnect (t : Thread κ σ) (c : κ) : Thread κ σ :=
  { t with conns := Function.update t.conns c { t.conns c with connected := false } }

/-- `TcpConnection::handleRead` after `readv` has delivered `data`; no data means end of file, which
closes the connection. `send` does nothing unless the connection is in `kConnected`. -/
def handleRead (functions : Functions σ) (t : Thread κ σ) (c : κ) (data : Bytes)
    (beyond : ℕ → UInt8) : Option (Thread κ σ) :=
  if 0 < ((t.conns c).inputBuffer.readFd (.got data)).1.1 then
    (Raw.onMessage beyond functions t.ds t.app (t.delivered c data)).1.map fun served =>
      { ds := served.ds
        app := served.app
        conns := Function.update t.conns c { t.conns c with inputBuffer := served.buf }
        replies := t.replies ++ if (t.conns c).connected then [(c, served.reply)] else [] }
  else some (t.disconnect c)

def step (functions : Functions σ) (t : Thread κ σ) : Event κ → Option (Thread κ σ)
  | .deliver c data beyond => handleRead functions t c data beyond
  | .disconnect c => some (t.disconnect c)

/-- Nothing is left of earlier messages. -/
structure Idle (t : Thread κ σ) : Prop where
  ds_empty : t.ds.Holds []
  input_empty : ∀ c, (t.conns c).inputBuffer.readable = []

omit [DecidableEq κ] in
theorem idle_init (app : σ) : (init app : Thread κ σ).Idle :=
  ⟨Serializer.holds_init, fun _ => ValidBuffer.readable_empty⟩

omit [DecidableEq κ] in
theorem Idle.readable_delivered {t : Thread κ σ} (h : t.Idle) (c : κ) (data : Bytes) :
    (t.delivered c data).readable = data := by
  rw [delivered, ValidBuffer.readable_readFd, h.input_empty]
  rfl

theorem Idle.disconnect {t : Thread κ σ} (h : t.Idle) (c : κ) : (t.disconnect c).Idle := by
  refine ⟨h.ds_empty, ?_⟩
  intro d
  by_cases hd : d = c
  · subst hd
    simp only [Thread.disconnect, Function.update_self, h.input_empty]
  · simp only [Thread.disconnect, Function.update_of_ne hd, h.input_empty]

theorem Idle.handleRead (functions : Functions σ) {t : Thread κ σ} (h : t.Idle) (c : κ)
    {data : Bytes} (hdata : data ≠ []) (beyond : ℕ → UInt8) :
    (handleRead functions t c data beyond).map Thread.replies =
        (outcome functions t.app data).map (fun a =>
          t.replies ++ if (t.conns c).connected then [(c, a.reply)] else []) ∧
      ∀ t' ∈ Thread.handleRead functions t c data beyond, t'.Idle := by
  obtain ⟨hraw, _⟩ := Raw.onMessage_eq beyond functions t.ds t.app (t.delivered c data)
  obtain ⟨hanswer, hclean⟩ := onMessage_outcome functions h.ds_empty t.app (t.delivered c data)
  have hpos : (0 : ℤ) < data.length := by
    have := List.length_pos_iff.mpr hdata
    omega
  rw [h.readable_delivered] at hanswer
  simp only [Thread.handleRead, ValidBuffer.readFd_fst, ReadvResult.report, if_pos hpos, hraw]
  constructor
  · rw [← hanswer, Option.map_map, Option.map_map]
    rfl
  · intro t' ht'
    obtain ⟨served, hserved, rfl⟩ := Option.map_eq_some_iff.mp ht'
    obtain ⟨hds, hbuf⟩ := hclean served hserved
    refine ⟨hds, ?_⟩
    intro d
    by_cases hd : d = c
    · subst hd
      simp only [Function.update_self, hbuf]
    · simp only [Function.update_of_ne hd, h.input_empty]

theorem Idle.step {functions : Functions σ} {t t' : Thread κ σ} {e : Event κ} (h : t.Idle)
    (hstep : step functions t e = some t') : t'.Idle := by
  cases e with
  | deliver c data beyond =>
    by_cases hdata : data = []
    · subst hdata
      simp only [Thread.step, Thread.handleRead, ValidBuffer.readFd_fst, ReadvResult.report,
        List.length_nil, Nat.cast_zero, lt_irrefl, if_false, Option.some.injEq] at hstep
      exact hstep ▸ h.disconnect c
    · exact (h.handleRead functions c hdata beyond).2 t' hstep
  | disconnect c =>
    cases hstep
    exact h.disconnect c

theorem idle_run {functions : Functions σ} {app : σ} {events : List (Event κ)} {t : Thread κ σ}
    (hrun : runFrom (Thread.step functions) (init app) events = some t) : t.Idle :=
  runFrom_invariant (fun _ _ _ h hstep => Idle.step h hstep) (idle_init app) hrun

end Thread

/-- The results of the bound functions do not depend on the state of the server. -/
def Pure (functions : Functions σ) : Prop :=
  ∀ name f, functions.find name = some f →
    ∀ app₁ app₂ args, (f.func app₁ args).1 = (f.func app₂ args).1

def replyTo (functions : Functions σ) (app : σ) (m : Bytes) : Option Bytes :=
  (outcome functions app m).map Answer.reply

theorem replyTo_pure {functions : Functions σ} (hpure : Pure functions) (app₁ app₂ : σ)
    (m : Bytes) :
    replyTo functions app₁ m = replyTo functions app₂ m := by
  simp only [replyTo, outcome]
  cases Value.read .str m with
  | none => rfl
  | some p =>
    obtain ⟨value, rest⟩ := p
    cases value with
    | int w x => rfl
    | str name =>
      cases hfind : functions.find name with
      | none => simp only [hfind, Option.map_some]
      | some f =>
        have hcall : ∀ args, (f.call_helper app₁ args).1 = (f.call_helper app₂ args).1 := by
          intro args
          simp only [Bound.call_helper, hpure name f hfind app₁ app₂ args]
        simp only [hfind, Option.map_map, Function.comp_def, hcall]

/-- Between the deliveries of every run, the serializer of the thread and all input buffers are
empty, and the next message leads to a reply, or to an abort, that depends on its bytes alone. -/
theorem replies_isolated {κ : Type*} [DecidableEq κ] {functions : Functions σ}
    (hpure : Pure functions) (app₀ app : σ) {events : List (Event κ)} {t : Thread κ σ}
    (hrun : runFrom (Thread.step functions) (Thread.init app₀) events = some t) :
    t.Idle ∧ ∀ (c : κ) (m : Bytes) (beyond : ℕ → UInt8), m ≠ [] →
      (t.delivered c m).readable = m ∧
      (t.handleRead functions c m beyond).map Thread.replies =
        (replyTo functions app m).map (fun reply =>
          t.replies ++ if (t.conns c).connected then [(c, reply)] else []) ∧
      ∀ t' ∈ t.handleRead functions c m beyond, t'.Idle := by
  have hidle := Thread.idle_run hrun
  refine ⟨hidle, ?_⟩
  intro c m beyond hm
  obtain ⟨hreply, hnext⟩ := hidle.handleRead functions c hm beyond
  refine ⟨hidle.readable_delivered c m, ?_, hnext⟩
  rw [hreply, replyTo_pure hpure app t.app m, replyTo, Option.map_map]
  rfl

theorem freeFunctions_find {name : Bytes} {f : Bound TestState}
    (h : freeFunctions.find name = some f) : f = add ∨ f = print := by
  rw [freeFunctions, OrderedMap.find_insert, OrderedMap.find_insert] at h
  split_ifs at h
  · exact Or.inr (Option.some.inj h).symm
  · exact Or.inl (Option.some.inj h).symm
  · cases h

theorem freeFunctions_pure : Pure freeFunctions := by
  intro name f hf app₁ app₂ args
  rcases freeFunctions_find hf with rfl | rfl
  · simp only [add]
    split <;> rfl
  · simp only [print]
    split <;> rfl

/-- Two connections: a call on the first, an unbound name on the second, which is then closed. -/
def sampleEvents : List (Event Bool) :=
  [.deliver false (request (callAdd 10 100)) fun _ => 255,
    .deliver true (request callUnbound) fun _ => 0, .disconnect true]

theorem sampleEvents_isolated : ∃ t,
    runFrom (Thread.step freeFunctions) (Thread.init TestState.init) sampleEvents = some t ∧
      t.Idle ∧ ∀ (c : Bool) (m : Bytes) (beyond : ℕ → UInt8), m ≠ [] →
        (t.delivered c m).readable = m ∧
        (t.handleRead freeFunctions c m beyond).map Thread.replies =
          (replyTo freeFunctions TestState.init m).map (fun reply =>
            t.replies ++ if (t.conns c).connected then [(c, reply)] else []) ∧
        ∀ t' ∈ t.handleRead freeFunctions c m beyond, t'.Idle := by
  have hsome : (runFrom (Thread.step freeFunctions) (Thread.init TestState.init)
      sampleEvents).isSome := by
    decide +kernel
  obtain ⟨t, ht⟩ := Option.isSome_iff_exists.mp hsome
  exact ⟨t, ht, replies_isolated freeFunctions_pure TestState.init TestState.init ht⟩

/-- In every state that a run reaches, the decoder treats a message exactly as its format demands
when the message begins with a whole name that is not bound, or encodes a call. -/
theorem decoder_exact_iff {κ : Type*} [DecidableEq κ] (functions : Functions σ) (app : σ)
    {events : List (Event κ)} {t : Thread κ σ}
    (hrun : runFrom (Thread.step functions) (Thread.init app) events = some t) (c : κ) (m : Bytes)
    (beyond : ℕ → UInt8) :
    AcceptsExactly functions m (Raw.onMessage beyond functions t.ds t.app (t.delivered c m)) ↔
      StartsUnbound functions m ∨ ∃ call, IsRequest functions m call := by
  have hidle := Thread.idle_run hrun
  have hiff := acceptsExactly_iff functions beyond hidle.ds_empty t.app (t.delivered c m)
  rwa [hidle.readable_delivered] at hiff

/-- What the decoder of a new thread does with a message on its only connection. -/
def firstMessage (m : Bytes) : Option (Served TestState) × Reads :=
  Raw.onMessage (fun _ => 0) testFunctions Serializer.init TestState.init
    (Thread.delivered (Thread.init TestState.init : Thread Unit TestState) () m)

/-- A message that announces a name of five bytes and ends there. -/
def cutName : Bytes := [5, 0]

theorem cutName_iff :
    (AcceptsExactly testFunctions cutName (firstMessage cutName) ↔
      StartsUnbound testFunctions cutName ∨ ∃ call, IsRequest testFunctions cutName call) ∧
    AcceptsExactly testFunctions (request callGetName) (firstMessage (request callGetName)) := by
  have hrun : runFrom (Thread.step testFunctions)
      (Thread.init TestState.init : Thread Unit TestState) [] = some (Thread.init TestState.init) :=
    rfl
  have hname : (Value.str callGetName.name).Legal := by decide
  have hrequest : IsRequest testFunctions (request callGetName) callGetName :=
    ⟨hname.fits, fun _ h => absurd h List.not_mem_nil, ⟨getName, by rfl, rfl⟩, rfl⟩
  exact ⟨decoder_exact_iff testFunctions TestState.init hrun () cutName fun _ => 0,
    (decoder_exact_iff testFunctions TestState.init hrun () (request callGetName) fun _ => 0).mpr
      (Or.inr ⟨callGetName, hrequest⟩)⟩

/-- On `cutName` the decoder copies five bytes that are not readable, and aborts. -/
theorem cutName_aborts :
    ¬ ∀ m, m ≠ [] → AcceptsExactly testFunctions m (firstMessage m) := by
  intro h
  obtain ⟨hcall, hother⟩ := h cutName (by decide)
  have haborts : (firstMessage cutName).1.isNone ∧ ¬ (firstMessage cutName).2.Within := by
    decide +kernel
  by_cases hrequest : ∃ call, IsRequest testFunctions cutName call
  · obtain ⟨call, hrequest⟩ := hrequest
    obtain ⟨served, hserved, _⟩ := hcall call hrequest
    rw [hserved] at haborts
    exact Bool.false_ne_true haborts.1
  · exact haborts.2 (hother hrequest).1

end RpcServer

end Matelib
