import Mathlib.Data.Finset.Card
import Mathlib.Logic.Function.Basic
import Matelib.TcpConnection

/-!
# The owners of a connection

One connection of a server, with its io loop, the base loop, and foreign threads that have a
`TcpConnectionShptr`. The map, the functors of the server and the foreign threads own the
connection. The functors of `send` and `shutdown` have a bare `this`: they find the connection
alive as long as nobody drops the last pointer while one of them waits.
-/

namespace Matelib

namespace ConnectionOwners

open TcpConnection Channel Transition

/-- The functors about the connection. -/
inductive Functor where
  | connectionEstablished
  | sendInLoop (data : Bytes)
  | shutdownInLoop
  | removeConnectionInLoop
  | connectionDestroyed
  deriving DecidableEq

/-- Whether a `TcpConnectionShptr` is bound to the functor, or a bare `this`. -/
def Functor.owns : Functor → Bool
  | .sendInLoop _ => false
  | .shutdownInLoop => false
  | _ => true

/-- The local vector of `doPendingFunctors`: it keeps what it has called until it returns. -/
structure Batch where
  called : List Functor
  rest : List Functor
  deriving DecidableEq

/-- A loop thread; `batch` is there while `callingPendingFunctors_` is set. -/
structure Loop where
  pendingFunctors : List Functor
  batch : Option Batch

def Loop.idle : Loop := ⟨[], none⟩

def Loop.called (l : Loop) : List Functor :=
  match l.batch with
  | some b => b.called
  | none => []

def Loop.rest (l : Loop) : List Functor :=
  match l.batch with
  | some b => b.rest
  | none => []

def Loop.queueInLoop (l : Loop) (f : Functor) : Loop :=
  { l with pendingFunctors := l.pendingFunctors ++ [f] }

def Loop.owners (l : Loop) : ℕ :=
  l.called.countP Functor.owns + l.rest.countP Functor.owns +
    l.pendingFunctors.countP Functor.owns

def Loop.waiting (l : Loop) : List Functor := l.rest ++ l.pendingFunctors

inductive LoopId where
  | base
  | io
  deriving DecidableEq

/-- Where a foreign thread is: outside of the connection's functions, in `send` behind its test of
the state, or in `shutdown` behind its test or behind `setState`. -/
inductive ThreadPc where
  | outside
  | sending (data : Bytes)
  | closing
  | marked
  deriving DecidableEq

/-- `watched` tells whether the poller of the io loop reports events of the channel, and `mapped`
whether the connection is in `connectionMap_`. -/
structure State (τ : Type*) where
  conn : TcpConnection
  watched : Bool
  mapped : Bool
  base : Loop
  io : Loop
  holders : Finset τ
  thread : τ → ThreadPc

variable {τ : Type*}

def State.loop (s : State τ) : LoopId → Loop
  | .base => s.base
  | .io => s.io

def State.setLoop (s : State τ) (l : LoopId) (loop : Loop) : State τ :=
  match l with
  | .base => { s with base := loop }
  | .io => { s with io := loop }

/-- The use count of the connection: it has been freed when there is no pointer any more. -/
def State.useCount (s : State τ) : ℕ :=
  s.mapped.toNat + s.holders.card + s.base.owners + s.io.owners

def State.waiting (s : State τ) : List Functor := s.base.waiting ++ s.io.waiting

def watch : Bool → Effect → Bool
  | _, .update events => events != kNoneEvent
  | _, .remove => false
  | watched, _ => watched

def settle (s : State τ) (r : TcpConnection × List Effect) : State τ :=
  { s with conn := r.1, watched := r.2.foldl watch s.watched }

/-- The state right after `handleConnection`. `same` tells that the io loop is the base loop: then
`runInLoop` has called `connectionEstablished` at once. -/
def State.init (same : Bool) (sockfd : ℕ) : State τ :=
  let s : State τ :=
    { conn := .new sockfd
      watched := false
      mapped := true
      base := .idle
      io := .idle
      holders := ∅
      thread _ := .outside }
  if same then settle s s.conn.connectionEstablished
  else { s with io := s.io.queueInLoop .connectionEstablished }

def removeConnectionInLoop (s : State τ) : State τ :=
  { s with mapped := false, io := s.io.queueInLoop .connectionDestroyed }

/-- `baseLoop_->runInLoop` in the thread of the io loop. -/
def removeConnection (same : Bool) (s : State τ) : State τ :=
  if same then removeConnectionInLoop s
  else { s with base := s.base.queueInLoop .removeConnectionInLoop }

def callFunctor (s : State τ) (w : WriteResult) : Functor → State τ
  | .connectionEstablished => settle s s.conn.connectionEstablished
  | .sendInLoop data => settle s (s.conn.sendInThread data w)
  | .shutdownInLoop => settle s (s.conn, s.conn.shutdownInLoop)
  | .removeConnectionInLoop => removeConnectionInLoop s
  | .connectionDestroyed => settle s s.conn.connectionDestroyed

inductive Event (τ : Type*) where
  -- foreign threads
  | handOut (t : τ)
  | copy (t u : τ)
  | release (t : τ)
  | foreignSend (t : τ) (data : Bytes)
  | foreignShutdown (t : τ)
  | foreignSetState (t : τ)
  | foreignQueue (t : τ)
  -- the thread of the io loop
  | send (data : Bytes) (w : WriteResult)
  | shutdown
  | handleWrite (w : WriteResult)
  | handleClose
  -- `doPendingFunctors` of either loop
  | swap (l : LoopId)
  | callFunctor (l : LoopId) (w : WriteResult)
  | batchEnds (l : LoopId)

/-- A callback of the connection may hand out a pointer, and one foreign thread may give another a
copy of its own. -/
def stepThread [DecidableEq τ] (s : State τ) : Event τ → Option (State τ)
  | .handOut t =>
    if s.watched ∧ 0 < s.useCount then some { s with holders := insert t s.holders } else none
  | .copy t u => if t ∈ s.holders then some { s with holders := insert u s.holders } else none
  | .release t =>
    if t ∈ s.holders ∧ s.thread t = .outside then some { s with holders := s.holders.erase t }
    else none
  | .foreignSend t data =>
    if t ∈ s.holders ∧ s.thread t = .outside then
      if s.conn.state = .kConnected then
        some { s with thread := Function.update s.thread t (.sending data) }
      else some s
    else none
  | .foreignShutdown t =>
    if t ∈ s.holders ∧ s.thread t = .outside then
      if s.conn.state = .kConnected then
        some { s with thread := Function.update s.thread t .closing }
      else some s
    else none
  | .foreignSetState t =>
    if s.thread t = .closing then
      some { s with
        conn := { s.conn with state := .kDisconnecting }
        thread := Function.update s.thread t .marked }
    else none
  | .foreignQueue t => match s.thread t with
    | .sending data => some { s with
        io := s.io.queueInLoop (.sendInLoop data)
        thread := Function.update s.thread t .outside }
    | .marked => some { s with
        io := s.io.queueInLoop .shutdownInLoop
        thread := Function.update s.thread t .outside }
    | _ => none
  | _ => none

def stepLoop (same : Bool) (s : State τ) : Event τ → Option (State τ)
  | .send data w => if 0 < s.useCount then some (settle s (s.conn.send data w)) else none
  | .shutdown => if 0 < s.useCount then some (settle s s.conn.shutdown) else none
  | .handleWrite w =>
    if s.watched ∧ 0 < s.useCount then (s.conn.handleWrite w).map (settle s) else none
  | .handleClose =>
    if s.watched ∧ s.io.batch = none ∧ 0 < s.useCount then
      s.conn.handleClose.map fun r => removeConnection same (settle s r)
    else none
  | .swap l => match (s.loop l).batch with
    | none => some (s.setLoop l ⟨[], some ⟨[], (s.loop l).pendingFunctors⟩⟩)
    | some _ => none
  | .callFunctor l w => match (s.loop l).batch with
    | some ⟨called, f :: rest⟩ =>
      some (ConnectionOwners.callFunctor
        (s.setLoop l ⟨(s.loop l).pendingFunctors, some ⟨called ++ [f], rest⟩⟩) w f)
    | _ => none
  | .batchEnds l => match (s.loop l).batch with
    | some ⟨_, []⟩ => some (s.setLoop l ⟨(s.loop l).pendingFunctors, none⟩)
    | _ => none
  | _ => none

def step [DecidableEq τ] (same : Bool) (s : State τ) (e : Event τ) : Option (State τ) :=
  match e with
  | .handOut .. | .copy .. | .release .. | .foreignSend .. | .foreignShutdown .. |
      .foreignSetState .. | .foreignQueue .. => stepThread s e
  | _ => stepLoop same s e

/-- A functor with a bare `this` that is called now finds the connection alive. -/
def Safe (s : State τ) : Event τ → Prop
  | .callFunctor l _ => ∀ f ∈ (s.loop l).rest.head?, f.owns = false → 0 < s.useCount
  | _ => True

/-- The pointers that a step drops: that of a foreign thread, or those in the vector of
`doPendingFunctors` when it returns. -/
def dropped (s : State τ) : Event τ → ℕ
  | .release _ => 1
  | .batchEnds l => (s.loop l).called.countP Functor.owns
  | _ => 0

/-- Every functor that waits owns the connection. -/
def NoneBare (s : State τ) : Prop := ∀ f ∈ s.waiting, f.owns = true

/-- Nobody drops the last pointer while a functor with a bare `this` waits. -/
def Keeps (s : State τ) (e : Event τ) : Prop :=
  0 < s.useCount → s.useCount = dropped s e → NoneBare s

theorem owners_queueInLoop (l : Loop) (f : Functor) :
    (l.queueInLoop f).owners = l.owners + f.owns.toNat := by
  rw [Loop.owners, Loop.queueInLoop, List.countP_append, List.countP_singleton, Loop.owners]
  cases f.owns with
  | false => rfl
  | true => rfl

theorem useCount_queueInLoop (s : State τ) (f : Functor) :
    { s with io := s.io.queueInLoop f }.useCount = s.useCount + f.owns.toNat := by
  simp only [State.useCount, owners_queueInLoop]
  omega

theorem useCount_removeConnectionInLoop (s : State τ) :
    (removeConnectionInLoop s).useCount + s.mapped.toNat = s.useCount + 1 := by
  simp only [removeConnectionInLoop, State.useCount, owners_queueInLoop, Functor.owns,
    Bool.toNat_true, Bool.toNat_false]
  omega

theorem useCount_removeConnection (same : Bool) (s : State τ) :
    s.useCount ≤ (removeConnection same s).useCount := by
  rw [removeConnection]
  split_ifs
  · have hcount := useCount_removeConnectionInLoop s
    have hmapped := s.mapped.toNat_le
    omega
  · simp only [State.useCount, owners_queueInLoop]
    omega

theorem useCount_callFunctor (s : State τ) (w : WriteResult) (f : Functor) :
    (callFunctor s w f).useCount = s.useCount ∨
      f.owns = true ∧ s.useCount ≤ (callFunctor s w f).useCount := by
  cases f with
  | removeConnectionInLoop =>
    right
    have hcount := useCount_removeConnectionInLoop s
    have hmapped := s.mapped.toNat_le
    refine ⟨rfl, ?_⟩
    change s.useCount ≤ (removeConnectionInLoop s).useCount
    omega
  | connectionEstablished | sendInLoop | shutdownInLoop | connectionDestroyed => exact Or.inl rfl

theorem useCount_setLoop (s : State τ) (l : LoopId) (loop : Loop) :
    (s.setLoop l loop).useCount + (s.loop l).owners = s.useCount + loop.owners := by
  cases l with
  | base =>
    simp only [State.setLoop, State.loop, State.useCount]
    omega
  | io =>
    simp only [State.setLoop, State.loop, State.useCount]
    omega

theorem owners_le_useCount (s : State τ) (l : LoopId) : (s.loop l).owners ≤ s.useCount := by
  cases l with
  | base =>
    simp only [State.loop, State.useCount]
    omega
  | io =>
    simp only [State.loop, State.useCount]
    omega

theorem useCount_pos_of_mem {s : State τ} {t : τ} (h : t ∈ s.holders) : 0 < s.useCount := by
  have hcard := Finset.card_pos.mpr ⟨t, h⟩
  rw [State.useCount]
  omega

theorem useCount_insert [DecidableEq τ] (s : State τ) (t : τ) :
    s.useCount ≤ { s with holders := insert t s.holders }.useCount := by
  have hcard : s.holders.card ≤ (insert t s.holders).card :=
    Finset.card_le_card (Finset.subset_insert t s.holders)
  simp only [State.useCount]
  omega

section Steps

variable [DecidableEq τ]

inductive Move (same : Bool) (s : State τ) : Event τ → State τ → Prop where
  | handOut (t : τ) (hlive : 0 < s.useCount) :
    Move same s (.handOut t) { s with holders := insert t s.holders }
  | copy (t u : τ) (hlive : 0 < s.useCount) :
    Move same s (.copy t u) { s with holders := insert u s.holders }
  | release (t : τ) (hin : t ∈ s.holders) (hout : s.thread t = .outside) :
    Move same s (.release t) { s with holders := s.holders.erase t }
  | foreignSend (t : τ) (data : Bytes) (pc : ThreadPc) (hin : t ∈ s.holders) :
    Move same s (.foreignSend t data) { s with thread := Function.update s.thread t pc }
  | foreignShutdown (t : τ) (pc : ThreadPc) (hin : t ∈ s.holders) :
    Move same s (.foreignShutdown t) { s with thread := Function.update s.thread t pc }
  | foreignSetState (t : τ) (conn : TcpConnection) (pc : ThreadPc) (hin : s.thread t ≠ .outside) :
    Move same s (.foreignSetState t) { s with conn, thread := Function.update s.thread t pc }
  | foreignQueue (t : τ) (f : Functor) (hbare : f.owns = false) (hin : s.thread t ≠ .outside) :
    Move same s (.foreignQueue t) { s with
      io := s.io.queueInLoop f
      thread := Function.update s.thread t .outside }
  | send (data : Bytes) (w : WriteResult) (r : TcpConnection × List Effect) :
    Move same s (.send data w) (settle s r)
  | shutdown (r : TcpConnection × List Effect) : Move same s .shutdown (settle s r)
  | handleWrite (w : WriteResult) (r : TcpConnection × List Effect) :
    Move same s (.handleWrite w) (settle s r)
  | handleClose (r : TcpConnection × List Effect) (hlive : 0 < s.useCount) :
    Move same s .handleClose (removeConnection same (settle s r))
  | swap (l : LoopId) (hbatch : (s.loop l).batch = none) :
    Move same s (.swap l) (s.setLoop l ⟨[], some ⟨[], (s.loop l).pendingFunctors⟩⟩)
  | callFunctor (l : LoopId) (w : WriteResult) {called rest : List Functor} {f : Functor}
      (hbatch : (s.loop l).batch = some ⟨called, f :: rest⟩) :
    Move same s (.callFunctor l w) (ConnectionOwners.callFunctor
      (s.setLoop l ⟨(s.loop l).pendingFunctors, some ⟨called ++ [f], rest⟩⟩) w f)
  | batchEnds (l : LoopId) {called : List Functor}
      (hbatch : (s.loop l).batch = some ⟨called, []⟩) :
    Move same s (.batchEnds l) (s.setLoop l ⟨(s.loop l).pendingFunctors, none⟩)

theorem stepThread_move {same : Bool} {s s' : State τ} {e : Event τ}
    (h : stepThread s e = some s') : Move same s e s' := by
  cases e with
  | handOut t =>
    obtain ⟨hlive, rfl⟩ := of_guard h
    exact .handOut t hlive.2
  | copy t u =>
    obtain ⟨hin, rfl⟩ := of_guard h
    exact .copy t u (useCount_pos_of_mem hin)
  | release t =>
    obtain ⟨hin, rfl⟩ := of_guard h
    exact .release t hin.1 hin.2
  | foreignSend t data =>
    rw [stepThread] at h
    split_ifs at h with hin
    · cases h
      exact .foreignSend t data _ hin.1
    · cases h
      have hsame : Move same s (.foreignSend t data) _ := .foreignSend t data (s.thread t) hin.1
      rwa [Function.update_eq_self] at hsame
  | foreignShutdown t =>
    rw [stepThread] at h
    split_ifs at h with hin
    · cases h
      exact .foreignShutdown t _ hin.1
    · cases h
      have hsame : Move same s (.foreignShutdown t) _ := .foreignShutdown t (s.thread t) hin.1
      rwa [Function.update_eq_self] at hsame
  | foreignSetState t =>
    obtain ⟨ht, rfl⟩ := of_guard h
    exact .foreignSetState t _ _ (by rw [ht]; exact ThreadPc.noConfusion)
  | foreignQueue t =>
    rw [stepThread] at h
    split at h
    · rename_i data ht
      cases h
      exact .foreignQueue t (.sendInLoop data) rfl (by rw [ht]; exact ThreadPc.noConfusion)
    · rename_i ht
      cases h
      exact .foreignQueue t .shutdownInLoop rfl (by rw [ht]; exact ThreadPc.noConfusion)
    · cases h
  | send | shutdown | handleWrite | handleClose | swap | callFunctor | batchEnds => cases h

theorem stepLoop_move {same : Bool} {s s' : State τ} {e : Event τ}
    (h : stepLoop same s e = some s') : Move same s e s' := by
  cases e with
  | send data w =>
    rw [stepLoop] at h
    split_ifs at h
    cases h
    exact .send data w _
  | shutdown =>
    rw [stepLoop] at h
    split_ifs at h
    cases h
    exact .shutdown _
  | handleWrite w =>
    rw [stepLoop] at h
    split_ifs at h
    obtain ⟨r, -, rfl⟩ := Option.map_eq_some_iff.mp h
    exact .handleWrite w r
  | handleClose =>
    rw [stepLoop] at h
    split_ifs at h with hlive
    obtain ⟨r, -, rfl⟩ := Option.map_eq_some_iff.mp h
    exact .handleClose r hlive.2.2
  | swap l =>
    rw [stepLoop] at h
    split at h
    · cases h
      exact .swap l ‹_›
    · cases h
  | callFunctor l w =>
    rw [stepLoop] at h
    split at h
    · cases h
      exact .callFunctor l w ‹_›
    · cases h
  | batchEnds l =>
    rw [stepLoop] at h
    split at h
    · cases h
      exact .batchEnds l ‹_›
    · cases h
  | handOut | copy | release | foreignSend | foreignShutdown | foreignSetState | foreignQueue =>
    cases h

theorem step_move {same : Bool} {s s' : State τ} {e : Event τ} (h : step same s e = some s') :
    Move same s e s' := by
  unfold step at h
  split at h
  · exact stepThread_move h
  · exact stepThread_move h
  · exact stepThread_move h
  · exact stepThread_move h
  · exact stepThread_move h
  · exact stepThread_move h
  · exact stepThread_move h
  · exact stepLoop_move h

theorem Move.useCount {same : Bool} {s s' : State τ} {e : Event τ} (h : Move same s e s') :
    s'.useCount + dropped s e = s.useCount ∨
      0 < s.useCount ∧ s.useCount ≤ s'.useCount ∧ dropped s e = 0 := by
  cases h with
  | handOut t hlive => exact Or.inr ⟨hlive, useCount_insert s t, rfl⟩
  | copy t u hlive => exact Or.inr ⟨hlive, useCount_insert s u, rfl⟩
  | release t hin hout =>
    left
    have hcard := Finset.card_erase_of_mem hin
    have hpos := Finset.card_pos.mpr ⟨t, hin⟩
    simp only [State.useCount, dropped]
    omega
  | foreignSend | foreignShutdown | foreignSetState | send | shutdown | handleWrite =>
    exact Or.inl rfl
  | foreignQueue t f hbare hin =>
    left
    have hcount := useCount_queueInLoop s f
    rw [hbare] at hcount
    exact hcount
  | handleClose r hlive =>
    exact Or.inr ⟨hlive, useCount_removeConnection same (settle s r), rfl⟩
  | swap l hbatch =>
    have hcount := useCount_setLoop s l ⟨[], some ⟨[], (s.loop l).pendingFunctors⟩⟩
    simp only [Loop.owners, Loop.called, Loop.rest, hbatch, List.countP_nil] at hcount
    have hdrop : dropped s (.swap l) = 0 := rfl
    omega
  | @callFunctor l w called rest f hbatch =>
    have hcount := useCount_setLoop s l ⟨(s.loop l).pendingFunctors, some ⟨called ++ [f], rest⟩⟩
    have hle := owners_le_useCount s l
    simp only [Loop.owners, Loop.called, Loop.rest, hbatch, List.countP_append,
      List.countP_cons, List.countP_nil] at hcount hle
    rcases useCount_callFunctor
      (s.setLoop l ⟨(s.loop l).pendingFunctors, some ⟨called ++ [f], rest⟩⟩) w f with
      hcall | ⟨howns, hcall⟩
    · have hdrop : dropped s (.callFunctor l w) = 0 := rfl
      omega
    · right
      rw [if_pos howns] at hle
      refine ⟨?_, ?_, rfl⟩
      · omega
      · omega
  | @batchEnds l called hbatch =>
    have hcount := useCount_setLoop s l ⟨(s.loop l).pendingFunctors, none⟩
    simp only [Loop.owners, Loop.called, Loop.rest, hbatch, List.countP_nil] at hcount
    have hdrop : dropped s (.batchEnds l) = called.countP Functor.owns := by
      rw [dropped, Loop.called, hbatch]
    omega

end Steps

end ConnectionOwners

end Matelib
