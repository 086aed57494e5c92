import Matelib.ConnectionOwners

/-!
# The functors of `send` and `shutdown`

What the steps do to the functors that wait, and when these find their connection alive.
-/

namespace Matelib

namespace ConnectionOwners

open TcpConnection Transition

variable {τ : Type*}

theorem mem_waiting {s : State τ} {f : Functor} :
    f ∈ s.waiting ↔ ∃ l, f ∈ (s.loop l).waiting := by
  rw [State.waiting, List.mem_append]
  constructor
  · intro h
    rcases h with h | h
    · exact ⟨.base, h⟩
    · exact ⟨.io, h⟩
  · rintro ⟨l, h⟩
    cases l with
    | base => exact Or.inl h
    | io => exact Or.inr h

theorem mem_waiting_setLoop {s : State τ} {l : LoopId} {loop : Loop} {f : Functor} {p : Prop}
    (h : f ∈ (s.loop l).waiting ↔ p ∨ f ∈ loop.waiting) :
    f ∈ s.waiting ↔ p ∨ f ∈ (s.setLoop l loop).waiting := by
  cases l with
  | base =>
    change f ∈ s.base.waiting ++ s.io.waiting ↔ p ∨ f ∈ loop.waiting ++ s.io.waiting
    rw [List.mem_append, List.mem_append, ← or_assoc]
    exact or_congr_left h
  | io =>
    change f ∈ s.base.waiting ++ s.io.waiting ↔ p ∨ f ∈ s.base.waiting ++ loop.waiting
    rw [List.mem_append, List.mem_append, or_left_comm]
    exact or_congr_right h

theorem mem_waiting_queueInLoop {l : Loop} {f g : Functor} :
    f ∈ (l.queueInLoop g).waiting ↔ f = g ∨ f ∈ l.waiting := by
  change f ∈ l.rest ++ (l.pendingFunctors ++ [g]) ↔ f = g ∨ f ∈ l.rest ++ l.pendingFunctors
  rw [← List.append_assoc, List.mem_append, List.mem_singleton, or_comm]

theorem bare_queueInLoop {l : Loop} {f g : Functor} (hg : g.owns = true) (hf : f.owns = false) :
    f ∈ (l.queueInLoop g).waiting ↔ f ∈ l.waiting := by
  rw [mem_waiting_queueInLoop]
  apply or_iff_right
  rintro rfl
  exact absurd (hg.symm.trans hf) Bool.noConfusion

theorem bare_removeConnectionInLoop (s : State τ) {f : Functor} (hf : f.owns = false) :
    f ∈ (removeConnectionInLoop s).waiting ↔ f ∈ s.waiting := by
  rw [State.waiting, State.waiting, List.mem_append, List.mem_append]
  exact or_congr_right (bare_queueInLoop rfl hf)

theorem bare_removeConnection (same : Bool) (s : State τ) {f : Functor} (hf : f.owns = false) :
    f ∈ (removeConnection same s).waiting ↔ f ∈ s.waiting := by
  rw [removeConnection]
  split_ifs
  · exact bare_removeConnectionInLoop s hf
  · rw [State.waiting, State.waiting, List.mem_append, List.mem_append]
    exact or_congr_left (bare_queueInLoop rfl hf)

theorem bare_callFunctor (s : State τ) (w : WriteResult) (g : Functor) {f : Functor}
    (hf : f.owns = false) : f ∈ (callFunctor s w g).waiting ↔ f ∈ s.waiting := by
  cases g with
  | removeConnectionInLoop => exact bare_removeConnectionInLoop s hf
  | connectionEstablished | sendInLoop | shutdownInLoop | connectionDestroyed => exact Iff.rfl

/-- What a step does to a functor with a bare `this`. -/
inductive Flow (s s' : State τ) (f : Functor) : Event τ → Prop where
  | stays {e : Event τ} (h : f ∈ s'.waiting ↔ f ∈ s.waiting) : Flow s s' f e
  | queued (t : τ) (hin : s.thread t ≠ .outside) (hsame : s'.holders = s.holders)
      (h : f ∈ s.waiting → f ∈ s'.waiting) : Flow s s' f (.foreignQueue t)
  | called (l : LoopId) (w : WriteResult) (g : Functor) (hhead : g ∈ (s.loop l).rest.head?)
      (h : f ∈ s.waiting ↔ f = g ∨ f ∈ s'.waiting) : Flow s s' f (.callFunctor l w)

theorem Move.flow [DecidableEq τ] {same : Bool} {s s' : State τ} {e : Event τ}
    (h : Move same s e s') {f : Functor} (hf : f.owns = false) : Flow s s' f e := by
  cases h with
  | handOut | copy | release | foreignSend | foreignShutdown | foreignSetState | send | shutdown
  | handleWrite => exact .stays Iff.rfl
  | foreignQueue t g hbare hin =>
    refine .queued t hin rfl ?_
    intro hmem
    rcases List.mem_append.mp hmem with hmem | hmem
    · exact List.mem_append_left _ hmem
    · exact List.mem_append_right _ (mem_waiting_queueInLoop.mpr (Or.inr hmem))
  | handleClose r hlive => exact .stays (bare_removeConnection same (settle s r) hf)
  | swap l hbatch =>
    have hsame : f ∈ (s.loop l).waiting ↔
        False ∨ f ∈ Loop.waiting ⟨[], some ⟨[], (s.loop l).pendingFunctors⟩⟩ := by
      rw [false_or, Loop.waiting, Loop.waiting, Loop.rest, Loop.rest, hbatch, List.nil_append,
        List.append_nil]
    exact .stays ((mem_waiting_setLoop hsame).trans (iff_of_eq (false_or _))).symm
  | @callFunctor l w called rest g hbatch =>
    have hrest : (s.loop l).rest = g :: rest := by
      rw [Loop.rest, hbatch]
    have hsame : f ∈ (s.loop l).waiting ↔
        f = g ∨ f ∈ Loop.waiting ⟨(s.loop l).pendingFunctors, some ⟨called ++ [g], rest⟩⟩ := by
      rw [Loop.waiting, hrest, List.cons_append, List.mem_cons]
      exact Iff.rfl
    refine .called l w g (by rw [hrest]; exact rfl) ?_
    rw [bare_callFunctor _ w g hf]
    exact mem_waiting_setLoop hsame
  | @batchEnds l called hbatch =>
    have hsame : f ∈ (s.loop l).waiting ↔
        False ∨ f ∈ Loop.waiting ⟨(s.loop l).pendingFunctors, none⟩ := by
      rw [false_or, Loop.waiting, Loop.waiting, Loop.rest, Loop.rest, hbatch]
    exact .stays ((mem_waiting_setLoop hsame).trans (iff_of_eq (false_or _))).symm

/-- A foreign thread inside a function has its pointer, and a functor with a bare `this` waits only
while the connection is alive. -/
structure Kept (s : State τ) : Prop where
  holds : ∀ t, s.thread t ≠ .outside → t ∈ s.holders
  alive : ∀ f ∈ s.waiting, f.owns = false → 0 < s.useCount

theorem kept_init (same : Bool) (sockfd : ℕ) : Kept (State.init same sockfd : State τ) where
  holds t ht := by
    cases same with
    | false => exact absurd rfl ht
    | true => exact absurd rfl ht
  alive _ _ _ := by
    cases same with
    | false => exact Nat.zero_lt_succ _
    | true => exact Nat.zero_lt_succ _

theorem holds_update [DecidableEq τ] {s : State τ}
    (h : ∀ t, s.thread t ≠ .outside → t ∈ s.holders) {u : τ} (hu : u ∈ s.holders) (pc : ThreadPc)
    {t : τ} (ht : Function.update s.thread u pc t ≠ .outside) : t ∈ s.holders := by
  by_cases htu : t = u
  · rw [htu]
    exact hu
  · rw [Function.update_of_ne htu] at ht
    exact h t ht

theorem frame_removeConnection (same : Bool) (s : State τ) :
    (removeConnection same s).thread = s.thread ∧
      (removeConnection same s).holders = s.holders := by
  rw [removeConnection]
  split_ifs
  · exact ⟨rfl, rfl⟩
  · exact ⟨rfl, rfl⟩

theorem frame_setLoop (s : State τ) (l : LoopId) (loop : Loop) :
    (s.setLoop l loop).thread = s.thread ∧ (s.setLoop l loop).holders = s.holders := by
  cases l with
  | base => exact ⟨rfl, rfl⟩
  | io => exact ⟨rfl, rfl⟩

theorem frame_callFunctor (s : State τ) (w : WriteResult) (f : Functor) :
    (callFunctor s w f).thread = s.thread ∧ (callFunctor s w f).holders = s.holders := by
  cases f with
  | connectionEstablished | sendInLoop | shutdownInLoop | removeConnectionInLoop |
      connectionDestroyed => exact ⟨rfl, rfl⟩

theorem Move.holds [DecidableEq τ] {same : Bool} {s s' : State τ} {e : Event τ}
    (hmove : Move same s e s') (h : ∀ t, s.thread t ≠ .outside → t ∈ s.holders) :
    ∀ t, s'.thread t ≠ .outside → t ∈ s'.holders := by
  cases hmove with
  | handOut | copy =>
    intro t ht
    exact Finset.mem_insert_of_mem (h t ht)
  | release u hin hout =>
    intro t ht
    apply Finset.mem_erase_of_ne_of_mem _ (h t ht)
    rintro rfl
    exact ht hout
  | foreignSend u data pc hin =>
    intro t ht
    exact holds_update h hin pc ht
  | foreignShutdown u pc hin =>
    intro t ht
    exact holds_update h hin pc ht
  | foreignSetState u conn pc hin =>
    intro t ht
    exact holds_update h (h u hin) pc ht
  | foreignQueue u f hbare hin =>
    intro t ht
    exact holds_update h (h u hin) .outside ht
  | send | shutdown | handleWrite => exact h
  | handleClose r hlive =>
    obtain ⟨hthread, hholders⟩ := frame_removeConnection same (settle s r)
    rw [hthread, hholders]
    exact h
  | swap l hbatch =>
    obtain ⟨hthread, hholders⟩ := frame_setLoop s l ⟨[], some ⟨[], (s.loop l).pendingFunctors⟩⟩
    rw [hthread, hholders]
    exact h
  | @callFunctor l w called rest f hbatch =>
    obtain ⟨hthread, hholders⟩ :=
      frame_setLoop s l ⟨(s.loop l).pendingFunctors, some ⟨called ++ [f], rest⟩⟩
    obtain ⟨hthread', hholders'⟩ := frame_callFunctor
      (s.setLoop l ⟨(s.loop l).pendingFunctors, some ⟨called ++ [f], rest⟩⟩) w f
    rw [hthread', hholders', hthread, hholders]
    exact h
  | batchEnds l hbatch =>
    obtain ⟨hthread, hholders⟩ := frame_setLoop s l ⟨(s.loop l).pendingFunctors, none⟩
    rw [hthread, hholders]
    exact h

theorem mem_waiting_of_head {s : State τ} {l : LoopId} {f : Functor}
    (h : f ∈ (s.loop l).rest.head?) : f ∈ s.waiting :=
  mem_waiting.mpr ⟨l, List.mem_append_left _ (List.mem_of_mem_head? h)⟩

theorem Kept.safe {s : State τ} (h : Kept s) (e : Event τ) : Safe s e := by
  cases e with
  | callFunctor l w => exact fun f hf hbare => h.alive f (mem_waiting_of_head hf) hbare
  | _ => trivial

theorem Kept.step [DecidableEq τ] {same : Bool} {s s' : State τ} (h : Kept s) {e : Event τ}
    (hkeeps : Keeps s e) (hstep : step same s e = some s') : Kept s' := by
  have hmove := step_move hstep
  refine ⟨hmove.holds h.holds, ?_⟩
  intro f hf hbare
  have hold : f ∈ s.waiting → 0 < s'.useCount := by
    intro hmem
    have hpos := h.alive f hmem hbare
    have hmore : s.useCount ≠ dropped s e := by
      intro hlast
      exact absurd ((hkeeps hpos hlast f hmem).symm.trans hbare) Bool.noConfusion
    have hcount := hmove.useCount
    omega
  cases hmove.flow hbare with
  | stays hiff => exact hold (hiff.mp hf)
  | queued t hin hsame _ =>
    apply useCount_pos_of_mem (t := t)
    rw [hsame]
    exact h.holds t hin
  | called l w g _ hiff => exact hold (hiff.mpr (Or.inr hf))

/-- The connection has been freed, and a functor with a bare `this` waits. -/
def Dangling (s : State τ) : Prop := s.useCount = 0 ∧ ∃ f ∈ s.waiting, f.owns = false

theorem bare_stays [DecidableEq τ] {same : Bool} {s s' : State τ} {e : Event τ}
    (hstep : step same s e = some s') {f : Functor} (hf : f ∈ s.waiting) (hbare : f.owns = false)
    (hnot : ∀ l w, e = .callFunctor l w → f ∉ (s.loop l).rest.head?) : f ∈ s'.waiting := by
  cases (step_move hstep).flow hbare with
  | stays hiff => exact hiff.mpr hf
  | queued t _ _ himp => exact himp hf
  | called l w g hhead hiff =>
    rcases hiff.mp hf with rfl | hf
    · exact absurd hhead (hnot l w rfl)
    · exact hf

theorem Dangling.step [DecidableEq τ] {same : Bool} {s s' : State τ} (h : Dangling s) {e : Event τ}
    (hsafe : Safe s e) (hstep : step same s e = some s') : Dangling s' := by
  obtain ⟨hfreed, f, hf, hbare⟩ := h
  have hcount := (step_move hstep).useCount
  refine ⟨by omega, f, bare_stays hstep hf hbare ?_, hbare⟩
  rintro l w rfl hhead
  exact Nat.ne_of_gt (hsafe f hhead hbare) hfreed

theorem dangling_of_not_keeps [DecidableEq τ] {same : Bool} {s s' : State τ} {e : Event τ}
    (hnot : ¬ Keeps s e) (hstep : step same s e = some s') : Dangling s' := by
  obtain ⟨hpos, hnot⟩ := Classical.not_imp.mp hnot
  obtain ⟨hlast, hnot⟩ := Classical.not_imp.mp hnot
  obtain ⟨f, hnot⟩ := Classical.not_forall.mp hnot
  obtain ⟨hf, hbare⟩ := Classical.not_imp.mp hnot
  rw [Bool.not_eq_true] at hbare
  have hcount := (step_move hstep).useCount
  refine ⟨by omega, f, bare_stays hstep hf hbare ?_, hbare⟩
  rintro l w rfl _
  have hdrop : dropped s (.callFunctor l w) = 0 := rfl
  omega

theorem keeps_of_safe [DecidableEq τ] {same : Bool} {s t : State τ} {events : List (Event τ)}
    (hsafe : Along (step same) Safe s events) (hrun : runFrom (step same) s events = some t)
    (hdone : NoneBare t) : Along (step same) Keeps s events := by
  induction events generalizing s with
  | nil => trivial
  | cons e events ih =>
    obtain ⟨u, hu, hrest⟩ := (runFrom_cons ..).mp hrun
    have hkeeps : Keeps s e := by
      by_contra hnot
      have hdangling := dangling_of_not_keeps hnot hu
      obtain ⟨_, f, hf, hbare⟩ := runFrom_invariant_along (I := Dangling)
        (fun _ _ _ h hsafe hstep => h.step hsafe hstep) hdangling (hsafe.2 u hu) hrest
      exact absurd ((hdone f hf).symm.trans hbare) Bool.noConfusion
    exact along_cons hkeeps hu (ih (hsafe.2 u hu) hrest)

/-- In every run in which nobody drops the last pointer while a functor of `send` or `shutdown`
waits, each of these functors finds the connection alive when it is called. Of the runs that call
all of them, it is so in no other one. -/
theorem functors_safe [DecidableEq τ] (same : Bool) (sockfd : ℕ) (events : List (Event τ)) :
    (Along (step same) Keeps (State.init same sockfd) events →
      Along (step same) Safe (State.init same sockfd) events) ∧
    ∀ t, runFrom (step same) (State.init same sockfd) events = some t → NoneBare t →
      Along (step same) Safe (State.init same sockfd) events →
        Along (step same) Keeps (State.init same sockfd) events := by
  constructor
  · apply along_of_invariant (I := Kept)
    · intro s e h _
      exact h.safe e
    · intro s e s' h hkeeps hstep
      exact h.step hkeeps hstep
    · exact kept_init same sockfd
  · intro t hrun hdone hsafe
    exact keeps_of_safe hsafe hrun hdone

instance (s : State τ) (e : Event τ) : Decidable (Keeps s e) :=
  inferInstanceAs (Decidable (_ → _ → ∀ f ∈ s.waiting, f.owns = true))

/-- A foreign thread queues a functor behind `connectionDestroyed`, and has its pointer until the
functor has been called. -/
def heldUntilCalled : List (Event ℕ) :=
  [.swap .io, .callFunctor .io ⟨0, .EWOULDBLOCK⟩, .handOut 0, .batchEnds .io, .foreignSend 0 [1],
    .handleClose, .swap .base, .callFunctor .base ⟨0, .EWOULDBLOCK⟩, .batchEnds .base, .swap .io,
    .callFunctor .io ⟨0, .EWOULDBLOCK⟩, .foreignQueue 0, .batchEnds .io, .swap .io,
    .callFunctor .io ⟨0, .EWOULDBLOCK⟩, .batchEnds .io, .release 0]

theorem heldUntilCalled_safe :
    Along (step false) Keeps (State.init false 7) heldUntilCalled ∧
      Along (step false) Safe (State.init false 7) heldUntilCalled := by
  have hkeeps : Along (step false) Keeps (State.init false 7) heldUntilCalled := by
    decide +kernel
  exact ⟨hkeeps, (functors_safe false 7 heldUntilCalled).1 hkeeps⟩

/-- The same thread releases its pointer at once. -/
def releasedEarly : List (Event ℕ) :=
  [.swap .io, .callFunctor .io ⟨0, .EWOULDBLOCK⟩, .handOut 0, .batchEnds .io, .foreignSend 0 [1],
    .handleClose, .swap .base, .callFunctor .base ⟨0, .EWOULDBLOCK⟩, .batchEnds .base, .swap .io,
    .callFunctor .io ⟨0, .EWOULDBLOCK⟩, .foreignQueue 0, .release 0, .batchEnds .io, .swap .io]

/-- The loop thread then calls `sendInLoop` of a connection that has been freed. -/
theorem releasedEarly_dangles : ¬ ∀ (same : Bool) (sockfd : ℕ) (events : List (Event ℕ)),
    Along (step same) Safe (State.init same sockfd) events := by
  intro h
  obtain ⟨t, hrun, hhead, hfreed⟩ : ∃ t : State ℕ,
      runFrom (step false) (State.init false 7) releasedEarly = some t ∧
        .sendInLoop [1] ∈ (t.loop .io).rest.head? ∧ t.useCount = 0 := ⟨_, rfl, rfl, rfl⟩
  have hsafe := h false 7 (releasedEarly ++ [.callFunctor .io ⟨1, .EWOULDBLOCK⟩])
  have hlast := ((along_append hrun).mp hsafe).2.1
  exact Nat.ne_of_gt (hlast _ hhead rfl) hfreed

/-- Something that owns the connection is still to come into the vector of the io loop. -/
def Ahead (s : State τ) : Prop :=
  s.mapped = true ∨ (∃ f ∈ s.base.waiting, f.owns = true) ∨
    ∃ f ∈ s.io.pendingFunctors, f.owns = true

/-- Foreign threads queue their functors only in time, before the io loop takes
`connectionDestroyed` out of its queue. -/
def InTime (s : State τ) : Event τ → Prop
  | .foreignQueue _ => Ahead s
  | _ => True

structure Covered (s : State τ) : Prop where
  base : ∀ f ∈ s.base.waiting, f = .removeConnectionInLoop
  pending : (∃ f ∈ s.io.pendingFunctors, f.owns = false) → Ahead s
  rest : (∃ f ∈ s.io.rest, f.owns = false) →
    Ahead s ∨ ∃ f ∈ s.io.called ++ s.io.rest, f.owns = true

theorem covered_init (same : Bool) (sockfd : ℕ) : Covered (State.init same sockfd : State τ) := by
  have hahead : Ahead (State.init same sockfd : State τ) := by
    cases same with
    | false => exact Or.inl rfl
    | true => exact Or.inl rfl
  refine ⟨?_, fun _ => hahead, fun _ => Or.inl hahead⟩
  cases same with
  | false => exact List.forall_mem_nil _
  | true => exact List.forall_mem_nil _

theorem covered_of_ahead {s : State τ} (hahead : Ahead s)
    (hbase : ∀ f ∈ s.base.waiting, f = .removeConnectionInLoop) : Covered s :=
  ⟨hbase, fun _ => hahead, fun _ => Or.inl hahead⟩

theorem ahead_removeConnectionInLoop (s : State τ) : Ahead (removeConnectionInLoop s) :=
  Or.inr (Or.inr ⟨.connectionDestroyed, List.mem_append_right _ List.mem_cons_self, rfl⟩)

theorem Covered.removeConnection {s : State τ} (h : Covered s) (same : Bool) :
    Covered (removeConnection same s) := by
  unfold ConnectionOwners.removeConnection
  split_ifs
  · exact covered_of_ahead (ahead_removeConnectionInLoop s) h.base
  · apply covered_of_ahead
    · exact Or.inr (Or.inl ⟨.removeConnectionInLoop,
        mem_waiting_queueInLoop.mpr (Or.inl rfl), rfl⟩)
    · intro f hf
      rcases mem_waiting_queueInLoop.mp hf with rfl | hf
      · rfl
      · exact h.base f hf

theorem Covered.queue {s : State τ} (h : Covered s) (hahead : Ahead s) (f : Functor)
    (thread : τ → ThreadPc) : Covered { s with io := s.io.queueInLoop f, thread } := by
  refine covered_of_ahead ?_ h.base
  rcases hahead with hmapped | hbase | ⟨g, hg, howns⟩
  · exact Or.inl hmapped
  · exact Or.inr (Or.inl hbase)
  · exact Or.inr (Or.inr ⟨g, List.mem_append_left _ hg, howns⟩)

theorem Covered.callBase {s : State τ} (h : Covered s) {called rest : List Functor} {f : Functor}
    (hbatch : s.base.batch = some ⟨called, f :: rest⟩) (w : WriteResult) :
    Covered (ConnectionOwners.callFunctor
      (s.setLoop .base ⟨s.base.pendingFunctors, some ⟨called ++ [f], rest⟩⟩) w f) := by
  have hwaiting : s.base.waiting = f :: (rest ++ s.base.pendingFunctors) := by
    rw [Loop.waiting, Loop.rest, hbatch]
    rfl
  have hf : f = .removeConnectionInLoop := by
    apply h.base
    rw [hwaiting]
    exact List.mem_cons_self
  rw [hf]
  apply covered_of_ahead (ahead_removeConnectionInLoop _)
  intro g hg
  apply h.base
  rw [hwaiting]
  exact List.mem_cons_of_mem _ hg

theorem Covered.callIo {s : State τ} (h : Covered s) {called rest : List Functor} {f : Functor}
    (hbatch : s.io.batch = some ⟨called, f :: rest⟩) (w : WriteResult) :
    Covered (ConnectionOwners.callFunctor
      (s.setLoop .io ⟨s.io.pendingFunctors, some ⟨called ++ [f], rest⟩⟩) w f) := by
  have hmoved : Covered (s.setLoop .io ⟨s.io.pendingFunctors, some ⟨called ++ [f], rest⟩⟩) := by
    refine ⟨h.base, h.pending, ?_⟩
    have hold := h.rest
    simp only [Loop.called, Loop.rest, hbatch] at hold
    rintro ⟨g, hg, hbare⟩
    rcases hold ⟨g, List.mem_cons_of_mem _ hg, hbare⟩ with hahead | ⟨g', hg', howns⟩
    · exact Or.inl hahead
    · refine Or.inr ⟨g', ?_, howns⟩
      change g' ∈ (called ++ [f]) ++ rest
      rw [List.append_assoc]
      exact hg'
  cases f with
  | removeConnectionInLoop => exact covered_of_ahead (ahead_removeConnectionInLoop _) h.base
  | connectionEstablished | sendInLoop | shutdownInLoop | connectionDestroyed =>
    exact ⟨hmoved.base, hmoved.pending, hmoved.rest⟩

theorem Covered.swap {s : State τ} (h : Covered s) {l : LoopId} (hbatch : (s.loop l).batch = none) :
    Covered (s.setLoop l ⟨[], some ⟨[], (s.loop l).pendingFunctors⟩⟩) := by
  cases l with
  | base =>
    have hwaiting : Loop.waiting ⟨[], some ⟨[], s.base.pendingFunctors⟩⟩ = s.base.waiting := by
      change s.base.pendingFunctors ++ [] = s.base.waiting
      rw [List.append_nil, Loop.waiting, Loop.rest]
      change s.base.batch = none at hbatch
      rw [hbatch, List.nil_append]
    have hahead : Ahead s →
        Ahead (s.setLoop .base ⟨[], some ⟨[], s.base.pendingFunctors⟩⟩) := by
      rintro (hmapped | hbase | hio)
      · exact Or.inl hmapped
      · refine Or.inr (Or.inl ?_)
        change ∃ f ∈ Loop.waiting ⟨[], some ⟨[], s.base.pendingFunctors⟩⟩, f.owns = true
        rw [hwaiting]
        exact hbase
      · exact Or.inr (Or.inr hio)
    refine ⟨?_, fun hbare => hahead (h.pending hbare), fun hbare => ?_⟩
    · change ∀ f ∈ Loop.waiting ⟨[], some ⟨[], s.base.pendingFunctors⟩⟩, _
      rw [hwaiting]
      exact h.base
    · exact (h.rest hbare).imp_left hahead
  | io =>
    refine ⟨h.base, ?_, ?_⟩
    · rintro ⟨f, hf, -⟩
      exact absurd hf List.not_mem_nil
    · intro hbare
      rcases h.pending hbare with hmapped | hbase | howner
      · exact Or.inl (Or.inl hmapped)
      · exact Or.inl (Or.inr (Or.inl hbase))
      · exact Or.inr howner

theorem Covered.batchEnds {s : State τ} (h : Covered s) {l : LoopId} {called : List Functor}
    (hbatch : (s.loop l).batch = some ⟨called, []⟩) :
    Covered (s.setLoop l ⟨(s.loop l).pendingFunctors, none⟩) := by
  cases l with
  | base =>
    change s.base.batch = some ⟨called, []⟩ at hbatch
    have hbase := h.base
    have hpending := h.pending
    have hrest := h.rest
    simp only [Ahead, Loop.waiting, Loop.rest, hbatch] at hbase hpending hrest
    exact ⟨hbase, hpending, hrest⟩
  | io =>
    refine ⟨h.base, h.pending, ?_⟩
    rintro ⟨f, hf, -⟩
    exact absurd hf List.not_mem_nil

theorem Covered.step [DecidableEq τ] {same : Bool} {s s' : State τ} (h : Covered s) {e : Event τ}
    (htime : InTime s e) (hstep : step same s e = some s') : Covered s' := by
  cases step_move hstep with
  | handOut | copy | release | foreignSend | foreignShutdown | foreignSetState | send | shutdown
  | handleWrite => exact ⟨h.base, h.pending, h.rest⟩
  | foreignQueue t f hbare hin => exact h.queue htime f _
  | handleClose r hlive =>
    have hsettled : Covered (settle s r) := ⟨h.base, h.pending, h.rest⟩
    exact hsettled.removeConnection same
  | swap l hbatch => exact h.swap hbatch
  | callFunctor l w hbatch =>
    cases l with
    | base => exact h.callBase hbatch w
    | io => exact h.callIo hbatch w
  | batchEnds l hbatch => exact h.batchEnds hbatch

theorem useCount_pos_of_ahead {s : State τ} (h : Ahead s) : 0 < s.useCount := by
  rcases h with hmapped | ⟨f, hf, howns⟩ | ⟨f, hf, howns⟩
  · rw [State.useCount, hmapped, Bool.toNat_true]
    omega
  · have hpos := List.countP_pos_iff.mpr ⟨f, hf, howns⟩
    have hle := owners_le_useCount s .base
    rw [Loop.waiting, List.countP_append] at hpos
    simp only [State.loop, Loop.owners] at hle
    omega
  · have hpos := List.countP_pos_iff.mpr ⟨f, hf, howns⟩
    have hle := owners_le_useCount s .io
    simp only [State.loop, Loop.owners] at hle
    omega

theorem Covered.safe {s : State τ} (h : Covered s) (e : Event τ) : Safe s e := by
  cases e with
  | callFunctor l w =>
    intro f hf hbare
    have hmem : f ∈ (s.loop l).rest := List.mem_of_mem_head? hf
    cases l with
    | base =>
      have hremove := h.base f (List.mem_append_left _ hmem)
      rw [hremove] at hbare
      cases hbare
    | io =>
      rcases h.rest ⟨f, hmem, hbare⟩ with hahead | ⟨g, hg, howns⟩
      · exact useCount_pos_of_ahead hahead
      · have hpos := List.countP_pos_iff.mpr ⟨g, hg, howns⟩
        have hle := owners_le_useCount s .io
        rw [List.countP_append] at hpos
        simp only [State.loop, Loop.owners] at hle
        omega
  | _ => trivial

/-- The order of the queue is enough for the functors that are queued in time, even when the foreign
threads drop their pointers at once. -/
theorem safe_of_inTime [DecidableEq τ] (same : Bool) (sockfd : ℕ) (events : List (Event τ))
    (htime : Along (step same) InTime (State.init same sockfd) events) :
    Along (step same) Safe (State.init same sockfd) events := by
  apply along_of_invariant (I := Covered) _ _ (covered_init same sockfd) htime
  · intro s e h _
    exact h.safe e
  · intro s e s' h htime hstep
    exact h.step htime hstep

end ConnectionOwners

end Matelib
