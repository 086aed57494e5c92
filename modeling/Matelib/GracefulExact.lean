import Matelib.GracefulRuns

/-!
# Which half-closes are graceful

Every call of `send` is in one place: in its thread, in the queue, or taken by `sendInThread`. So
what waits in the queue or in the output buffer is not written, and a half-close is graceful only
when it is clear.
-/

namespace Matelib

namespace GracefulClose

open TcpConnection Channel Transition OutputStream

variable {τ : Type*}

/-- The call whose data a functor carries. -/
def Functor.call? : Functor → Option ℕ
  | .sendInLoop call _ => some call
  | .shutdownInLoop => none

/-- The calls that `sendInThread` has taken and those that wait in the queue. -/
def State.arrived (s : State τ) : List ℕ :=
  s.taken.map Prod.fst ++ s.queue.filterMap Functor.call?

structure Apart (s : State τ) : Prop where
  nodup : s.arrived.Nodup
  below : ∀ call ∈ s.arrived, call < s.calls
  sending : ∀ t call data, s.thread t = .sending call data → call ∉ s.arrived

theorem established_apart (sockfd : ℕ) : Apart (State.established sockfd : State τ) where
  nodup := List.nodup_nil
  below := List.forall_mem_nil _
  sending _ _ _ _ := List.not_mem_nil

theorem Apart.stay {s t : State τ} (h : Apart s) (harrived : t.arrived.Sublist s.arrived)
    (hcalls : s.calls ≤ t.calls)
    (hsending : ∀ u call data, t.thread u = .sending call data → call ∉ s.arrived) : Apart t where
  nodup := h.nodup.sublist harrived
  below call hcall := (h.below call (harrived.subset hcall)).trans_le hcalls
  sending u call data hu hcall := hsending u call data hu (harrived.subset hcall)

theorem Apart.arrive {s t : State τ} (h : Apart s) {call : ℕ} (hnew : call ∉ s.arrived)
    (harrived : t.arrived.Perm (call :: s.arrived)) (hlt : call < t.calls)
    (hcalls : s.calls ≤ t.calls)
    (hsending : ∀ u c data, t.thread u = .sending c data → c ∉ s.arrived ∧ c ≠ call) :
    Apart t where
  nodup := harrived.nodup_iff.mpr (List.nodup_cons.mpr ⟨hnew, h.nodup⟩)
  below c hc := by
    rcases List.mem_cons.mp (harrived.mem_iff.mp hc) with rfl | hc
    · exact hlt
    · exact (h.below c hc).trans_le hcalls
  sending u c data hu hc := by
    obtain ⟨hold, hne⟩ := hsending u c data hu
    rcases List.mem_cons.mp (harrived.mem_iff.mp hc) with heq | hc
    · exact hne heq
    · exact hold hc

theorem Apart.sent {s : State τ} (h : Apart s) (call : ℕ) (data : Bytes) :
    Apart (GracefulClose.sent s call data) := by
  unfold GracefulClose.sent
  split_ifs
  · exact h
  · exact ⟨h.nodup, h.below, h.sending⟩

theorem Apart.send {s : State τ} (h : Apart s) (hi : Intact s) (data : Bytes) (w : WriteResult) :
    Apart (pass { s with calls := s.calls + 1 } s.calls data w) := by
  have hnew : s.calls ∉ s.arrived := by
    intro hmem
    exact Nat.lt_irrefl _ (h.below _ hmem)
  cases hgives : givesUp s.conn w with
  | true =>
    refine h.stay ?_ (Nat.le_succ _) h.sending
    simp only [State.arrived, pass, settle, hgives, if_true, List.Sublist.refl]
  | false =>
    refine h.arrive hnew ?_ (Nat.lt_succ_self _) (Nat.le_succ _) ?_
    · simp only [State.arrived, pass, settle, hgives, Bool.false_eq_true, if_false,
        List.map_append, List.map_cons, List.map_nil, List.append_assoc, List.singleton_append]
      exact List.perm_middle
    · intro u c data' hu
      exact ⟨h.sending u c data' hu, Nat.ne_of_lt (hi.sending u c data' hu).1⟩

theorem Apart.runSend {s : State τ} (h : Apart s) {call : ℕ} {data : Bytes} {queue : List Functor}
    (hqueue : s.queue = .sendInLoop call data :: queue) (w : WriteResult) :
    Apart (pass { s with queue } call data w) := by
  refine h.stay ?_ le_rfl h.sending
  simp only [State.arrived, pass, settle, hqueue, List.filterMap_cons, Functor.call?]
  cases givesUp s.conn w with
  | true => exact (List.Sublist.refl _).append (List.sublist_cons_self _ _)
  | false =>
    simp only [Bool.false_eq_true, if_false, List.map_append, List.map_cons, List.map_nil,
      List.append_assoc, List.singleton_append, List.Sublist.refl]

theorem Apart.goTo [DecidableEq τ] {s : State τ} (h : Apart s) (t : τ) {pc : ThreadPc}
    (hpc : ∀ call data, pc ≠ .sending call data) (u : τ) (call : ℕ) (data : Bytes)
    (hu : Function.update s.thread t pc u = .sending call data) : call ∉ s.arrived :=
  h.sending u call data (update_sending hpc hu).2

theorem Apart.foreignSend [DecidableEq τ] {s : State τ} (h : Apart s) (t : τ) (data : Bytes) :
    Apart { s with
      calls := s.calls + 1
      thread := Function.update s.thread t (.sending s.calls data) } := by
  refine h.stay (List.Sublist.refl _) (Nat.le_succ _) ?_
  intro u call data' hu
  by_cases hut : u = t
  · simp only [hut, Function.update_self] at hu
    cases hu
    intro hmem
    exact Nat.lt_irrefl _ (h.below _ hmem)
  · simp only [Function.update_of_ne hut] at hu
    exact h.sending u call data' hu

theorem Apart.queueSend [DecidableEq τ] {s : State τ} (h : Apart s) (hi : Intact s) {t : τ}
    {call : ℕ} {data : Bytes} (ht : s.thread t = .sending call data) : Apart { s with
      queue := s.queue ++ [.sendInLoop call data]
      thread := Function.update s.thread t .outside } := by
  refine h.arrive (h.sending t call data ht) ?_ (hi.sending t call data ht).1 le_rfl ?_
  · simp only [State.arrived, List.filterMap_append, List.filterMap_cons, List.filterMap_nil,
      Functor.call?, ← List.append_assoc]
    exact List.perm_append_singleton _ _
  · intro u c data' hu
    obtain ⟨hut, hsending⟩ := update_sending (fun _ _ => ThreadPc.noConfusion) hu
    refine ⟨h.sending u c data' hsending, ?_⟩
    rintro rfl
    exact hut (hi.distinct u t c data' data hsending ht)

theorem Apart.step [DecidableEq τ] {s t : State τ} (h : Apart s) (hi : Intact s) {e : Event τ}
    (hstep : step s e = some t) : Apart t := by
  cases step_move hstep with
  | refused hnot => exact h
  | send data w => exact (h.send hi data w).sent _ _
  | shutdown | handleWrite | handleClose | connectionDestroyed | foreignRefused =>
    exact ⟨h.nodup, h.below, h.sending⟩
  | runSend w hqueue => exact h.runSend hqueue w
  | runShutdown w hqueue =>
    refine h.stay ?_ le_rfl h.sending
    simp only [State.arrived, settle, hqueue, List.filterMap_cons, Functor.call?,
      List.Sublist.refl]
  | foreignSend u data => exact h.foreignSend u data
  | foreignShutdown u => exact ⟨h.nodup, h.below, h.goTo u fun _ _ => ThreadPc.noConfusion⟩
  | foreignSetState => exact ⟨h.nodup, h.below, h.goTo _ fun _ _ => ThreadPc.noConfusion⟩
  | queueSend hu => exact (h.queueSend hi hu).sent _ _
  | queueShutdown hu =>
    refine h.stay ?_ le_rfl (h.goTo _ fun _ _ => ThreadPc.noConfusion)
    simp only [State.arrived, List.filterMap_append, List.filterMap_cons, List.filterMap_nil,
      Functor.call?, List.append_nil, List.Sublist.refl]

theorem HalfCloses.enabled [DecidableEq τ] {s : State τ} {e : Event τ} (h : HalfCloses s e)
    (hw : Writes s e) : ∃ t, step s e = some t := by
  cases e with
  | shutdown => exact ⟨_, rfl⟩
  | handleWrite w =>
    obtain ⟨-, hwriting, hpos, -⟩ := h
    obtain ⟨rest, -, heq⟩ := handleWrite_progress hwriting hw hpos
    by_cases hrest : rest.readable = []
    · rw [if_pos hrest] at heq
      exact ⟨_, congrArg (Option.map (settle s)) heq⟩
    · rw [if_neg hrest] at heq
      exact ⟨_, congrArg (Option.map (settle s)) heq⟩
  | runFunctor w =>
    obtain ⟨queue, hqueue⟩ := List.head?_eq_some_iff.mp h.1
    refine ⟨settle { s with queue } (s.conn, s.conn.shutdownInLoop), ?_⟩
    simp only [step, stepLoop, hqueue]
  | send | handleClose | connectionDestroyed | foreignSend | foreignShutdown | foreignSetState
  | foreignQueue => exact h.elim

theorem HalfCloses.frame [DecidableEq τ] {s t : State τ} {e : Event τ} (h : HalfCloses s e)
    (hstep : step s e = some t) : t.early = s.early ∧ t.taken = s.taken ∧
      ((∃ w, e = .handleWrite w) ∨ t.accepted = s.accepted) := by
  cases step_move hstep with
  | refused hnot => exact absurd h hnot
  | shutdown =>
    refine ⟨rfl, rfl, Or.inr ?_⟩
    have hstream := (shutdown_spec s.conn).1
    rw [(shutdown_spec s.conn).2.1] at hstream
    change s.accepted ++ writes s.conn.shutdown.2 = s.accepted
    rw [List.append_left_eq_self.mp hstream, List.append_nil]
  | handleWrite w hr => exact ⟨rfl, rfl, Or.inl ⟨w, rfl⟩⟩
  | runSend w hqueue =>
    rw [HalfCloses, hqueue, List.head?_cons] at h
    cases h.1
  | runShutdown w hqueue =>
    refine ⟨rfl, rfl, Or.inr ?_⟩
    change s.accepted ++ writes s.conn.shutdownInLoop = s.accepted
    rw [(shutdownInLoop_spec s.conn).1, List.append_nil]
  | send | handleClose | connectionDestroyed | foreignSend | foreignRefused | foreignShutdown
  | foreignSetState | queueSend | queueShutdown => exact h.elim

theorem Apart.clear [DecidableEq τ] {s : State τ} (h : Apart s) {e : Event τ} (hw : Writes s e)
    (hgraceful : Graceful s e) : Clear s e := by
  intro _ hclose
  obtain ⟨t, hstep⟩ := hclose.enabled hw
  have hwritten := hgraceful t hstep ((step_halfCloses_iff hw hstep).mpr hclose)
  obtain ⟨hearly, htaken, haccepted⟩ := hclose.frame hstep
  rw [AllWritten, hearly, htaken] at hwritten
  have hdone : s.early ⊆ s.taken.map Prod.fst := fun call hcall =>
    covered_subset (hwritten call hcall)
  refine ⟨Or.inr ?_, ?_⟩
  · intro call data hmem hcall
    have hqueued : call ∈ s.queue.filterMap Functor.call? :=
      List.mem_filterMap.mpr ⟨_, hmem, rfl⟩
    exact List.disjoint_of_nodup_append h.nodup (hdone hcall) hqueued
  · intro _
    refine ⟨hdone, ?_⟩
    rcases haccepted with hwrite | hsame
    · exact Or.inl hwrite
    · right
      intro call hwaits hcall
      have hnodup := (List.nodup_append.mp h.nodup).1
      rw [← covered_append_uncovered s.accepted.length] at hnodup
      rw [hsame] at hwritten
      exact List.disjoint_of_nodup_append hnodup (hwritten call hcall) hwaits

/-- In a run every half-close is issued after `::write` has got all bytes of the calls of `send`
that found `kConnected` and returned before `shutdown` was called, exactly when its half-closes are
clear. -/
theorem graceful_iff_clear [DecidableEq τ] (sockfd : ℕ) (events : List (Event τ))
    (hw : Along step Writes (State.established sockfd) events) :
    Along step Graceful (State.established sockfd) events ↔
      Along step Clear (State.established sockfd) events := by
  constructor
  · intro hgraceful
    apply along_of_invariant (P := fun s e => Writes s e ∧ Graceful s e)
      (I := fun s => Intact s ∧ Apart s)
    · rintro s e ⟨-, h⟩ hP
      exact h.clear hP.1 hP.2
    · rintro s e t ⟨hi, h⟩ hP hstep
      exact ⟨hi.step hP.1 hP.2 hstep, h.step hi hstep⟩
    · exact ⟨established_intact sockfd, established_apart sockfd⟩
    · exact along_and hw hgraceful
  · intro hclear
    apply along_of_invariant (P := fun s e => Writes s e ∧ Clear s e) (I := Intact)
    · intro s e h hP
      exact h.graceful hP.1 hP.2
    · intro s e t h hP hstep
      exact h.step hP.1 (h.graceful hP.1 hP.2) hstep
    · exact established_intact sockfd
    · exact along_and hw hclear

/-- A foreign thread sends a byte and shuts the connection down; then both functors run. -/
def queuedClose : List (Event ℕ) :=
  [.foreignSend 0 [1], .foreignQueue 0, .foreignShutdown 0, .foreignSetState 0, .foreignQueue 0,
    .runFunctor ⟨1, .EWOULDBLOCK⟩, .runFunctor ⟨0, .EWOULDBLOCK⟩]

theorem queuedClose_graceful :
    Along step Writes (State.established 7) queuedClose ∧
      Along step Clear (State.established 7) queuedClose ∧
      Along step Graceful (State.established 7) queuedClose := by
  have hw : Along step Writes (State.established 7) queuedClose :=
    along_cons trivial rfl <| along_cons trivial rfl <| along_cons trivial rfl <|
      along_cons trivial rfl <| along_cons trivial rfl <|
      along_cons ⟨by decide, fun _ => by decide⟩ rfl <| along_cons trivial rfl trivial
  have hopen : ∀ {s : State ℕ} {w}, s.closed = false → Clear s (.runFunctor w) := by
    intro s w hclosed _ _
    exact ⟨Or.inl ⟨w, rfl⟩, fun hc => absurd (hclosed.symm.trans hc) Bool.noConfusion⟩
  have hclear : Along step Clear (State.established 7) queuedClose :=
    along_cons (fun _ => False.elim) rfl <| along_cons (fun _ => False.elim) rfl <|
      along_cons (fun _ => False.elim) rfl <| along_cons (fun _ => False.elim) rfl <|
      along_cons (fun _ => False.elim) rfl <| along_cons (hopen rfl) rfl <|
      along_cons (hopen rfl) rfl trivial
  exact ⟨hw, hclear, (graceful_iff_clear 7 queuedClose hw).mpr hclear⟩

/-- A foreign thread sends a byte; then the loop thread shuts the connection down. -/
def overtakenSend : List (Event ℕ) := [.foreignSend 0 [1], .foreignQueue 0, .shutdown]

/-- The half-close of `overtakenSend` leaves the byte in the queue. -/
theorem overtakenSend_unwritten : ¬ ∀ (sockfd : ℕ) (events : List (Event ℕ)),
    Along step Writes (State.established sockfd) events →
      Along step Graceful (State.established sockfd) events := by
  intro h
  have hw : Along step Writes (State.established 7) overtakenSend :=
    along_cons trivial rfl <| along_cons trivial rfl <| along_cons trivial rfl trivial
  have hgraceful := ((h 7 overtakenSend hw).2 _ rfl).2 _ rfl
  have hwritten : (0 : ℕ) ∈ covered 0 [] := hgraceful.1 _ rfl (by decide) 0 List.mem_cons_self
  exact absurd hwritten List.not_mem_nil

end GracefulClose

end Matelib
