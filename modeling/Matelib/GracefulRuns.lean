import Matelib.GracefulClose

/-!
# Every half-close of a run

The histories of a connection over all interleavings. Before the first half-close `sendInThread`
loses nothing on an open connection, and the queue keeps the order in which the foreign threads
called: a half-close that comes out of the queue has all earlier calls in front of it.
-/

namespace Matelib

namespace GracefulClose

open TcpConnection Channel Transition OutputStream

variable {τ : Type*}

/-- No earlier call of `send` is in the queue behind a half-close. -/
def Ordered (early : List ℕ) (queue : List Functor) : Prop :=
  queue.Pairwise fun f g => f = .shutdownInLoop → ∀ call data, g = .sendInLoop call data →
    call ∉ early

structure Intact (s : State τ) : Prop where
  stream : s.accepted ++ s.conn.outputBuffer.readable = s.taken.flatMap Prod.snd
  live : s.closed = false →
    (s.conn.state = .kConnected ∨ s.conn.state = .kDisconnecting) ∧ Waits s.conn
  uncalled : s.shutdownCalled = false → s.conn.state ≠ .kDisconnecting ∧ s.halfCloses = 0 ∧
    .shutdownInLoop ∉ s.queue ∧ ∀ t, s.thread t ≠ .closing ∧ s.thread t ≠ .marked
  order : Ordered s.early s.queue
  placed : s.closed = false → ∀ call ∈ s.early,
    call ∈ s.taken.map Prod.fst ∨ ∃ data, .sendInLoop call data ∈ s.queue
  numbered : ∀ call ∈ s.early, call < s.calls
  sending : ∀ t call data, s.thread t = .sending call data → call < s.calls ∧ call ∉ s.early
  distinct : ∀ t u call data data', s.thread t = .sending call data →
    s.thread u = .sending call data' → t = u
  finished : 0 < s.halfCloses → AllWritten s

theorem established_intact (sockfd : ℕ) : Intact (State.established sockfd : State τ) where
  stream := by
    change [] ++ ValidBuffer.empty.readable = []
    rw [ValidBuffer.readable_empty, List.nil_append]
  live _ := by
    refine ⟨Or.inl rfl, ?_⟩
    change ((0 ||| kReadEvent : Events).has kWriteEvent = true) ↔ ValidBuffer.empty.readable ≠ []
    rw [ValidBuffer.readable_empty]
    decide
  uncalled _ := ⟨TcpConnection.State.noConfusion, rfl, List.not_mem_nil,
    fun _ => ⟨ThreadPc.noConfusion, ThreadPc.noConfusion⟩⟩
  order := List.Pairwise.nil
  placed _ := List.forall_mem_nil _
  numbered := List.forall_mem_nil _
  sending _ _ _ h := nomatch h
  distinct _ _ _ _ _ h := nomatch h
  finished h := absurd h (Nat.lt_irrefl 0)

theorem Intact.sent {s : State τ} (h : Intact s) {call : ℕ} {data : Bytes} (hcall : call < s.calls)
    (hother : ∀ t c data, s.thread t = .sending c data → c ≠ call)
    (hplaced : s.shutdownCalled = false → s.closed = false →
      call ∈ s.taken.map Prod.fst ∨ ∃ data, .sendInLoop call data ∈ s.queue) :
    Intact (GracefulClose.sent s call data) := by
  unfold GracefulClose.sent
  split_ifs with hlate
  · exact h
  · rw [Bool.not_eq_true, Bool.or_eq_false_iff] at hlate
    have hcalled := hlate.1
    obtain ⟨hstate, hzero, hqueue, hthread⟩ := h.uncalled hcalled
    refine { h with order := ?_, placed := ?_, numbered := ?_, sending := ?_, finished := ?_ }
    · apply List.Pairwise.imp_of_mem _ h.order
      rintro f g hf _ _ rfl
      exact absurd hf hqueue
    · intro hclosed c hc
      rcases List.mem_append.mp hc with hc | hc
      · exact h.placed hclosed c hc
      · rw [List.mem_singleton.mp hc]
        exact hplaced hcalled hclosed
    · intro c hc
      rcases List.mem_append.mp hc with hc | hc
      · exact h.numbered c hc
      · rw [List.mem_singleton.mp hc]
        exact hcall
    · intro t c data ht
      obtain ⟨hlt, hnot⟩ := h.sending t c data ht
      refine ⟨hlt, ?_⟩
      intro hc
      rcases List.mem_append.mp hc with hc | hc
      · exact hnot hc
      · exact hother t c data ht (List.mem_singleton.mp hc)
    · intro hpos
      exact absurd hzero (Nat.ne_of_gt hpos)

theorem pass_spec (s : State τ) (call : ℕ) {data : Bytes} {w : WriteResult}
    (hret : w.Contract data.length) :
    (pass s call data w).accepted ++ (pass s call data w).conn.outputBuffer.readable =
        s.accepted ++ s.conn.outputBuffer.readable ++
          (if givesUp s.conn w then [] else data) ∧
      s.accepted <+: (pass s call data w).accepted ∧
      (pass s call data w).halfCloses = s.halfCloses ∧
      (pass s call data w).conn.state = s.conn.state ∧
      (Waits s.conn → Waits (pass s call data w).conn) := by
  obtain ⟨hstream, hzero, hstate, hwaits⟩ := sendInThread_spec s.conn hret
  refine ⟨?_, List.prefix_append _ _, ?_, hstate, hwaits⟩
  · change s.accepted ++ writes (s.conn.sendInThread data w).2 ++
      (s.conn.sendInThread data w).1.outputBuffer.readable = _
    rw [List.append_assoc, hstream, List.append_assoc]
  · change s.halfCloses + halfCloses (s.conn.sendInThread data w).2 = s.halfCloses
    rw [hzero, Nat.add_zero]

/-- On an open connection `sendInThread` takes the data before the first half-close. -/
theorem Intact.givesUp_eq_false {s : State τ} (h : Intact s) (hclosed : s.closed = false)
    {data : Bytes} {w : WriteResult} (hret : w.Contract data.length)
    (hpipe : s.halfCloses = 0 → w.NoPipe) (hzero : s.halfCloses = 0) :
    givesUp s.conn w = false := by
  have hstate : s.conn.state ≠ .kDisconnected := by
    rcases (h.live hclosed).1 with hs | hs
    · rw [hs]
      decide
    · rw [hs]
      decide
  rw [givesUp, beq_false_of_ne hstate, Bool.false_or, toInt_ret hret, Bool.and_assoc,
    no_pipe_error hret (hpipe hzero), Bool.and_false]

theorem AllWritten.step {s t : State τ} (hgraceful : s.halfCloses < t.halfCloses → AllWritten t)
    (h : 0 < s.halfCloses → AllWritten s) (hearly : t.early = s.early)
    (haccepted : s.accepted <+: t.accepted) (htaken : s.taken <+: t.taken) :
    0 < t.halfCloses → AllWritten t := by
  intro hpos
  by_cases hlt : s.halfCloses < t.halfCloses
  · exact hgraceful hlt
  · exact (h (by omega)).mono hearly haccepted htaken

theorem Intact.pass {s : State τ} (h : Intact s) {call : ℕ} {data : Bytes} {w : WriteResult}
    (hret : w.Contract data.length) (hpipe : s.halfCloses = 0 → w.NoPipe) (calls : ℕ)
    (hcalls : s.calls ≤ calls) {queue : List Functor} (horder : Ordered s.early queue)
    (hsub : ∀ f ∈ queue, f ∈ s.queue)
    (hleft : ∀ f ∈ s.queue, f = .sendInLoop call data ∨ f ∈ queue) :
    Intact (GracefulClose.pass { s with queue, calls } call data w) := by
  obtain ⟨hstream, haccepted, hzero, hstate, hwaits⟩ :=
    pass_spec { s with queue, calls } call (w := w) hret
  have htaken : s.taken <+: (GracefulClose.pass { s with queue, calls } call data w).taken := by
    change s.taken <+: if givesUp s.conn w then s.taken else s.taken ++ [(call, data)]
    split_ifs
    · exact List.prefix_rfl
    · exact List.prefix_append _ _
  constructor
  · rw [hstream]
    change s.accepted ++ s.conn.outputBuffer.readable ++ _ =
      (if givesUp s.conn w then s.taken else s.taken ++ [(call, data)]).flatMap Prod.snd
    rw [h.stream]
    split_ifs
    · exact List.append_nil _
    · rw [List.flatMap_append, List.flatMap_singleton]
  · intro hclosed
    obtain ⟨hs, hw⟩ := h.live hclosed
    rw [hstate]
    exact ⟨hs, hwaits hw⟩
  · intro hcalled
    obtain ⟨hs, hz, hq, ht⟩ := h.uncalled hcalled
    rw [hstate, hzero]
    exact ⟨hs, hz, fun hmem => hq (hsub _ hmem), ht⟩
  · exact horder
  · intro hclosed c hc
    rcases h.placed hclosed c hc with hold | ⟨d, hd⟩
    · exact Or.inl (List.map_subset _ htaken.subset hold)
    · rcases hleft _ hd with heq | hin
      · cases heq
        left
        by_cases hz : s.halfCloses = 0
        · have hgives := h.givesUp_eq_false hclosed hret hpipe hz
          change call ∈
            (if givesUp s.conn w then s.taken else s.taken ++ [(call, data)]).map Prod.fst
          rw [hgives, if_neg Bool.false_ne_true, List.map_append]
          exact List.mem_append_right _ List.mem_cons_self
        · have hdone := covered_subset (h.finished (Nat.pos_of_ne_zero hz) call hc)
          exact List.map_subset _ htaken.subset hdone
      · exact Or.inr ⟨d, hin⟩
  · intro c hc
    exact (h.numbered c hc).trans_le hcalls
  · intro t c d ht
    obtain ⟨hlt, hnot⟩ := h.sending t c d ht
    exact ⟨hlt.trans_le hcalls, hnot⟩
  · exact h.distinct
  · exact AllWritten.step (s := s) (fun hlt => absurd hzero (Nat.ne_of_gt hlt)) h.finished rfl
      haccepted htaken

theorem Intact.settle {s : State τ} (h : Intact s) {r : TcpConnection × List Effect}
    {queue : List Functor} {closed called : Bool}
    (hstream : writes r.2 ++ r.1.outputBuffer.readable = s.conn.outputBuffer.readable)
    (hlive : closed = false → s.closed = false ∧
      (r.1.state = .kConnected ∨ r.1.state = .kDisconnecting) ∧ Waits r.1)
    (huncalled : called = false → s.shutdownCalled = false ∧ r.1.state ≠ .kDisconnecting ∧
      halfCloses r.2 = 0)
    (horder : Ordered s.early queue) (hsub : ∀ f ∈ queue, f ∈ s.queue)
    (hleft : ∀ f ∈ s.queue, f = .shutdownInLoop ∨ f ∈ queue)
    (hgraceful : 0 < halfCloses r.2 → AllWritten (GracefulClose.settle s r)) :
    Intact (GracefulClose.settle { s with queue, closed, shutdownCalled := called } r) := by
  constructor
  · change s.accepted ++ writes r.2 ++ r.1.outputBuffer.readable = s.taken.flatMap Prod.snd
    rw [List.append_assoc, hstream, h.stream]
  · intro hclosed
    exact (hlive hclosed).2
  · intro hcalled
    obtain ⟨hold, hstate, hnone⟩ := huncalled hcalled
    obtain ⟨_, hz, hq, ht⟩ := h.uncalled hold
    refine ⟨hstate, ?_, fun hmem => hq (hsub _ hmem), ht⟩
    change s.halfCloses + halfCloses r.2 = 0
    rw [hz, hnone]
  · exact horder
  · intro hclosed c hc
    rcases h.placed (hlive hclosed).1 c hc with hold | ⟨d, hd⟩
    · exact Or.inl hold
    · rcases hleft _ hd with heq | hin
      · exact absurd heq Functor.noConfusion
      · exact Or.inr ⟨d, hin⟩
  · exact h.numbered
  · exact h.sending
  · exact h.distinct
  · intro hpos
    by_cases hnew : 0 < halfCloses r.2
    · exact hgraceful hnew
    · have hold : 0 < s.halfCloses := by
        change 0 < s.halfCloses + halfCloses r.2 at hpos
        omega
      exact (h.finished hold).mono rfl (List.prefix_append _ _) List.prefix_rfl

theorem Intact.send {s : State τ} (h : Intact s) {data : Bytes} {w : WriteResult}
    (hret : w.Contract data.length) (hpipe : s.halfCloses = 0 → w.NoPipe) :
    Intact (GracefulClose.sent
      (GracefulClose.pass { s with calls := s.calls + 1 } s.calls data w) s.calls data) := by
  apply Intact.sent (h.pass hret hpipe (s.calls + 1) (Nat.le_succ _) h.order (fun _ hf => hf)
    fun _ hf => Or.inr hf)
  · exact Nat.lt_succ_self _
  · intro t c data' ht
    exact Nat.ne_of_lt (h.sending t c data' ht).1
  · intro hcalled hclosed
    left
    change s.calls ∈ (if givesUp s.conn w then s.taken else s.taken ++ [(s.calls, data)]).map
      Prod.fst
    rw [h.givesUp_eq_false hclosed hret hpipe (h.uncalled hcalled).2.1,
      if_neg Bool.false_ne_true, List.map_append]
    exact List.mem_append_right _ List.mem_cons_self

theorem Intact.shutdown {s : State τ} (h : Intact s)
    (hgraceful : 0 < halfCloses s.conn.shutdown.2 →
      AllWritten (GracefulClose.settle s s.conn.shutdown)) :
    Intact (GracefulClose.settle { s with shutdownCalled := true } s.conn.shutdown) := by
  obtain ⟨hstream, hbuffer, hchannel, hstate, _⟩ := shutdown_spec s.conn
  refine h.settle hstream ?_ (fun hcalled => nomatch hcalled) h.order (fun _ hf => hf)
    (fun _ hf => Or.inr hf) hgraceful
  intro hclosed
  obtain ⟨hs, hw⟩ := h.live hclosed
  refine ⟨hclosed, ?_, ?_⟩
  · rcases hstate with hsame | hnew
    · rw [hsame]
      exact hs
    · exact Or.inr hnew
  · rw [Waits, hbuffer, hchannel]
    exact hw

theorem Intact.handleWrite {s : State τ} (h : Intact s) {w : WriteResult}
    (hret : w.Contract s.conn.outputBuffer.readableBytes) {r : TcpConnection × List Effect}
    (hr : s.conn.handleWrite w = some r)
    (hgraceful : 0 < halfCloses r.2 → AllWritten (GracefulClose.settle s r)) :
    Intact (GracefulClose.settle s r) := by
  obtain ⟨hstream, hstate, hwaits, hclose, _⟩ := handleWrite_spec hret hr
  refine h.settle hstream ?_ ?_ h.order (fun _ hf => hf) (fun _ hf => Or.inr hf) hgraceful
  · intro hclosed
    obtain ⟨hs, hw⟩ := h.live hclosed
    rw [hstate]
    exact ⟨hclosed, hs, hwaits hw⟩
  · intro hcalled
    have hs := (h.uncalled hcalled).1
    rw [hstate]
    exact ⟨hcalled, hs, Nat.eq_zero_of_not_pos fun hpos => hs (hclose.mp hpos).1⟩

theorem Intact.handleClose {s : State τ} (h : Intact s) {r : TcpConnection × List Effect}
    (hr : s.conn.handleClose = some r) :
    Intact (GracefulClose.settle { s with closed := true } r) := by
  rw [TcpConnection.handleClose] at hr
  split_ifs at hr
  cases hr
  refine h.settle (List.nil_append _) (fun hclosed => nomatch hclosed) ?_ h.order (fun _ hf => hf)
    (fun _ hf => Or.inr hf) (fun hpos => absurd hpos (Nat.lt_irrefl 0))
  intro hcalled
  exact ⟨hcalled, TcpConnection.State.noConfusion, rfl⟩

theorem Intact.connectionDestroyed {s : State τ} (h : Intact s) :
    Intact (GracefulClose.settle { s with closed := true } s.conn.connectionDestroyed) := by
  rw [TcpConnection.connectionDestroyed]
  split_ifs
  · refine h.settle (List.nil_append _) (fun hclosed => nomatch hclosed) ?_ h.order (fun _ hf => hf)
      (fun _ hf => Or.inr hf) (fun hpos => absurd hpos (Nat.lt_irrefl 0))
    intro hcalled
    exact ⟨hcalled, TcpConnection.State.noConfusion, rfl⟩
  · refine h.settle (List.nil_append _) (fun hclosed => nomatch hclosed) ?_ h.order (fun _ hf => hf)
      (fun _ hf => Or.inr hf) (fun hpos => absurd hpos (Nat.lt_irrefl 0))
    intro hcalled
    exact ⟨hcalled, (h.uncalled hcalled).1, rfl⟩

theorem Intact.runShutdown {s : State τ} (h : Intact s) {queue : List Functor}
    (hqueue : s.queue = .shutdownInLoop :: queue)
    (hgraceful : 0 < halfCloses s.conn.shutdownInLoop →
      AllWritten (GracefulClose.settle s (s.conn, s.conn.shutdownInLoop))) :
    Intact (GracefulClose.settle { s with queue } (s.conn, s.conn.shutdownInLoop)) := by
  have horder := h.order
  rw [hqueue] at horder
  refine h.settle ?_ (fun hclosed => ⟨hclosed, h.live hclosed⟩) ?_ horder.tail ?_ ?_ hgraceful
  · change writes s.conn.shutdownInLoop ++ s.conn.outputBuffer.readable = _
    rw [(shutdownInLoop_spec s.conn).1, List.nil_append]
  · intro hcalled
    refine absurd ?_ (h.uncalled hcalled).2.2.1
    rw [hqueue]
    exact List.mem_cons_self
  · intro f hf
    rw [hqueue]
    exact List.mem_cons_of_mem _ hf
  · intro f hf
    rw [hqueue] at hf
    exact List.mem_cons.mp hf

theorem Intact.runSend {s : State τ} (h : Intact s) {call : ℕ} {data : Bytes}
    {queue : List Functor} (hqueue : s.queue = .sendInLoop call data :: queue) {w : WriteResult}
    (hret : w.Contract data.length) (hpipe : s.halfCloses = 0 → w.NoPipe) :
    Intact (GracefulClose.pass { s with queue } call data w) := by
  have horder := h.order
  rw [hqueue] at horder
  apply h.pass hret hpipe s.calls le_rfl horder.tail
  · intro f hf
    rw [hqueue]
    exact List.mem_cons_of_mem _ hf
  · intro f hf
    rw [hqueue] at hf
    exact List.mem_cons.mp hf

theorem update_sending [DecidableEq τ] {s : State τ} {t u : τ} {pc : ThreadPc}
    (hpc : ∀ call data, pc ≠ .sending call data) {call : ℕ} {data : Bytes}
    (h : Function.update s.thread t pc u = .sending call data) :
    u ≠ t ∧ s.thread u = .sending call data := by
  by_cases hut : u = t
  · rw [hut, Function.update_self] at h
    exact absurd h (hpc call data)
  · rw [Function.update_of_ne hut] at h
    exact ⟨hut, h⟩

theorem Intact.goTo [DecidableEq τ] {s : State τ} (h : Intact s) (t : τ) {pc : ThreadPc}
    (hpc : ∀ call data, pc ≠ .sending call data)
    (hearly : s.shutdownCalled = false → pc ≠ .closing ∧ pc ≠ .marked) :
    Intact { s with thread := Function.update s.thread t pc } := by
  refine { h with uncalled := ?_, sending := ?_, distinct := ?_, finished := h.finished }
  · intro hcalled
    obtain ⟨hs, hz, hq, ht⟩ := h.uncalled hcalled
    refine ⟨hs, hz, hq, ?_⟩
    intro u
    change Function.update s.thread t pc u ≠ _ ∧ Function.update s.thread t pc u ≠ _
    by_cases hut : u = t
    · rw [hut, Function.update_self]
      exact hearly hcalled
    · rw [Function.update_of_ne hut]
      exact ht u
  · intro u call data hu
    exact h.sending u call data (update_sending hpc hu).2
  · intro u v call data data' hu hv
    exact h.distinct u v call data data' (update_sending hpc hu).2 (update_sending hpc hv).2

theorem Intact.foreignSend [DecidableEq τ] {s : State τ} (h : Intact s) (t : τ) (data : Bytes) :
    Intact { s with
      calls := s.calls + 1
      thread := Function.update s.thread t (.sending s.calls data) } := by
  have hnew : ∀ {u call data'}, Function.update s.thread t (.sending s.calls data) u =
      .sending call data' → u = t ∧ call = s.calls ∨ u ≠ t ∧ s.thread u = .sending call data' := by
    intro u call data' hu
    by_cases hut : u = t
    · rw [hut, Function.update_self] at hu
      cases hu
      exact Or.inl ⟨hut, rfl⟩
    · rw [Function.update_of_ne hut] at hu
      exact Or.inr ⟨hut, hu⟩
  refine { h with
    uncalled := ?_, numbered := ?_, sending := ?_, distinct := ?_, finished := h.finished }
  · intro hcalled
    obtain ⟨hs, hz, hq, ht⟩ := h.uncalled hcalled
    refine ⟨hs, hz, hq, ?_⟩
    intro u
    change Function.update s.thread t _ u ≠ _ ∧ Function.update s.thread t _ u ≠ _
    by_cases hut : u = t
    · rw [hut, Function.update_self]
      exact ⟨ThreadPc.noConfusion, ThreadPc.noConfusion⟩
    · rw [Function.update_of_ne hut]
      exact ht u
  · intro call hcall
    exact Nat.lt_succ_of_lt (h.numbered call hcall)
  · intro u call data' hu
    rcases hnew hu with ⟨_, rfl⟩ | ⟨_, hu⟩
    · exact ⟨Nat.lt_succ_self _, fun hmem => Nat.lt_irrefl _ (h.numbered _ hmem)⟩
    · obtain ⟨hlt, hnot⟩ := h.sending u call data' hu
      exact ⟨Nat.lt_succ_of_lt hlt, hnot⟩
  · intro u v call data' data'' hu hv
    rcases hnew hu with ⟨hut, rfl⟩ | ⟨_, hu⟩
    · rcases hnew hv with ⟨hvt, _⟩ | ⟨_, hv⟩
      · rw [hut, hvt]
      · exact absurd (h.sending v _ _ hv).1 (Nat.lt_irrefl _)
    · rcases hnew hv with ⟨_, rfl⟩ | ⟨_, hv⟩
      · exact absurd (h.sending u _ _ hu).1 (Nat.lt_irrefl _)
      · exact h.distinct u v call data' data'' hu hv

theorem Intact.queue [DecidableEq τ] {s : State τ} (h : Intact s) (t : τ) {f : Functor}
    (hclose : f = .shutdownInLoop → s.shutdownCalled = true)
    (hearly : ∀ call data, f = .sendInLoop call data → call ∉ s.early) :
    Intact { s with
      queue := s.queue ++ [f]
      thread := Function.update s.thread t .outside } := by
  have hleft : Intact { s with thread := Function.update s.thread t .outside } :=
    h.goTo t (fun _ _ => ThreadPc.noConfusion)
      fun _ => ⟨ThreadPc.noConfusion, ThreadPc.noConfusion⟩
  refine { hleft with uncalled := ?_, order := ?_, placed := ?_, finished := h.finished }
  · intro hcalled
    obtain ⟨hs, hz, hq, ht⟩ := hleft.uncalled hcalled
    refine ⟨hs, hz, ?_, ht⟩
    intro hmem
    rcases List.mem_append.mp hmem with hmem | hmem
    · exact hq hmem
    · rw [hclose (List.mem_singleton.mp hmem).symm] at hcalled
      exact Bool.noConfusion hcalled
  · apply List.pairwise_append.mpr
    refine ⟨h.order, List.pairwise_singleton _ _, ?_⟩
    intro g _ f' hf' _ call data heq
    rw [List.mem_singleton.mp hf'] at heq
    exact hearly call data heq
  · intro hclosed call hcall
    rcases h.placed hclosed call hcall with hold | ⟨data, hdata⟩
    · exact Or.inl hold
    · exact Or.inr ⟨data, List.mem_append_left _ hdata⟩

theorem Intact.called {s : State τ} (h : Intact s) {t : τ}
    (ht : s.thread t = .closing ∨ s.thread t = .marked) : s.shutdownCalled = true := by
  by_contra hnot
  rw [Bool.not_eq_true] at hnot
  obtain ⟨hclosing, hmarked⟩ := (h.uncalled hnot).2.2.2 t
  rcases ht with ht | ht
  · exact hclosing ht
  · exact hmarked ht

theorem Intact.shutdownCalled {s : State τ} (h : Intact s) :
    Intact { s with shutdownCalled := true } := by
  refine { h with uncalled := ?_, finished := h.finished }
  intro hcalled
  cases hcalled

theorem Intact.foreignSetState [DecidableEq τ] {s : State τ} (h : Intact s) {t : τ}
    (ht : s.thread t = .closing) : Intact { s with
      conn := { s.conn with state := .kDisconnecting }
      thread := Function.update s.thread t .marked } := by
  have hcalled := h.called (Or.inl ht)
  have hmarked : Intact { s with conn := { s.conn with state := .kDisconnecting } } := by
    refine { h with live := ?_, uncalled := ?_, finished := h.finished }
    · intro hclosed
      exact ⟨Or.inr rfl, (h.live hclosed).2⟩
    · intro hnot
      exact absurd (hcalled.symm.trans hnot) Bool.noConfusion
  apply hmarked.goTo t (fun _ _ => ThreadPc.noConfusion)
  intro hnot
  exact absurd (hcalled.symm.trans hnot) Bool.noConfusion

theorem Intact.queueSend [DecidableEq τ] {s : State τ} (h : Intact s) {t : τ} {call : ℕ}
    {data : Bytes} (ht : s.thread t = .sending call data) : Intact (GracefulClose.sent { s with
      queue := s.queue ++ [.sendInLoop call data]
      thread := Function.update s.thread t .outside } call data) := by
  obtain ⟨hlt, hnot⟩ := h.sending t call data ht
  have hqueued : Intact { s with
      queue := s.queue ++ [.sendInLoop call data]
      thread := Function.update s.thread t .outside } := by
    apply h.queue t Functor.noConfusion
    intro c d heq
    cases heq
    exact hnot
  apply hqueued.sent hlt
  · intro u c d hu heq
    obtain ⟨hut, hu⟩ := update_sending (fun _ _ => ThreadPc.noConfusion) hu
    rw [heq] at hu
    exact hut (h.distinct u t call d data hu ht)
  · intro _ _
    exact Or.inr ⟨data, List.mem_append_right _ List.mem_cons_self⟩

theorem Intact.step [DecidableEq τ] {s t : State τ} (h : Intact s) {e : Event τ} (hw : Writes s e)
    (hgraceful : Graceful s e) (hstep : step s e = some t) : Intact t := by
  have hdone := hgraceful t hstep
  cases step_move hstep with
  | refused hnot => exact h
  | send data w => exact h.send hw.1 hw.2
  | shutdown => exact h.shutdown fun hpos => hdone (Nat.lt_add_of_pos_right hpos)
  | handleWrite w hr => exact h.handleWrite hw hr fun hpos => hdone (Nat.lt_add_of_pos_right hpos)
  | handleClose hr => exact h.handleClose hr
  | connectionDestroyed => exact h.connectionDestroyed
  | runSend w hqueue =>
    rw [Writes, hqueue] at hw
    exact h.runSend hqueue hw.1 hw.2
  | runShutdown w hqueue =>
    exact h.runShutdown hqueue fun hpos => hdone (Nat.lt_add_of_pos_right hpos)
  | foreignSend u data => exact h.foreignSend u data
  | foreignRefused u => exact h.shutdownCalled
  | foreignShutdown u =>
    exact h.shutdownCalled.goTo u (fun _ _ => ThreadPc.noConfusion)
      fun hnot => absurd hnot Bool.noConfusion
  | foreignSetState hu => exact h.foreignSetState hu
  | queueSend hu => exact h.queueSend hu
  | queueShutdown hu =>
    exact h.queue _ (fun _ => h.called (Or.inr hu)) (fun _ _ => Functor.noConfusion)

theorem sent_halfCloses (s : State τ) (call : ℕ) (data : Bytes) :
    (sent s call data).halfCloses = s.halfCloses := by
  unfold sent
  split_ifs
  · rfl
  · rfl

theorem handleClose_spec {c : TcpConnection} {r : TcpConnection × List Effect}
    (h : c.handleClose = some r) : halfCloses r.2 = 0 := by
  rw [TcpConnection.handleClose] at h
  split_ifs at h
  cases h
  rfl

theorem connectionDestroyed_spec (c : TcpConnection) : halfCloses c.connectionDestroyed.2 = 0 := by
  rw [TcpConnection.connectionDestroyed]
  split_ifs
  · rfl
  · rfl

theorem step_halfCloses_iff [DecidableEq τ] {s t : State τ} {e : Event τ} (hw : Writes s e)
    (hstep : step s e = some t) : s.halfCloses < t.halfCloses ↔ HalfCloses s e := by
  cases step_move hstep with
  | refused hnot => exact iff_of_false (Nat.lt_irrefl _) hnot
  | send data w =>
    have hpass := (pass_spec { s with calls := s.calls + 1 } s.calls hw.1).2.2.1
    rw [sent_halfCloses, hpass]
    exact iff_of_false (Nat.lt_irrefl _) id
  | shutdown => exact Nat.lt_add_right_iff_pos.trans (shutdown_spec s.conn).2.2.2.2
  | handleWrite w hr => exact Nat.lt_add_right_iff_pos.trans (handleWrite_spec hw hr).2.2.2.1
  | handleClose hr =>
    apply iff_of_false _ id
    exact Nat.not_lt.mpr (Nat.le_of_eq (congrArg (s.halfCloses + ·) (handleClose_spec hr)))
  | connectionDestroyed =>
    apply iff_of_false _ id
    exact Nat.not_lt.mpr
      (Nat.le_of_eq (congrArg (s.halfCloses + ·) (connectionDestroyed_spec s.conn)))
  | @runSend w call data queue hqueue =>
    rw [Writes, hqueue] at hw
    have hpass := (pass_spec { s with queue } call hw.1).2.2.1
    rw [hpass, HalfCloses, hqueue, List.head?_cons]
    apply iff_of_false (Nat.lt_irrefl _)
    rintro ⟨hhead, -⟩
    cases hhead
  | runShutdown w hqueue =>
    rw [HalfCloses, hqueue, List.head?_cons]
    exact Nat.lt_add_right_iff_pos.trans
      ((shutdownInLoop_spec s.conn).2.trans (and_iff_right rfl).symm)
  | foreignSend | foreignRefused | foreignShutdown | foreignSetState | queueShutdown =>
    exact iff_of_false (Nat.lt_irrefl _) id
  | queueSend hu =>
    rw [sent_halfCloses]
    exact iff_of_false (Nat.lt_irrefl _) id

theorem Intact.noneQueued {s : State τ} (h : Intact s)
    (hhead : s.queue.head? = some .shutdownInLoop) : NoneQueued s := by
  obtain ⟨queue, hqueue⟩ := List.head?_eq_some_iff.mp hhead
  have horder := h.order
  rw [hqueue] at horder
  intro call data hmem
  rw [hqueue] at hmem
  rcases List.mem_cons.mp hmem with heq | hmem
  · cases heq
  · exact List.rel_of_pairwise_cons horder hmem rfl call data rfl

theorem Intact.taken_of_clear {s : State τ} (h : Intact s) {e : Event τ} (hclear : Clear s e)
    (hclose : HalfCloses s e) (hzero : s.halfCloses = 0) : s.early ⊆ s.taken.map Prod.fst := by
  obtain ⟨hqueue, hclosed⟩ := hclear hzero hclose
  have hnone : NoneQueued s := by
    rcases hqueue with ⟨w, rfl⟩ | hnone
    · exact h.noneQueued hclose.1
    · exact hnone
  cases hc : s.closed with
  | true => exact (hclosed hc).1
  | false =>
    intro call hcall
    rcases h.placed hc call hcall with htaken | ⟨data, hmem⟩
    · exact htaken
    · exact absurd hcall (hnone call data hmem)

theorem Intact.allWritten {s : State τ} (h : Intact s) {r : TcpConnection × List Effect}
    (hstream : writes r.2 ++ r.1.outputBuffer.readable = s.conn.outputBuffer.readable)
    (hempty : r.1.outputBuffer.readable = []) (htaken : s.early ⊆ s.taken.map Prod.fst) :
    AllWritten (GracefulClose.settle s r) := by
  rw [hempty, List.append_nil] at hstream
  have hall : s.accepted ++ writes r.2 = s.taken.flatMap Prod.snd := by
    rw [hstream, h.stream]
  intro call hcall
  change call ∈ covered (s.accepted ++ writes r.2).length s.taken
  rw [hall, covered_all]
  exact htaken hcall

/-- A clear half-close that `handleWrite` does not issue finds everything written. -/
theorem Intact.written_of_clear {s : State τ} (h : Intact s) {e : Event τ} (hclear : Clear s e)
    (hclose : HalfCloses s e) (hne : ∀ w, e ≠ .handleWrite w)
    (hidle : s.conn.channel.isWriting = false) : AllWritten s := by
  by_cases hzero : s.halfCloses = 0
  · have htaken := h.taken_of_clear hclear hclose hzero
    intro call hcall
    cases hc : s.closed with
    | true =>
      rcases ((hclear hzero hclose).2 hc).2 with ⟨w, heq⟩ | hnone
      · exact absurd heq (hne w)
      · have hmem := htaken hcall
        rw [← covered_append_uncovered s.accepted.length] at hmem
        rcases List.mem_append.mp hmem with hdone | hwaits
        · exact hdone
        · exact absurd hcall (hnone call hwaits)
    | false =>
      have hempty : s.conn.outputBuffer.readable = [] := by
        by_contra hpending
        rw [(h.live hc).2.mpr hpending] at hidle
        exact Bool.noConfusion hidle
      have hall : s.accepted = s.taken.flatMap Prod.snd := by
        rw [← h.stream, hempty, List.append_nil]
      rw [hall, covered_all]
      exact htaken hcall
  · exact h.finished (Nat.pos_of_ne_zero hzero)

theorem Intact.graceful [DecidableEq τ] {s : State τ} (h : Intact s) {e : Event τ}
    (hw : Writes s e) (hclear : Clear s e) : Graceful s e := by
  intro t hstep hlt
  have hclose := (step_halfCloses_iff hw hstep).mp hlt
  cases step_move hstep with
  | refused hnot => exact absurd hclose hnot
  | shutdown =>
    have hdone : AllWritten s := by
      apply h.written_of_clear hclear hclose _ hclose.2
      intro w heq
      cases heq
    exact hdone.mono rfl (List.prefix_append _ _) List.prefix_rfl
  | handleWrite w hr =>
    obtain ⟨hstream, _, _, hiff, hdrained⟩ := handleWrite_spec hw hr
    by_cases hzero : s.halfCloses = 0
    · exact h.allWritten hstream (hdrained (hiff.mpr hclose))
        (h.taken_of_clear hclear hclose hzero)
    · exact (h.finished (Nat.pos_of_ne_zero hzero)).mono rfl (List.prefix_append _ _)
        List.prefix_rfl
  | runSend w hqueue =>
    rw [HalfCloses, hqueue, List.head?_cons] at hclose
    cases hclose.1
  | runShutdown w hqueue =>
    have hdone : AllWritten s := by
      apply h.written_of_clear hclear hclose _ hclose.2
      intro v heq
      cases heq
    exact hdone.mono rfl (List.prefix_append _ _) List.prefix_rfl
  | send | handleClose | connectionDestroyed | foreignSend | foreignRefused | foreignShutdown
  | foreignSetState | queueSend | queueShutdown => exact hclose.elim

end GracefulClose

end Matelib
