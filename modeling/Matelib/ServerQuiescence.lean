import Mathlib.Algebra.BigOperators.Group.Finset.Basic
import Mathlib.Data.Fintype.BigOperators
import Matelib.ServerTasks

/-!
# Work that comes to an end

The loops of a server give each other tasks, but each task only lighter ones: over any run the tasks
that run are bounded by what epoll reports and what users queue. And no connection is lost on the
way: one that is neither open nor gone has its next task in a list, so that once the tasks about a
connection have run, the map and its poller both have it or both have forgotten it.
-/

namespace Matelib

namespace TcpServer

open TcpConnection Transition

variable {ι : Type*} [DecidableEq ι] {cfg : Config ι} {s s' : State ι} {l target : ι} {t : Task}
  {ts : List Task} {c : ℕ} {x x' : Connection ι}

theorem send_leaves {data : Bytes} {w : WriteResult}
    (h : step cfg s (.send l c data w) = some s') : Leaves cfg s s' .user l [] := by
  obtain ⟨x, hx, h⟩ := Option.bind_eq_some_iff.mp h
  have hquiet := send_quiet x.conn data w
  exact settle_quiet (derefIn_spec hx).1 h (hquiet.tasks c) hquiet.callbacks rfl

theorem shutdown_leaves (h : step cfg s (.shutdown l c) = some s') :
    Leaves cfg s s' .user l [] := by
  obtain ⟨x, hx, h⟩ := Option.bind_eq_some_iff.mp h
  have hquiet := shutdown_quiet x.conn
  exact settle_quiet (derefIn_spec hx).1 h (hquiet.tasks c) hquiet.callbacks rfl

theorem free_leaves (h : step cfg s (.free c) = some s') : ∃ l, Leaves cfg s s' .user l [] := by
  obtain ⟨x, hx, h⟩ := Option.bind_eq_some_iff.mp h
  split_ifs at h
  cases h
  exact ⟨x.loop, .of_set ⟨.inl rfl, fun _ _ => rfl, Nat.one_pos⟩ (deref_spec hx) rfl rfl rfl nofun
    (kept_of_rest (.inr (.inr (stage_of_history rfl rfl))))⟩

theorem run_leaves {k : Kernel} (h : step cfg s (.run l k) = some s') :
    ∃ t rest target ts, (s.loops l).tasks = t :: rest ∧
      Leaves cfg (s.setLoop l { s.loops l with tasks := rest }) s' t target ts := by
  simp only [step] at h
  cases htasks : (s.loops l).tasks with
  | nil =>
    rw [htasks] at h
    cases h
  | cons t rest =>
    rw [htasks] at h
    obtain ⟨target, ts, hleaves⟩ := runTask_leaves h
    exact ⟨t, rest, target, ts, rfl, hleaves⟩

section Load

variable [Fintype ι]

def State.load (s : State ι) : ℕ := ∑ l, TcpServer.load (s.work l)

omit [DecidableEq ι] in
theorem load_of_more [DecidableEq ι] {extra : ℕ}
    (h : TcpServer.load (s'.work target) = TcpServer.load (s.work target) + extra)
    (hother : ∀ l, l ≠ target → s'.work l = s.work l) : s'.load = s.load + extra := by
  have hsum : ∀ l, TcpServer.load (s'.work l) =
      TcpServer.load (s.work l) + if l = target then extra else 0 := by
    intro l
    split_ifs with hl
    · rw [hl, h]
    · rw [hother l hl, Nat.add_zero]
  rw [State.load, State.load, Finset.sum_congr rfl fun l _ => hsum l, Finset.sum_add_distrib,
    Finset.sum_ite_eq' Finset.univ target, if_pos (Finset.mem_univ target)]

theorem Puts.load (h : Puts s s' t target ts) : s'.load = s.load + TcpServer.load ts := by
  refine load_of_more ?_ h.other
  rcases h.work with hwork | hwork
  · rw [hwork, load_append, Nat.add_comm]
  · rw [hwork, load_append]

theorem load_setLoop {loop : Loop} (extra : ℕ)
    (h : TcpServer.load (loop.tasks ++ loop.pendingFunctors) =
      TcpServer.load (s.work l) + extra) : (s.setLoop l loop).load = s.load + extra := by
  refine load_of_more ?_ fun l' hne => work_setLoop_of_ne s hne _
  rw [← h, State.work, setLoop_self]

theorem load_take {rest : List Task} (htasks : (s.loops l).tasks = t :: rest) :
    s.load = (s.setLoop l { s.loops l with tasks := rest }).load + t.weight := by
  refine load_of_more (s := s.setLoop l { s.loops l with tasks := rest }) ?_
    fun l' hne => (work_setLoop_of_ne s hne _).symm
  rw [State.work, htasks, State.work, setLoop_self, List.cons_append, load_cons, Nat.add_comm]

end Load

def Event.ran : Event ι → ℕ
  | .run _ _ => 1
  | _ => 0

/-- The weight that comes from outside: an active channel is one task, and so is a functor of a
user. -/
def Event.given : Event ι → ℕ
  | .poll _ active => 18 * active.length
  | .queueInLoop _ => 1
  | _ => 0

theorem load_active (p : EpollPoller ℕ) (active : List Reported) :
    load (active.filterMap (activeTask p)) ≤ 18 * active.length := by
  have hone : ∀ reported : Reported, ∀ t ∈ activeTask p reported, t.weight ≤ 18 := by
    intro reported t ht
    cases reported with
    | connection fd revents =>
      obtain ⟨r, -, rfl⟩ := Option.map_eq_some_iff.mp ht
      exact Nat.le_refl 18
    | accept =>
      cases ht
      exact Nat.le_add_right 3 15
    | other =>
      cases ht
      exact Nat.le_add_right 1 17
  induction active with
  | nil => exact Nat.le_refl 0
  | cons reported active ih =>
    rw [List.length_cons, Nat.mul_succ]
    cases h : activeTask p reported with
    | none =>
      rw [List.filterMap_cons_none h]
      omega
    | some t =>
      have hweight := hone reported t h
      rw [List.filterMap_cons_some h, load_cons]
      omega

theorem load_step [Fintype ι] (h : Inv cfg s none) {e : Event ι} (he : Possible cfg s e)
    (hstep : step cfg s e = some s') : s'.load + e.ran ≤ s.load + e.given := by
  cases e with
  | poll l active =>
    cases hstep
    have hnil := (h.phased l).tasks_eq_nil he.1
    have hactive := load_active (s.loops l).poller active
    rw [load_setLoop (load (active.filterMap (activeTask (s.loops l).poller)))]
    · exact Nat.add_le_add_left hactive _
    · rw [load_append, State.work, hnil, List.nil_append, Nat.add_comm]
  | doPendingFunctors l =>
    cases hstep
    rw [load_setLoop 0]
    · exact Nat.le_refl _
    · rw [State.work, he.2, List.nil_append, List.append_nil, Nat.add_zero]
  | iterationEnds l =>
    cases hstep
    rw [load_setLoop 0]
    · exact Nat.le_refl _
    · rw [State.work, Nat.add_zero]
  | run l k =>
    obtain ⟨t, rest, target, ts, htasks, hleaves⟩ := run_leaves hstep
    have hlight := hleaves.puts.light
    rw [hleaves.puts.load, load_take htasks]
    change _ + 1 ≤ _ + 0
    omega
  | send l c data w =>
    rw [(send_leaves hstep).puts.load]
    exact Nat.le_refl _
  | shutdown l c =>
    rw [(shutdown_leaves hstep).puts.load]
    exact Nat.le_refl _
  | queueInLoop l =>
    cases hstep
    rw [State.queueInLoop, load_setLoop 1]
    · exact Nat.le_refl _
    · rw [← List.append_assoc, load_append]
      rfl
  | free c =>
    obtain ⟨l, hleaves⟩ := free_leaves hstep
    rw [hleaves.puts.load]
    exact Nat.le_refl _

theorem Inv.of_step (h : Inv cfg s none) {e : Event ι} (he : Possible cfg s e)
    (hstep : step cfg s e = some s') : Inv cfg s' none := by
  obtain ⟨t, ht, hinv⟩ := step_inv h he
  rw [hstep, Option.some.injEq] at ht
  rwa [ht]

/-- Over any run the tasks that ran, together with the weight of those that are left, are at most 18
for each channel that epoll reported and one for each functor that a user queued: the server makes
no work of its own. -/
theorem tasks_bounded [Fintype ι] {events : List (Event ι)}
    (h : Along (step cfg) (Possible cfg) State.init events) :
    ∃ s, runFrom (step cfg) State.init events = some s ∧
      (events.map Event.ran).sum + ∑ l, load (s.work l) ≤ (events.map Event.given).sum := by
  obtain ⟨s, hrun, -⟩ := run_inv h
  refine ⟨s, hrun, ?_⟩
  have hpays : s.load + (events.map Event.ran).sum ≤
      (State.init : State ι).load + (events.map Event.given).sum :=
    runFrom_amortized (fun _ _ _ hu he hv => hu.of_step he hv)
      (fun _ _ _ hu he hv => load_step hu he hv) (inv_init cfg) h hrun
  have hinit : (State.init : State ι).load = 0 := Finset.sum_eq_zero fun _ _ => rfl
  rw [hinit, Nat.zero_add, State.load, Nat.add_comm] at hpays
  exact hpays

theorem sampleRun_tasks_bounded :
    ∃ s, runFrom (step sampleConfig) State.init sampleRun = some s ∧
      (sampleRun.map Event.ran).sum + ∑ l, load (s.work l) ≤ (sampleRun.map Event.given).sum :=
  tasks_bounded (by decide +kernel)

/-- What a connection waits for is in the list of the loop that has to do it. -/
def Owned (cfg : Config ι) (s : State ι) : Prop :=
  ∀ c x, s.conns[c]? = some x → ∀ p ∈ awaits cfg c x, p.2 ∈ s.work p.1

omit [DecidableEq ι] in
theorem Puts.mem (h : Puts s s' t target ts) {u : Task} (hu : u ∈ s.work l) : u ∈ s'.work l := by
  by_cases hl : l = target
  · subst hl
    rcases h.work with hwork | hwork
    · rw [hwork]
      exact List.mem_append_right _ hu
    · rw [hwork]
      exact List.mem_append_left _ hu
  · rwa [h.other l hl]

omit [DecidableEq ι] in
theorem Puts.mem_target (h : Puts s s' t target ts) {u : Task} (hu : u ∈ ts) :
    u ∈ s'.work target := by
  rcases h.work with hwork | hwork
  · rw [hwork]
    exact List.mem_append_left _ hu
  · rw [hwork]
    exact List.mem_append_right _ hu

omit [DecidableEq ι] in
theorem Owned.leaves (h : Owned cfg s) {u : State ι} (hconns : u.conns = s.conns)
    (htake : ∀ l, ∀ v ∈ s.work l, v ≠ t → v ∈ u.work l)
    (hleaves : Leaves cfg u s' t target ts) : Owned cfg s' := by
  intro c x' hx' p hp
  rcases hleaves.kept c x' hx' with ⟨x, hx, hloop, hst, htoken⟩ | hnext
  · rw [awaits_congr hloop hst] at hp
    refine hleaves.puts.mem (htake p.1 p.2 (h c x (hconns ▸ hx) p hp) ?_)
    intro heq
    rw [← heq] at htoken
    exact htoken (token_of_awaits hp)
  · obtain ⟨htarget, hmem⟩ := hnext p hp
    rw [htarget]
    exact hleaves.puts.mem_target hmem

theorem Owned.setLoop (h : Owned cfg s) {loop : Loop}
    (hmem : ∀ v ∈ s.work l, v ∈ loop.tasks ++ loop.pendingFunctors) :
    Owned cfg (s.setLoop l loop) := by
  intro c x hx p hp
  have hown := h c x hx p hp
  by_cases hl : p.1 = l
  · rw [hl] at hown ⊢
    rw [State.work, setLoop_self]
    exact hmem _ hown
  · rwa [work_setLoop_of_ne _ hl]

theorem owned_step (h : Inv cfg s none) (hown : Owned cfg s) {e : Event ι} (he : Possible cfg s e)
    (hstep : step cfg s e = some s') : Owned cfg s' := by
  cases e with
  | poll l active =>
    cases hstep
    apply hown.setLoop
    rw [State.work, (h.phased l).tasks_eq_nil he.1]
    exact fun v hv => List.mem_append_right _ hv
  | doPendingFunctors l =>
    cases hstep
    apply hown.setLoop
    rw [State.work, he.2]
    exact fun v hv => List.mem_append_left _ hv
  | iterationEnds l =>
    cases hstep
    exact hown.setLoop fun v hv => hv
  | run l k =>
    obtain ⟨t, rest, target, ts, htasks, hleaves⟩ := run_leaves hstep
    refine Owned.leaves (u := s.setLoop l { s.loops l with tasks := rest }) hown rfl ?_ hleaves
    intro l' v hv hne
    have hwork : s.work l = t :: (rest ++ (s.loops l).pendingFunctors) := by
      rw [State.work, htasks, List.cons_append]
    refine mem_take_of_ne hwork ?_ (fun l' hl' => work_setLoop_of_ne s hl' _) hv hne
    rw [State.work, setLoop_self]
  | send l c data w => exact Owned.leaves hown rfl (fun _ _ hv _ => hv) (send_leaves hstep)
  | shutdown l c => exact Owned.leaves hown rfl (fun _ _ hv _ => hv) (shutdown_leaves hstep)
  | queueInLoop l =>
    cases hstep
    apply hown.setLoop
    intro v hv
    rw [← List.append_assoc]
    exact List.mem_append_left _ hv
  | free c =>
    obtain ⟨l, hleaves⟩ := free_leaves hstep
    exact Owned.leaves hown rfl (fun _ _ hv _ => hv) hleaves

theorem run_owned {events : List (Event ι)}
    (h : Along (step cfg) (Possible cfg) State.init events) :
    ∃ s, runFrom (step cfg) State.init events = some s ∧ Inv cfg s none ∧ Owned cfg s := by
  refine runFrom_progress (I := fun s => Inv cfg s none ∧ Owned cfg s) ?_
    ⟨inv_init cfg, fun _ _ hx => nomatch hx⟩ h
  intro s e hs he
  obtain ⟨t, ht, hinv⟩ := step_inv hs.1 he
  exact ⟨t, ht, hinv, owned_step hs.1 hs.2 he ht⟩

/-- The map and the poller both have the connection, which is open and reads. -/
structure Open (s : State ι) (c : ℕ) (x : Connection ι) : Prop where
  state : x.conn.state = .kConnected ∨ x.conn.state = .kDisconnecting
  mapped : s.connectionMap.find x.name = some c
  watched : (s.loops x.loop).poller.interest.find x.fd = some (c, x.conn.channel.events)
  reads : x.conn.channel.events &&& Channel.kReadEvent = Channel.kReadEvent

/-- Neither the map nor a poller has the connection. -/
structure Gone (s : State ι) (c : ℕ) (x : Connection ι) : Prop where
  state : x.conn.state = .kDisconnected
  unmapped : ∀ name, s.connectionMap.find name ≠ some c
  unwatched : ∀ l fd, (s.loops l).poller.channels.find fd ≠ some c

omit [DecidableEq ι] in
theorem Inv.open_of_established (h : Inv cfg s none) (hx : s.conns[c]? = some x)
    (hst : x.stage = .established) : Open s c x := by
  have hshape := (h.books.sound c x hx).shape
  rw [hst] at hshape
  obtain ⟨hstate, hadded, hreads⟩ := hshape
  exact ⟨hstate, (h.books.mapped ..).mpr ⟨x, hx, rfl, by rw [hst]; rfl⟩,
    (h.books.registry.interest ..).mpr ⟨x, hx, rfl, rfl, hadded, rfl⟩, hreads⟩

omit [DecidableEq ι] in
theorem Inv.gone_of_removed (h : Inv cfg s none) (hx : s.conns[c]? = some x)
    (hst : x.stage = .removed ∨ x.stage = .freed) : Gone s c x := by
  have hshape : Shape x.conn .removed := by
    have hshape := (h.books.sound c x hx).shape
    rcases hst with hst | hst
    · rwa [hst] at hshape
    · rwa [hst] at hshape
  have hmapped : x.stage.mapped = false := by
    rcases hst with hst | hst
    · rw [hst]
      rfl
    · rw [hst]
      rfl
  refine ⟨hshape.1, ?_, ?_⟩
  · intro name hfind
    obtain ⟨y, hy, -, hy'⟩ := (h.books.mapped ..).mp hfind
    cases hx.symm.trans hy
    rw [hmapped] at hy'
    cases hy'
  · intro l fd hfind
    obtain ⟨y, hy, -, -, hstate⟩ := (h.books.registry.channels ..).mp hfind
    cases hx.symm.trans hy
    exact hstate hshape.2.1

/-- In every state of every run a connection about which no task is left is open, in the map and in
its poller, or gone from both: none is lost on its way through the loops. -/
theorem open_or_gone {events : List (Event ι)}
    (h : Along (step cfg) (Possible cfg) State.init events) :
    ∃ s, runFrom (step cfg) State.init events = some s ∧
      ∀ c x, s.conns[c]? = some x → (∀ l, ∀ t ∈ s.work l, t.token ≠ some c) →
        Open s c x ∨ Gone s c x := by
  obtain ⟨s, hrun, hinv, hown⟩ := run_owned h
  refine ⟨s, hrun, ?_⟩
  intro c x hx hnone
  have hrest : awaits cfg c x = none := by
    apply Option.eq_none_iff_forall_not_mem.mpr
    intro p hp
    exact hnone p.1 p.2 (hown c x hx p hp) (token_of_awaits hp)
  unfold awaits at hrest
  cases hst : x.stage with
  | established => exact .inl (hinv.open_of_established hx hst)
  | removed => exact .inr (hinv.gone_of_removed hx (.inl hst))
  | freed => exact .inr (hinv.gone_of_removed hx (.inr hst))
  | _ =>
    rw [hst] at hrest
    cases hrest

theorem sampleRun_open_or_gone :
    ∃ s, runFrom (step sampleConfig) State.init sampleRun = some s ∧
      ∀ (c : ℕ) (x : Connection (Fin 2)), s.conns[c]? = some x →
        (∀ l, ∀ t ∈ s.work l, t.token ≠ some c) → Open s c x ∨ Gone s c x :=
  open_or_gone (by decide +kernel)

end TcpServer

end Matelib
