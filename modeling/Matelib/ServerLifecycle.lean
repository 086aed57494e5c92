import Matelib.ServerRuns

/-!
# The life of every connection of a server

What remains of the steps: accepting, the phases of an iteration, and the end of a connection. The
main result is about every run of the loop threads with the kernel and user code.
-/

namespace Matelib

namespace TcpServer

open TcpConnection Transition

variable {ι : Type*} [DecidableEq ι] {cfg : Config ι} {s : State ι} {held : Option ℕ} {l : ι}
  {c : ℕ} {x : Connection ι}

omit [DecidableEq ι] in
theorem inv_init (cfg : Config ι) : Inv cfg State.init none where
  books :=
    { sound := fun _ _ hx => nomatch hx
      named := fun _ _ hx => nomatch hx
      apart := fun _ _ _ _ hx => nomatch hx
      registry := registry_nil
      mapped := by
        intro name c
        constructor
        · intro hf
          cases hf
        · rintro ⟨x, hx, -⟩
          cases hx }
  work := work_nil cfg
  phased _ :=
    { tasks := fun _ ht => absurd ht List.not_mem_nil
      pending := fun _ ht => absurd ht List.not_mem_nil }
  next hne := List.length_pos_of_ne_nil hne

omit [DecidableEq ι] in
theorem getNextLoop_spec {next : ℕ} (h : cfg.loops ≠ [] → next < cfg.loops.length) :
    ∃ ioLoop next', getNextLoop cfg next = some (ioLoop, next') ∧
      (cfg.loops ≠ [] → next' < cfg.loops.length) := by
  unfold getNextLoop
  split_ifs with hnil
  · exact ⟨cfg.baseLoop, next, rfl, h⟩
  · have hlt := h hnil
    refine ⟨cfg.loops[next], (next + 1) % cfg.loops.length, ?_, ?_⟩
    · rw [List.getElem?_eq_getElem hlt]
      rfl
    · intro _
      exact Nat.mod_lt _ (by omega)

theorem handleConnection_inv (h : Inv cfg s none) (hbase : l = cfg.baseLoop)
    (hphase : (s.loops l).phase ≠ .poll) {accepted : Option (ℕ × InetAddress × InetAddress)}
    (hclosed : ∀ a ∈ accepted, a.1 < 2 ^ 31 ∧ ∀ x ∈ s.conns, .freed ∈ x.history ∨ x.fd ≠ a.1) :
    ∃ s', handleConnection cfg s l accepted = some s' ∧ Inv cfg s' none := by
  unfold handleConnection
  rw [if_neg (not_not.mpr hbase)]
  cases accepted with
  | none => exact ⟨s, rfl, h⟩
  | some a =>
    obtain ⟨fd, localAddr, peerAddr⟩ := a
    obtain ⟨hfd, hfree⟩ := hclosed _ rfl
    obtain ⟨ioLoop, next', hloop, hnext⟩ := getNextLoop_spec h.next
    let x : Connection ι :=
      ⟨ioLoop, connName s.nextConnId localAddr fd peerAddr, .new fd, []⟩
    have hx : (s.conns ++ [x])[s.conns.length]? = some x :=
      Segment.getElem?_concat_eq_some.mpr (.inr ⟨rfl, rfl⟩)
    have hst : x.stage = .accepted := rfl
    have hnew : Inv cfg
        { s with
          nextConnId := (s.nextConnId + 1) % 2 ^ 32
          next := next'
          connectionMap := s.connectionMap.insert x.name s.conns.length
          conns := s.conns ++ [x] } (some s.conns.length) :=
      { books := h.books.accept hfd hfree ioLoop s.nextConnId localAddr peerAddr
        work := (h.work.hold (absent_of_length h.work)).accept hst
        phased := h.phased
        next := hnext }
    refine ⟨_, by dsimp only; rw [hloop]; rfl, ?_⟩
    apply hnew.giveRun hx rfl
    · exact fits_of_key hx rfl ⟨rfl, hst⟩
    · exact decide_eq_true hphase
    · rfl
    · rw [hst]
      exact nofun
    · rw [hst]
      exact nofun

theorem Inv.take (h : Inv cfg s none) {t : Task} {rest : List Task}
    (htasks : (s.loops l).tasks = t :: rest) :
    Inv cfg (s.setLoop l { s.loops l with tasks := rest }) t.key ∧ Fits cfg s.conns l t ∧
      t.allowed (s.loops l).phase = true := by
  have hphased := h.phased l
  have hwork : s.work l = t :: (rest ++ (s.loops l).pendingFunctors) := by
    rw [State.work, htasks]
    rfl
  refine ⟨⟨?_, ?_, ?_, h.next⟩, ?_, ?_⟩
  · rw [poller_setLoop s l { s.loops l with tasks := rest } rfl]
    exact h.books
  · apply h.work.take hwork
    · rw [State.work, setLoop_self]
    · intro l' hne
      exact work_setLoop_of_ne s hne _
  · apply Phased.setLoop h.phased
    refine ⟨?_, hphased.pending⟩
    intro u hu
    exact hphased.tasks u (by rw [htasks]; exact List.mem_cons_of_mem t hu)
  · apply h.work.fits l
    rw [hwork]
    exact List.mem_cons_self
  · apply hphased.tasks
    rw [htasks]
    exact List.mem_cons_self

/-- Every task of a thread runs without a failure, and keeps the invariant. -/
theorem runTask_inv {t : Task} (h : Inv cfg s t.key) (hfits : Fits cfg s.conns l t)
    (hallowed : t.allowed (s.loops l).phase = true) {k : Kernel} (hk : Answers s k t) :
    ∃ s', runTask cfg s l k t = some s' ∧ Inv cfg s' none := by
  cases t with
  | handleConnection =>
    have hphase : (s.loops l).phase = .dispatch := of_decide_eq_true hallowed
    exact handleConnection_inv h (hfits.base rfl) (by rw [hphase]; exact nofun) hk
  | handleEvent c revents => exact handleEvent_inv h hfits (of_decide_eq_true hallowed)
  | callback c cb =>
    have hphase : (s.loops l).phase = .dispatch := of_decide_eq_true hallowed
    have hnot : (s.loops l).phase ≠ .poll := by
      rw [hphase]
      exact nofun
    cases cb with
    | closeCallback =>
      obtain ⟨x, hx, hl, hst⟩ := hfits.suits c (.inl rfl)
      exact handleClose_inv h hx hl hst hnot
    | errorCallback =>
      obtain ⟨x, hx, hl, huse⟩ := hfits.suits c (.inr rfl)
      refine ⟨s, ?_, h⟩
      rw [runTask, h.derefIn hx (by rintro hf; rw [hf] at huse; cases huse) hl]
      rfl
    | readCallback =>
      obtain ⟨x, hx, hl, hst⟩ := hfits.suits c (.inl rfl)
      exact handleRead_inv h hx hl hst hnot k.read
    | writeCallback =>
      obtain ⟨x, hx, hl, huse⟩ := hfits.suits c (.inr rfl)
      exact handleWrite_inv h hx hl huse (hk x hx)
  | eventHandled c =>
    obtain ⟨x, hx, hl, huse⟩ := hfits.suits c (.inr rfl)
    refine ⟨s, ?_, h⟩
    rw [runTask, h.derefIn hx (by rintro hf; rw [hf] at huse; cases huse) hl]
    rfl
  | user => exact ⟨s, rfl, h⟩
  | connectionCallback c => exact ⟨s, rfl, h⟩
  | messageCallback c => exact ⟨s, rfl, h⟩
  | cleanupCallback c => exact removeConnection_inv h hfits (of_decide_eq_true hallowed)
  | connectionEstablished c => exact connectionEstablished_inv h hfits (of_decide_eq_true hallowed)
  | removeConnectionInLoop c => exact removeConnectionInLoop_inv h hfits
  | connectionDestroyed c => exact connectionDestroyed_inv h hfits (of_decide_eq_true hallowed)
  | remove c => exact remove_inv h hfits (of_decide_eq_true hallowed)

omit [DecidableEq ι] in
theorem Inv.watched (h : Inv cfg s held) {fd : ℕ} {events : Events}
    (hfind : (s.loops l).poller.interest.find fd = some (c, events)) :
    ∃ x, s.conns[c]? = some x ∧ x.loop = l ∧ x.fd = fd ∧ x.stage = .established := by
  obtain ⟨x, hx, hl, hfd, hadded, -⟩ := (h.books.registry.interest ..).mp hfind
  refine ⟨x, hx, hl, hfd, ?_⟩
  have hshape := (h.books.sound c x hx).shape
  cases hst : x.stage with
  | established => rfl
  | accepted =>
    rw [hst] at hshape
    rw [hshape.2] at hadded
    cases hadded
  | _ =>
    rw [hst] at hshape
    rw [hshape.2.1] at hadded
    cases hadded

omit [DecidableEq ι] in
theorem Inv.absent_of_poll (h : Inv cfg s none) (hphase : (s.loops l).phase = .poll)
    (hx : s.conns[c]? = some x) (hl : x.loop = l) (hst : x.stage = .established) :
    Token.Absent Task.key s.work c := by
  intro l' hmem
  obtain ⟨t, ht, hkey⟩ := List.mem_filterMap.mp hmem
  obtain ⟨y, hy, hsuits⟩ := (h.work.fits l' t ht).suits c (.inl hkey)
  rw [hx, Option.some.injEq] at hy
  subst hy
  rw [hst] at hsuits
  -- the tokens of this stage are tasks of the dispatch
  have hdispatch : x.loop = l' ∧ t.allowed .functors = false := by
    cases t with
    | handleEvent _ _ => exact ⟨hsuits.1, rfl⟩
    | callback _ cb =>
      cases cb with
      | closeCallback => exact ⟨hsuits.1, rfl⟩
      | readCallback => exact ⟨hsuits.1, rfl⟩
      | _ => cases hkey
    | cleanupCallback _ => exact absurd hsuits.2 nofun
    | connectionEstablished _ => exact absurd hsuits.2 nofun
    | removeConnectionInLoop _ => exact absurd hsuits.2 nofun
    | connectionDestroyed _ => exact absurd hsuits.2 nofun
    | remove _ => exact absurd hsuits.2 nofun
    | _ => cases hkey
  have hl' : l' = l := hdispatch.1.symm.trans hl
  subst hl'
  rcases List.mem_append.mp ht with ht | ht
  · rw [(h.phased l').tasks_eq_nil hphase] at ht
    exact List.not_mem_nil ht
  · have hallowed := (h.phased l').pending t ht
    rw [hdispatch.2] at hallowed
    cases hallowed

theorem key_activeTask (p : EpollPoller ℕ) (reported : Reported) :
    (activeTask p reported).bind Task.key = activeChannel p reported := by
  cases reported with
  | connection fd revents =>
    simp only [activeTask, activeChannel, Reported.fd?, Option.bind_some]
    cases p.interest.find fd with
    | none => rfl
    | some r => rfl
  | _ => rfl

theorem poll_inv (h : Inv cfg s none) {active : List Reported} (activeChannels : List ℕ)
    (hphase : (s.loops l).phase = .poll) (hreports : Reports cfg s l active) :
    Inv cfg (s.setLoop l { s.loops l with
      phase := .dispatch
      activeChannels
      tasks := active.filterMap (activeTask (s.loops l).poller) }) none := by
  have hnil := (h.phased l).tasks_eq_nil hphase
  have htask : ∀ {t}, t ∈ active.filterMap (activeTask (s.loops l).poller) →
      t.allowed .dispatch = true ∧ Fits cfg s.conns l t := by
    intro t ht
    obtain ⟨reported, hmem, hactive⟩ := List.mem_filterMap.mp ht
    cases reported with
    | accept =>
      cases hactive
      refine ⟨rfl, fun _ => hreports.1 _ hmem, ?_⟩
      intro c hc
      rcases hc with hc | hc
      · cases hc
      · cases hc
    | other =>
      cases hactive
      exact ⟨rfl, fits_of_none rfl rfl nofun⟩
    | connection fd revents =>
      obtain ⟨⟨c, events⟩, hfind, rfl⟩ := Option.map_eq_some_iff.mp hactive
      obtain ⟨x, hx, hl, -, hst⟩ := h.watched hfind
      exact ⟨rfl, fits_of_key hx rfl ⟨hl, hst, (hreports.1 _ hmem).2⟩⟩
  have hkeys : (active.filterMap (activeTask (s.loops l).poller)).filterMap Task.key =
      (active.filterMap Reported.fd?).filterMap fun fd =>
        ((s.loops l).poller.interest.find fd).map Prod.fst := by
    rw [List.filterMap_filterMap, List.filterMap_filterMap]
    apply List.filterMap_congr
    intro reported _
    exact key_activeTask _ _
  have hwatched : ∀ {fd c}, c ∈ ((s.loops l).poller.interest.find fd).map Prod.fst →
      ∃ x, s.conns[c]? = some x ∧ x.loop = l ∧ x.fd = fd ∧ x.stage = .established := by
    intro fd c hc
    obtain ⟨⟨c', events⟩, hfind, rfl⟩ := Option.map_eq_some_iff.mp hc
    exact h.watched hfind
  constructor
  · rw [poller_setLoop s l { s.loops l with
      phase := .dispatch
      activeChannels
      tasks := active.filterMap (activeTask (s.loops l).poller) } rfl]
    exact h.books
  · have hwork : s.work l = [] ++ (s.loops l).pendingFunctors := by
      rw [State.work, hnil]
    apply h.work.put hwork
    · rw [State.work, setLoop_self]
      rfl
    · intro l' hne
      exact work_setLoop_of_ne s hne _
    · rw [hkeys]
      apply hreports.2.filterMap
      intro fd fd' c hc hc'
      obtain ⟨x, hx, -, hfd, -⟩ := hwatched hc
      obtain ⟨x', hx', -, hfd', -⟩ := hwatched hc'
      rw [hx, Option.some.injEq] at hx'
      rw [← hfd, ← hfd', hx']
    · intro c hc
      rw [hkeys] at hc
      obtain ⟨fd, -, hfind⟩ := List.mem_filterMap.mp hc
      obtain ⟨x, hx, hl, -, hst⟩ := hwatched hfind
      exact ⟨(Option.some_ne_none c).symm, h.absent_of_poll hphase hx hl hst⟩
    · intro t ht
      exact (htask ht).2
  · apply Phased.setLoop h.phased
    refine ⟨?_, (h.phased l).pending⟩
    intro t ht
    exact (htask ht).1
  · exact h.next

theorem phase_inv (h : Inv cfg s none) {loop : Loop}
    (hpoller : loop.poller = (s.loops l).poller)
    (hwork : loop.tasks ++ loop.pendingFunctors = s.work l) (hphased : Phased loop) :
    Inv cfg (s.setLoop l loop) none where
  books := by
    rw [poller_setLoop s l loop hpoller]
    exact h.books
  work := by
    have hsame : (s.setLoop l loop).work = s.work := by
      funext l'
      by_cases heq : l' = l
      · rw [heq, ← hwork, State.work, setLoop_self]
      · exact work_setLoop_of_ne s heq _
    rw [hsame]
    exact h.work
  phased := Phased.setLoop h.phased hphased
  next := h.next

omit [DecidableEq ι] in
theorem Inv.removed_of_not_held (h : Inv cfg s none) (hx : s.conns[c]? = some x)
    (hheld : ¬s.Held c) (hfreed : .freed ∉ x.history) : x.stage = .removed := by
  have hsound := h.books.sound c x hx
  have hmap : x.stage.mapped = true → False := by
    intro hmapped
    have hfind := (h.books.mapped x.name c).mpr ⟨x, hx, rfl, hmapped⟩
    exact hheld (.inl ⟨(x.name, c), OrderedMap.find_eq_some.mp hfind, rfl⟩)
  cases hst : x.stage with
  | removed => rfl
  | freed => exact absurd (hsound.told.freed_iff.mpr hst) hfreed
  | erased =>
    have hmem := h.work.erased c x hx (Option.some_ne_none c).symm hst
    exact absurd (.inr ⟨x.loop, _, hmem, rfl⟩) hheld
  | destroying =>
    have hmem := h.work.destroying c x hx (Option.some_ne_none c).symm hst
    exact absurd (.inr ⟨x.loop, _, hmem, rfl⟩) hheld
  | _ =>
    rw [hst] at hmap
    exact absurd rfl hmap

omit [DecidableEq ι] in
theorem Inv.not_about_removed (h : Inv cfg s none) (hx : s.conns[c]? = some x)
    (hst : x.stage = .removed) {l' : ι} {t : Task} (ht : t ∈ s.work l') :
    t.key ≠ some c ∧ t.uses ≠ some c := by
  have hnot : ¬(t.key = some c ∨ t.uses = some c) := by
    intro hc
    obtain ⟨y, hy, hsuits⟩ := (h.work.fits l' t ht).suits c hc
    rw [hx, Option.some.injEq] at hy
    subst hy
    rw [hst] at hsuits
    cases t with
    | handleEvent _ _ => exact absurd hsuits.2.1 nofun
    | callback _ cb => cases cb <;> exact absurd hsuits.2 nofun
    | eventHandled _ => exact absurd hsuits.2 nofun
    | cleanupCallback _ => exact absurd hsuits.2 nofun
    | connectionEstablished _ => exact absurd hsuits.2 nofun
    | removeConnectionInLoop _ => exact absurd hsuits.2 nofun
    | connectionDestroyed _ => exact absurd hsuits.2 nofun
    | remove _ => exact absurd hsuits.2 nofun
    | _ =>
      rcases hc with hc | hc
      · cases hc
      · cases hc
  exact not_or.mp hnot

omit [DecidableEq ι] in
theorem free_inv (h : Inv cfg s none) (hheld : ¬s.Held c) (hx : s.conns[c]? = some x)
    (hfreed : .freed ∉ x.history) : ∃ s', free s c = some s' ∧ Inv cfg s' none := by
  have hst := h.removed_of_not_held hx hheld hfreed
  have hsound := h.books.sound c x hx
  have hnot : x.stage ≠ .freed := by
    rw [hst]
    exact nofun
  have hshape := hsound.shape
  rw [hst] at hshape
  have hnext : Next .removed [.freed] .freed := ⟨rfl, rfl, nofun⟩
  obtain ⟨htold, hstage⟩ := hsound.told.next hst hnext
  have hst' : (x.add [.freed]).stage = .freed := hstage
  have hloop' : (x.add [.freed]).loop = x.loop := rfl
  have hset : (s.conns.set c (x.add [.freed]))[c]? = some (x.add [.freed]) := by
    rw [getElem?_set_of_some hx, if_pos rfl]
  have hhandled : .eventHandled c ∉ (s.loops x.loop).tasks := by
    intro hmem
    exact (h.not_about_removed hx hst (List.mem_append_left _ hmem)).2 rfl
  have hclose :
      (fun l => { s.loops l with poller := (s.loops l).poller.close x.fd }) = s.loops := by
    funext l
    rw [h.books.registry.close_eq hx (h.books.alone hx hnot) hshape.2.1]
  have hadd : Inv cfg (s.setConn c (x.add [.freed])) none := by
    apply h.add hx hnot
    · refine ⟨htold, ?_⟩
      rw [hst']
      exact hshape
    · exact h.books.mapped.set hx rfl (by rw [hst', hst]; rfl)
    · have hhold : Work cfg s.conns s.work (some c) := by
        apply h.work.hold
        intro l' hmem
        obtain ⟨t, ht, hkey⟩ := List.mem_filterMap.mp hmem
        exact (h.not_about_removed hx hst ht).1 hkey
      have hadvance : Work cfg (s.conns.set c (x.add [.freed])) s.work (some c) := by
        apply hhold.advance hx hloop'
        right
        intro t ht
        exact (h.not_about_removed hx hst ht).2
      exact hadvance.drop hset (by rw [hst']; exact nofun) (by rw [hst']; exact nofun)
  refine ⟨s.setConn c (x.add [.freed]), ?_, hadd⟩
  rw [free, h.deref hx hnot, Option.bind_some, if_neg hhandled]
  change some { s.setConn c (x.add [.freed]) with
    loops := fun l => { s.loops l with poller := (s.loops l).poller.close x.fd } } = _
  rw [hclose]
  rfl

omit [DecidableEq ι] in
theorem MayUse.spec (h : Inv cfg s none) (huse : MayUse s l c) :
    ∃ x, s.conns[c]? = some x ∧ x.loop = l ∧ x.stage ≠ .freed := by
  obtain ⟨-, x, hx, hl, hfreed⟩ := huse
  refine ⟨x, hx, hl, ?_⟩
  intro hst
  exact hfreed ((h.books.sound c x hx).told.freed_iff.mpr hst)

theorem answers_setLoop {t : Task} {k : Kernel} (h : Answers s k t) (loop : Loop) :
    Answers (s.setLoop l loop) k t := by
  cases t with
  | callback c cb => cases cb <;> exact h
  | _ => exact h

/-- Whatever can happen, the step does not fail and keeps the invariant. -/
theorem step_inv (h : Inv cfg s none) {e : Event ι} (he : Possible cfg s e) :
    ∃ s', step cfg s e = some s' ∧ Inv cfg s' none := by
  cases e with
  | poll l active => exact ⟨_, rfl, poll_inv h _ he.1 he.2⟩
  | doPendingFunctors l =>
    obtain ⟨-, hnil⟩ := he
    refine ⟨_, rfl, phase_inv h rfl ?_
      ⟨(h.phased l).pending, fun _ ht => absurd ht List.not_mem_nil⟩⟩
    rw [State.work, hnil]
    exact List.append_nil _
  | iterationEnds l =>
    obtain ⟨-, hnil⟩ := he
    refine ⟨_, rfl, phase_inv h rfl rfl ⟨?_, (h.phased l).pending⟩⟩
    intro t ht
    change t ∈ (s.loops l).tasks at ht
    rw [hnil] at ht
    exact absurd ht List.not_mem_nil
  | run l k =>
    obtain ⟨t, hhead, hk⟩ := he
    obtain ⟨rest, htasks⟩ := List.head?_eq_some_iff.mp hhead
    obtain ⟨htake, hfits, hallowed⟩ := h.take htasks
    have hallowed' : t.allowed
        ((s.setLoop l { s.loops l with tasks := rest }).loops l).phase = true := by
      rw [setLoop_self]
      exact hallowed
    obtain ⟨s', hrun, hinv⟩ := runTask_inv htake hfits hallowed' (answers_setLoop hk _)
    refine ⟨s', ?_, hinv⟩
    simp only [step, htasks]
    exact hrun
  | send l c data w =>
    obtain ⟨x, hx, hl, hst⟩ := MayUse.spec h he.1
    obtain ⟨s', hsettle, hinv⟩ := quiet_inv h hx hl hst (send_quiet x.conn data w)
    refine ⟨s', ?_, hinv⟩
    rw [step, h.derefIn hx hst hl, Option.bind_some, hsettle]
  | shutdown l c =>
    obtain ⟨x, hx, hl, hst⟩ := MayUse.spec h he
    obtain ⟨s', hsettle, hinv⟩ := quiet_inv h hx hl hst (shutdown_quiet x.conn)
    refine ⟨s', ?_, hinv⟩
    rw [step, h.derefIn hx hst hl, Option.bind_some, hsettle]
  | queueInLoop l =>
    refine ⟨_, rfl, h.queueInLoop rfl ?_⟩
    intro work' hl' hother
    rw [← List.append_nil (s.work l ++ [Task.user])] at hl'
    apply h.work.put_plain (List.append_nil _).symm hl' hother rfl
    intro t ht
    rw [List.mem_singleton.mp ht]
    apply fits_of_none rfl rfl
    intro heq
    cases heq
  | free c =>
    obtain ⟨hheld, x, hx, hfreed⟩ := he
    exact free_inv h hheld hx hfreed

theorem run_inv {events : List (Event ι)} (h : Along (step cfg) (Possible cfg) State.init events) :
    ∃ s, runFrom (step cfg) State.init events = some s ∧ Inv cfg s none :=
  runFrom_progress (fun _ _ hinv he => step_inv hinv he) (inv_init cfg) h

/-- What holds of a connection in every state: its history up to now is a part of the one course,
with epoll events only after the establishment; the map forgets it when it is erased, and the
pollers when its channel is removed; and a thread has no event to handle for it once it is
freed. -/
structure Lives (s : State ι) (c : ℕ) (x : Connection ι) : Prop where
  course : x.history.filter (· ≠ .event) <+: course
  established : x.history = [] ∨ x.history.head? = some .established
  erased : .erased ∈ x.history → ∀ name, s.connectionMap.find name ≠ some c
  removed : .removed ∈ x.history → ∀ l fd, (s.loops l).poller.channels.find fd ≠ some c ∧
    ∀ events, (s.loops l).poller.interest.find fd ≠ some (c, events)
  handled : .freed ∈ x.history → ∀ l revents, .handleEvent c revents ∉ (s.loops l).tasks

omit [DecidableEq ι] in
theorem Inv.lives (h : Inv cfg s none) (hx : s.conns[c]? = some x) : Lives s c x := by
  have hsound := h.books.sound c x hx
  refine ⟨hsound.told.on_course, hsound.told.first, ?_, ?_, ?_⟩
  · intro herased name hfind
    have hst := hsound.told.erased_iff.mp herased
    obtain ⟨y, hy, -, hmapped⟩ := (h.books.mapped ..).mp hfind
    rw [hx, Option.some.injEq] at hy
    subst hy
    change 6 ≤ x.stage.milestones at hst
    cases hstage : x.stage <;> (rw [hstage] at hst hmapped; revert hst hmapped; decide)
  · intro hremoved l fd
    have hnew : x.conn.channel.state = .kNew := by
      have hshape := hsound.shape
      rcases hsound.told.removed_iff.mp hremoved with hst | hst
      · rw [Connection.stage, hst] at hshape
        exact hshape.2.1
      · rw [Connection.stage, hst] at hshape
        exact hshape.2.1
    constructor
    · intro hfind
      obtain ⟨y, hy, -, -, hstate⟩ := (h.books.registry.channels ..).mp hfind
      rw [hx, Option.some.injEq] at hy
      subst hy
      exact hstate hnew
    · intro events hfind
      obtain ⟨y, hy, -, -, hadded, -⟩ := (h.books.registry.interest ..).mp hfind
      rw [hx, Option.some.injEq] at hy
      subst hy
      rw [hnew] at hadded
      cases hadded
  · intro hfreed l revents hmem
    obtain ⟨y, hy, -, hst, -⟩ := (h.work.fits l _ (List.mem_append_left _ hmem)).suits c (.inl rfl)
    rw [hx, Option.some.injEq] at hy
    subst hy
    apply hsound.not_freed _ hfreed
    rw [hst]
    intro heq
    cases heq

/-- Every run of the base loop and the io loops with the kernel and user code goes on without a
failed assertion, an abort or a use of a freed connection, and every connection takes the one course
through its life. -/
theorem connections_live {events : List (Event ι)}
    (h : Along (step cfg) (Possible cfg) State.init events) :
    ∃ s, runFrom (step cfg) State.init events = some s ∧
      ∀ (c : ℕ) (x : Connection ι), s.conns[c]? = some x → Lives s c x := by
  obtain ⟨s, hrun, hinv⟩ := run_inv h
  exact ⟨s, hrun, fun c x hx => hinv.lives hx⟩

def sampleConfig : Config (Fin 2) where
  baseLoop := 0
  loops := [1]

def sampleKernel (fd : ℕ) : Kernel where
  accepted := some (fd, ⟨(127, 0, 0, 1), 80⟩, ⟨(127, 0, 0, 1), 4000⟩)
  read := 0
  write := ⟨-1, .EWOULDBLOCK⟩

/-- A client connects and hangs up; a second one gets the same descriptor. -/
def sampleRun : List (Event (Fin 2)) :=
  [.poll 0 [.accept], .run 0 (sampleKernel 7), .doPendingFunctors 0, .iterationEnds 0,
    .poll 1 [], .doPendingFunctors 1, .run 1 (sampleKernel 0), .run 1 (sampleKernel 0),
    .iterationEnds 1, .poll 1 [.connection 7 Events.EPOLLIN], .run 1 (sampleKernel 0),
    .run 1 (sampleKernel 0), .run 1 (sampleKernel 0), .run 1 (sampleKernel 0),
    .run 1 (sampleKernel 0), .doPendingFunctors 1, .iterationEnds 1, .poll 0 [],
    .doPendingFunctors 0, .run 0 (sampleKernel 0), .iterationEnds 0, .poll 1 [.other],
    .run 1 (sampleKernel 0), .doPendingFunctors 1, .run 1 (sampleKernel 0),
    .run 1 (sampleKernel 0), .iterationEnds 1, .free 0, .poll 0 [.accept],
    .run 0 (sampleKernel 7)]

theorem sampleRun_connections_live :
    ∃ s, runFrom (step sampleConfig) State.init sampleRun = some s ∧
      ∀ (c : ℕ) (x : Connection (Fin 2)), s.conns[c]? = some x → Lives s c x :=
  connections_live (by decide +kernel)

end TcpServer

end Matelib
