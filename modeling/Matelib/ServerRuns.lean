import Matelib.OutputStream
import Matelib.ServerWork

/-!
# Runs of a server

Every task keeps the invariant: the books, the tasks of the threads and the phases of the loops stay
in step. So no assertion fails, no freed connection is used, and every connection takes the one
course through its life, however the threads are interleaved.
-/

namespace Matelib

namespace TcpServer

open TcpConnection Transition

variable {ι : Type*}

theorem nextState_of_not_added {channel : Channel} (h : channel.state ≠ .kAdded) :
    EpollPoller.nextState channel = .kAdded :=
  if_neg fun hf => h hf.1

theorem nextState_of_watched {channel : Channel} (h : channel.isNoneEvent = false) :
    EpollPoller.nextState channel = .kAdded :=
  if_neg fun hf => Bool.false_ne_true (h.symm.trans hf.2)

theorem nextState_of_none {channel : Channel} (h : channel.state = .kAdded)
    (hnone : channel.isNoneEvent = true) : EpollPoller.nextState channel = .kDeleted :=
  if_pos ⟨h, hnone⟩

def settledState (channel : Channel) (masks : List Events) : ChannelState :=
  if masks = [] then channel.state else EpollPoller.nextState channel

theorem updateChannel_settles {p : EpollPoller ℕ} {c : ℕ} {channel : Channel} {events : Events}
    {masks : List Events} (h : p.Mirrors c channel.fd channel.state events)
    (hmasks : masks = [] ∧ events = channel.events ∨ masks = [channel.events]) :
    ∃ p', updateChannel p c channel masks =
        some (p', { channel with state := settledState channel masks }) ∧
      p'.Mirrors c channel.fd (settledState channel masks) channel.events ∧
      p.Frame p' channel.fd := by
  rcases hmasks with ⟨rfl, rfl⟩ | rfl
  · exact ⟨p, rfl, h, EpollPoller.Frame.refl _ _⟩
  · obtain ⟨p', hupdate, hmirrors, hframe⟩ := EpollPoller.updateChannel_spec h
    refine ⟨p', ?_, hmirrors, hframe⟩
    simp only [updateChannel, hupdate, Option.bind_some]
    rfl

/-- What a function does to the channel: it keeps the descriptor and the state in the poller, and
updates the poller when the mask changes. -/
structure Settles (conn : TcpConnection) (r : TcpConnection × List Effect) : Prop where
  fd : r.1.channel.fd = conn.channel.fd
  state : r.1.channel.state = conn.channel.state
  masks : updates r.2 = [] ∧ conn.channel.events = r.1.channel.events ∨
    updates r.2 = [r.1.channel.events]

def settled (r : TcpConnection × List Effect) : TcpConnection :=
  { r.1 with
    channel := { r.1.channel with state := settledState r.1.channel (updates r.2) } }

/-- A function that calls nothing back and keeps an open connection open. -/
structure Quiet (conn : TcpConnection) (r : TcpConnection × List Effect) : Prop where
  settles : Settles conn r
  tasks : ∀ c, tasks c r.2 = []
  callbacks : callbacks r.2 = []
  shape : ∀ st, Shape conn st → Shape (settled r) st

theorem isNoneEvent_eq_false {channel : Channel}
    (h : channel.events &&& Channel.kReadEvent = Channel.kReadEvent) :
    channel.isNoneEvent = false := by
  apply Bool.eq_false_iff.mpr
  intro hnone
  rw [Channel.isNoneEvent, beq_iff_eq] at hnone
  rw [hnone] at h
  exact absurd h (by decide)

theorem reads_enableWriting {channel : Channel}
    (h : channel.events &&& Channel.kReadEvent = Channel.kReadEvent) :
    channel.enableWriting.events &&& Channel.kReadEvent = Channel.kReadEvent := by
  have hor : (channel.events ||| Channel.kWriteEvent) &&& Channel.kReadEvent =
      channel.events &&& Channel.kReadEvent ||| Channel.kWriteEvent &&& Channel.kReadEvent := by
    ext i hi
    simp only [BitVec.getElem_and, BitVec.getElem_or, Bool.and_or_distrib_right]
  rw [Channel.enableWriting, hor, h]
  decide

theorem reads_disableWriting {channel : Channel}
    (h : channel.events &&& Channel.kReadEvent = Channel.kReadEvent) :
    channel.disableWriting.events &&& Channel.kReadEvent = Channel.kReadEvent := by
  have hand : channel.events &&& ~~~Channel.kWriteEvent &&& Channel.kReadEvent =
      channel.events &&& Channel.kReadEvent &&& ~~~Channel.kWriteEvent := by
    rw [BitVec.and_assoc, BitVec.and_assoc, BitVec.and_comm (~~~_)]
  rw [Channel.disableWriting, hand, h]
  decide

theorem Quiet.of_same {conn : TcpConnection} {r : TcpConnection × List Effect}
    (hchannel : r.1.channel = conn.channel)
    (hstate : r.1.state = conn.state ∨ conn.state = .kConnected ∧ r.1.state = .kDisconnecting)
    (hupdates : updates r.2 = []) (htasks : ∀ c, TcpServer.tasks c r.2 = [])
    (hcallbacks : TcpServer.callbacks r.2 = []) : Quiet conn r where
  settles :=
    { fd := by rw [hchannel]
      state := by rw [hchannel]
      masks := .inl ⟨hupdates, by rw [hchannel]⟩ }
  tasks := htasks
  callbacks := hcallbacks
  shape st hshape := by
    have hsettled : (settled r).channel = conn.channel := by
      simp only [settled, settledState, hupdates, if_true, hchannel]
    have hsame : (settled r).state = r.1.state := rfl
    rcases hstate with hstate | ⟨hfrom, hto⟩
    · cases st <;> (simp only [Shape, hsettled, hsame, hstate] at hshape ⊢; exact hshape)
    · cases st <;> simp only [Shape, hsettled, hsame, hfrom, hto, reduceCtorEq, false_and, or_false,
        true_and, or_true] at hshape ⊢
      exact hshape

theorem Quiet.of_update {conn : TcpConnection} {r : TcpConnection × List Effect}
    (hopen : conn.state = .kConnected ∨ conn.state = .kDisconnecting)
    (hfd : r.1.channel.fd = conn.channel.fd) (hchannel : r.1.channel.state = conn.channel.state)
    (hreads : conn.channel.events &&& Channel.kReadEvent = Channel.kReadEvent →
      r.1.channel.events &&& Channel.kReadEvent = Channel.kReadEvent)
    (hstate : r.1.state = conn.state) (hupdates : updates r.2 = [r.1.channel.events])
    (htasks : ∀ c, TcpServer.tasks c r.2 = []) (hcallbacks : TcpServer.callbacks r.2 = []) :
    Quiet conn r where
  settles :=
    { fd := hfd
      state := hchannel
      masks := .inr hupdates }
  tasks := htasks
  callbacks := hcallbacks
  shape st hshape := by
    cases st with
    | established =>
      obtain ⟨-, hadded, hevents⟩ := hshape
      have hnone := isNoneEvent_eq_false (hreads hevents)
      refine ⟨?_, ?_, hreads hevents⟩
      · change r.1.state = _ ∨ r.1.state = _
        rwa [hstate]
      · change settledState r.1.channel (updates r.2) = .kAdded
        rw [hupdates, settledState, if_neg (List.cons_ne_nil _ _), nextState_of_watched hnone]
    | accepted =>
      rw [Shape] at hshape
      rw [hshape.1] at hopen
      exact absurd hopen (by decide)
    | _ =>
      rw [Shape] at hshape
      rw [hshape.1] at hopen
      exact absurd hopen (by decide)

theorem shutdown_quiet (conn : TcpConnection) : Quiet conn conn.shutdown := by
  have hin : ∀ conn : TcpConnection, updates conn.shutdownInLoop = [] ∧
      (∀ c, tasks c conn.shutdownInLoop = []) ∧ callbacks conn.shutdownInLoop = [] := by
    intro conn
    unfold shutdownInLoop
    split_ifs
    · exact ⟨rfl, fun _ => rfl, rfl⟩
    · exact ⟨rfl, fun _ => rfl, rfl⟩
  unfold shutdown
  split_ifs with hconnected
  · obtain ⟨hupdates, htasks, hcallbacks⟩ := hin { conn with state := .kDisconnecting }
    exact .of_same rfl (.inr ⟨hconnected, rfl⟩) hupdates htasks hcallbacks
  · exact .of_same rfl (.inl rfl) rfl (fun _ => rfl) rfl

theorem sendInThread_quiet {conn : TcpConnection} (hconnecting : conn.state ≠ .kConnecting)
    (data : Bytes) (w : WriteResult) : Quiet conn (conn.sendInThread data w) := by
  unfold sendInThread
  simp only
  -- the only branch that changes the channel enables writing
  split_ifs with hclosed
  · exact .of_same rfl (.inl rfl) rfl (fun _ => rfl) rfl
  all_goals
    have hopen : conn.state = .kConnected ∨ conn.state = .kDisconnecting := by
      cases hstate : conn.state with
      | kConnecting => exact absurd hstate hconnecting
      | kConnected => exact .inl rfl
      | kDisconnecting => exact .inr rfl
      | kDisconnected => exact absurd hstate hclosed
    first
      | exact .of_same rfl (.inl rfl) rfl (fun _ => rfl) rfl
      | exact .of_update hopen rfl rfl reads_enableWriting rfl rfl (fun _ => rfl) rfl

theorem send_quiet (conn : TcpConnection) (data : Bytes) (w : WriteResult) :
    Quiet conn (conn.send data w) := by
  unfold send
  split_ifs with hconnected
  · exact sendInThread_quiet (by rw [hconnected]; decide) data w
  · exact .of_same rfl (.inl rfl) rfl (fun _ => rfl) rfl

theorem open_of_isWriting {conn : TcpConnection} {st : Stage} (h : Shape conn st)
    (hwriting : conn.channel.isWriting = true) :
    conn.state = .kConnected ∨ conn.state = .kDisconnecting := by
  have hevents : conn.channel.events ≠ 0 := by
    intro hf
    rw [Channel.isWriting, hf] at hwriting
    exact absurd hwriting (by decide)
  cases st with
  | accepted =>
    obtain ⟨-, hchannel⟩ := h
    rw [hchannel] at hevents
    exact absurd rfl hevents
  | established => exact h.1
  | _ => exact absurd h.2.2 hevents

theorem handleWrite_quiet {conn : TcpConnection} {w : WriteResult}
    (hw : w.Contract conn.outputBuffer.readableBytes)
    (hopen : conn.channel.isWriting = true →
      conn.state = .kConnected ∨ conn.state = .kDisconnecting) :
    ∃ r, conn.handleWrite w = some r ∧ Quiet conn r := by
  by_cases hwriting : conn.channel.isWriting = true
  · by_cases hpos : 0 < w.ret
    · obtain ⟨rest, -, heq⟩ := OutputStream.handleWrite_progress hwriting hw hpos
      rw [heq]
      split_ifs
      · refine ⟨_, rfl, ?_⟩
        exact .of_update (hopen hwriting) rfl rfl reads_disableWriting rfl rfl (fun _ => rfl) rfl
      · refine ⟨_, rfl, ?_⟩
        exact .of_update (hopen hwriting) rfl rfl reads_disableWriting rfl rfl (fun _ => rfl) rfl
      · exact ⟨_, rfl, .of_same rfl (.inl rfl) rfl (fun _ => rfl) rfl⟩
    · rw [TcpConnection.handleWrite, if_pos hwriting]
      simp only [if_neg hpos]
      exact ⟨_, rfl, .of_same rfl (.inl rfl) rfl (fun _ => rfl) rfl⟩
  · rw [TcpConnection.handleWrite, if_neg hwriting]
    exact ⟨_, rfl, .of_same rfl (.inl rfl) rfl (fun _ => rfl) rfl⟩

/-- A function that leads from one stage to the next, with the tasks and callbacks it ends in. -/
structure Leads (conn : TcpConnection) (r : TcpConnection × List Effect) (st' : Stage)
    (tasks' : ℕ → List Task) (callbacks' : List Life) : Prop where
  settles : Settles conn r
  shape : Shape (settled r) st'
  tasks : ∀ c, tasks c r.2 = tasks' c
  callbacks : callbacks r.2 = callbacks'

theorem connectionEstablished_leads {conn : TcpConnection} (h : Shape conn .accepted) :
    Leads conn conn.connectionEstablished .established (fun c => [.connectionCallback c])
      [.callback true] := by
  obtain ⟨-, hchannel⟩ := h
  have hevents : conn.channel.events = 0 := by
    rw [hchannel]
    rfl
  refine ⟨⟨rfl, rfl, .inr rfl⟩, ⟨.inl rfl, ?_, ?_⟩, fun _ => rfl, rfl⟩
  · refine nextState_of_not_added (show conn.channel.enableReading.state ≠ .kAdded from ?_)
    change conn.channel.state ≠ .kAdded
    rw [hchannel]
    exact nofun
  · change (conn.channel.events ||| Channel.kReadEvent) &&& Channel.kReadEvent = Channel.kReadEvent
    rw [hevents]
    decide

theorem handleClose_leads {conn : TcpConnection} (h : Shape conn .established) :
    ∃ r, conn.handleClose = some r ∧
      Leads conn r .closing (fun c => [.connectionCallback c, .cleanupCallback c])
        [.callback false] := by
  obtain ⟨hstate, hadded, -⟩ := h
  rw [TcpConnection.handleClose, if_pos hstate]
  refine ⟨_, rfl, ⟨rfl, rfl, .inr rfl⟩, ⟨rfl, ?_, rfl⟩, fun _ => rfl, rfl⟩
  exact nextState_of_none (show conn.channel.disableAll.state = .kAdded from hadded) rfl

theorem connectionDestroyed_leads {conn : TcpConnection} (h : Shape conn .erased) :
    Leads conn conn.connectionDestroyed .destroying (fun c => [.remove c]) [] := by
  have hstate : conn.state ≠ .kConnected := by
    rw [h.1]
    decide
  rw [TcpConnection.connectionDestroyed, if_neg hstate]
  exact ⟨⟨rfl, rfl, .inl ⟨rfl, rfl⟩⟩, h, fun _ => rfl, rfl⟩

variable [DecidableEq ι]

structure Inv (cfg : Config ι) (s : State ι) (held : Option ℕ) : Prop where
  books : Books s.conns (fun l => (s.loops l).poller) s.connectionMap
  work : Work cfg s.conns s.work held
  phased : ∀ l, Phased (s.loops l)
  next : cfg.loops ≠ [] → s.next < cfg.loops.length

variable {cfg : Config ι} {s : State ι} {held : Option ℕ} {l : ι} {c : ℕ} {x y : Connection ι}
  {r : TcpConnection × List Effect}

@[simp] theorem setLoop_self (s : State ι) (l : ι) (loop : Loop) :
    (s.setLoop l loop).loops l = loop :=
  Function.update_self ..

theorem setLoop_of_ne (s : State ι) {l l' : ι} (h : l' ≠ l) (loop : Loop) :
    (s.setLoop l loop).loops l' = s.loops l' :=
  Function.update_of_ne h ..

theorem Phased.setLoop (h : ∀ l, Phased (s.loops l)) {loop : Loop} (hloop : Phased loop) (l' : ι) :
    Phased ((s.setLoop l loop).loops l') := by
  by_cases heq : l' = l
  · subst heq
    rwa [setLoop_self]
  · rw [setLoop_of_ne s heq]
    exact h l'

theorem poller_setLoop (s : State ι) (l : ι) (loop : Loop) (h : loop.poller = (s.loops l).poller) :
    (fun l' => ((s.setLoop l loop).loops l').poller) = fun l' => (s.loops l').poller := by
  funext l'
  by_cases heq : l' = l
  · subst heq
    rw [setLoop_self, h]
  · rw [setLoop_of_ne s heq]

theorem work_setLoop_of_ne (s : State ι) {l l' : ι} (h : l' ≠ l) (loop : Loop) :
    (s.setLoop l loop).work l' = s.work l' := by
  rw [State.work, setLoop_of_ne s h]
  rfl

omit [DecidableEq ι] in
theorem Inv.deref (h : Inv cfg s held) (hx : s.conns[c]? = some x) (hst : x.stage ≠ .freed) :
    s.deref c = some x := by
  have hfreed := (h.books.sound c x hx).not_freed hst
  rw [State.deref, hx]
  exact if_neg hfreed

theorem Inv.derefIn (h : Inv cfg s held) (hx : s.conns[c]? = some x) (hst : x.stage ≠ .freed)
    (hl : x.loop = l) : s.derefIn l c = some x := by
  rw [State.derefIn, h.deref hx hst]
  exact if_pos hl

def settledConn (y : Connection ι) (r : TcpConnection × List Effect) : Connection ι :=
  { y with conn := settled r, history := y.history ++ callbacks r.2 }

theorem settle_inv (h : Inv cfg s held) (hx : s.conns[c]? = some x) (hst : x.stage ≠ .freed)
    (hl : x.loop = l) (hloop : y.loop = x.loop) (hname : y.name = x.name)
    (hr : Settles x.conn r) (hsound : (settledConn y r).Sound)
    (hmapped : (settledConn y r).stage.mapped = x.stage.mapped)
    (hallowed : ∀ t ∈ tasks c r.2, t.allowed (s.loops l).phase = true)
    (hwork : ∀ work' : ι → List Task, work' l = tasks c r.2 ++ s.work l →
      (∀ l', l' ≠ l → work' l' = s.work l') →
        Work cfg (s.conns.set c (settledConn y r)) work' none) :
    ∃ s', settle s l c y r = some s' ∧ Inv cfg s' none := by
  subst hl
  have hfd : (settled r).channel.fd = x.fd := hr.fd
  have halone := h.books.alone hx hst
  have hmirrors : (s.loops x.loop).poller.Mirrors c r.1.channel.fd r.1.channel.state
      x.conn.channel.events := by
    rw [hr.fd, hr.state]
    exact h.books.registry.mirrors hx halone
  obtain ⟨p', hupdate, hmirrors', hframe⟩ := updateChannel_settles hmirrors hr.masks
  rw [hr.fd] at hmirrors' hframe
  have hloop' : (settledConn y r).loop = x.loop := hloop
  have hname' : (settledConn y r).name = x.name := hname
  have hfd' : (settledConn y r).fd = x.fd := hfd
  refine ⟨((s.setConn c (settledConn y r)).setLoop x.loop
    { s.loops x.loop with poller := p' }).push x.loop (tasks c r.2), ?_, ?_⟩
  · rw [settle, hupdate]
    rfl
  constructor
  · apply h.books.set hx hst hloop' hname' hfd' hsound (h.books.mapped.set hx hname' hmapped)
    · simp only [State.push, setLoop_self]
      exact hmirrors'
    · simp only [State.push, setLoop_self]
      exact hframe
    · intro l' hne
      simp only [State.push]
      rw [setLoop_of_ne _ hne, setLoop_of_ne _ hne]
      rfl
  · apply hwork
    · simp only [State.push, State.work, setLoop_self, List.append_assoc]
    · intro l' hne
      simp only [State.push]
      rw [work_setLoop_of_ne _ hne, work_setLoop_of_ne _ hne]
      rfl
  · intro l'
    have hphased := h.phased x.loop
    apply Phased.setLoop
    · apply Phased.setLoop h.phased
      exact ⟨hphased.tasks, hphased.pending⟩
    · simp only [setLoop_self]
      refine ⟨?_, hphased.pending⟩
      intro t ht
      rcases List.mem_append.mp ht with ht | ht
      · exact hallowed t ht
      · exact hphased.tasks t ht
  · exact h.next

theorem Inv.push (h : Inv cfg s held) {held' : Option ℕ} {ts : List Task}
    (hallowed : ∀ t ∈ ts, t.allowed (s.loops l).phase = true)
    (hwork : ∀ work' : ι → List Task, work' l = ts ++ s.work l →
      (∀ l', l' ≠ l → work' l' = s.work l') → Work cfg s.conns work' held') :
    Inv cfg (s.push l ts) held' where
  books := by
    rw [State.push, poller_setLoop s l { s.loops l with tasks := ts ++ (s.loops l).tasks } rfl]
    exact h.books
  work := by
    apply hwork
    · simp only [State.push, State.work, setLoop_self, List.append_assoc]
    · intro l' hne
      simp only [State.push]
      rw [work_setLoop_of_ne _ hne]
  phased := by
    apply Phased.setLoop h.phased
    refine ⟨?_, (h.phased l).pending⟩
    intro t ht
    rcases List.mem_append.mp ht with ht | ht
    · exact hallowed t ht
    · exact (h.phased l).tasks t ht
  next := h.next

theorem Inv.queueInLoop (h : Inv cfg s held) {held' : Option ℕ} {t : Task}
    (hallowed : t.allowed .functors = true)
    (hwork : ∀ work' : ι → List Task, work' l = s.work l ++ [t] →
      (∀ l', l' ≠ l → work' l' = s.work l') → Work cfg s.conns work' held') :
    Inv cfg (s.queueInLoop l t) held' where
  books := by
    rw [State.queueInLoop, poller_setLoop s l
      { s.loops l with pendingFunctors := (s.loops l).pendingFunctors ++ [t] } rfl]
    exact h.books
  work := by
    apply hwork
    · simp only [State.queueInLoop, State.work, setLoop_self, List.append_assoc]
    · intro l' hne
      simp only [State.queueInLoop]
      rw [work_setLoop_of_ne _ hne]
  phased := by
    apply Phased.setLoop h.phased
    refine ⟨(h.phased l).tasks, ?_⟩
    intro u hu
    rcases List.mem_append.mp hu with hu | hu
    · exact (h.phased l).pending u hu
    · rw [List.mem_singleton.mp hu]
      exact hallowed
  next := h.next

theorem Inv.giveQueue (h : Inv cfg s (some c)) (hx : s.conns[c]? = some x) {t : Task} {target : ι}
    (hkey : t.key = some c) (hfits : Fits cfg s.conns target t)
    (hpending : t.allowed .functors = true)
    (herased : x.stage = .erased → x.loop = target ∧ t = .connectionDestroyed c)
    (hdestroying : x.stage ≠ .destroying) : Inv cfg (s.queueInLoop target t) none := by
  apply h.queueInLoop hpending
  intro work' hl' hother
  rw [← List.append_nil (s.work target ++ [t])] at hl'
  apply h.work.give (List.append_nil _).symm hl' hother _ _ hx
  · intro hst
    obtain ⟨hloop, rfl⟩ := herased hst
    exact ⟨hloop, List.mem_singleton_self _⟩
  · intro hst
    exact absurd hst hdestroying
  · rw [List.filterMap_cons_some hkey]
    exact List.Sublist.refl _
  · intro u hu
    rw [List.mem_singleton.mp hu]
    exact hfits

theorem Inv.giveRun (h : Inv cfg s (some c)) (hx : s.conns[c]? = some x) {t : Task} {target : ι}
    (hkey : t.key = some c) (hfits : Fits cfg s.conns target t)
    (hallowed : t.allowed (s.loops l).phase = true) (hpending : t.allowed .functors = true)
    (herased : x.stage ≠ .erased) (hdestroying : x.stage ≠ .destroying) :
    Inv cfg (s.runInLoop l target t) none := by
  unfold State.runInLoop
  split_ifs with heq
  · subst heq
    apply h.push
    · intro u hu
      rw [List.mem_singleton.mp hu]
      exact hallowed
    · intro work' hl' hother
      apply h.work.give (a := []) (b := s.work l) rfl hl' hother _ _ hx
      · intro hst
        exact absurd hst herased
      · intro hst
        exact absurd hst hdestroying
      · rw [List.filterMap_cons_some hkey]
        exact List.Sublist.refl _
      · intro u hu
        rw [List.mem_singleton.mp hu]
        exact hfits
  · apply h.giveQueue hx hkey hfits hpending _ hdestroying
    intro hst
    exact absurd hst herased

omit [DecidableEq ι] in
theorem Inv.add (h : Inv cfg s held) {held' : Option ℕ} (hx : s.conns[c]? = some x)
    (hst : x.stage ≠ .freed) {life : List Life} (hsound : (x.add life).Sound)
    {connectionMap : OrderedMap Bytes ℕ}
    (hmapped : Mapped (s.conns.set c (x.add life)) connectionMap)
    (hwork : Work cfg (s.conns.set c (x.add life)) s.work held') :
    Inv cfg { s.setConn c (x.add life) with connectionMap } held' where
  books := h.books.add hx hst hsound hmapped
  work := hwork
  phased := h.phased
  next := h.next

omit [DecidableEq ι] in
theorem Inv.addStage (h : Inv cfg s (some c)) (hx : s.conns[c]? = some x) {st st' : Stage}
    (hst : x.stage = st) {life : List Life} (hnext : Next st life st') (hnot : st ≠ .freed)
    (hshape : Shape x.conn st → Shape x.conn st') (huse : st'.inUse = true)
    {connectionMap : OrderedMap Bytes ℕ}
    (hmapped : (x.add life).stage = st' → Mapped (s.conns.set c (x.add life)) connectionMap) :
    (x.add life).stage = st' ∧
      Inv cfg { s.setConn c (x.add life) with connectionMap } (some c) := by
  have hsound := h.books.sound c x hx
  obtain ⟨htold, hstage⟩ := hsound.told.next hst hnext
  have hst' : (x.add life).stage = st' := hstage
  have hloop' : (x.add life).loop = x.loop := rfl
  refine ⟨hst', h.add hx (by rwa [hst]) ⟨htold, ?_⟩ (hmapped hst') ?_⟩
  · rw [hst']
    apply hshape
    rw [← hst]
    exact hsound.shape
  · apply h.work.advance hx hloop'
    left
    rwa [hst']

theorem keys_dispatch (c fd : ℕ) (revents : Events) :
    ((Channel.dispatch fd revents).map (Task.callback c) ++ [Task.eventHandled c]).filterMap
        Task.key =
      (if revents.has Events.EPOLLHUP && !revents.has Events.EPOLLIN then [c] else []) ++
        (if revents.has (Events.EPOLLIN ||| Events.EPOLLPRI ||| Events.EPOLLRDHUP) then [c]
          else []) := by
  unfold Channel.dispatch
  split_ifs <;> rfl

theorem dispatch_keys (c fd : ℕ) {revents : Events} (h : PlainHangup revents) :
    (((Channel.dispatch fd revents).map (Task.callback c) ++ [Task.eventHandled c]).filterMap
      Task.key).Sublist [c] := by
  rw [keys_dispatch]
  by_cases hclose : (revents.has Events.EPOLLHUP && !revents.has Events.EPOLLIN) = true
  · rw [if_pos hclose]
    rw [Bool.and_eq_true, Bool.not_eq_true'] at hclose
    have hread :
        revents.has (Events.EPOLLIN ||| Events.EPOLLPRI ||| Events.EPOLLRDHUP) = false := by
      rw [BitVec.or_assoc, Events.has_or, hclose.2, h hclose.1 hclose.2]
      rfl
    rw [if_neg (Bool.eq_false_iff.mp hread)]
    exact List.Sublist.refl _
  · rw [if_neg hclose, List.nil_append]
    split_ifs
    · exact List.Sublist.refl _
    · exact List.nil_sublist _

theorem handleEvent_inv (h : Inv cfg s (some c)) {revents : Events}
    (hfits : Fits cfg s.conns l (.handleEvent c revents)) (hphase : (s.loops l).phase = .dispatch) :
    ∃ s', handleEvent s l c revents = some s' ∧ Inv cfg s' none := by
  obtain ⟨x, hx, hloop, hst, hhup⟩ := hfits.suits c (.inl rfl)
  have hsound := h.books.sound c x hx
  have hnot : x.stage ≠ .freed := by
    rw [hst]
    decide
  have hsame : (x.add [.event]).stage = x.stage := stageOf_append _ _
  have hsound' : (x.add [.event]).Sound := by
    refine ⟨hsound.told.event ?_, ?_⟩
    · change x.stage ≠ .accepted
      rw [hst]
      decide
    · rw [hsame]
      exact hsound.shape
  have hset : (s.conns.set c (x.add [.event]))[c]? = some (x.add [.event]) := by
    rw [getElem?_set_of_some hx, if_pos rfl]
  have hadd : Inv cfg (s.setConn c (x.add [.event])) (some c) :=
    h.add hx hnot hsound' (h.books.mapped.set hx rfl (by rw [hsame])) (h.work.touch hx rfl hsame)
  refine ⟨_, by rw [handleEvent, h.derefIn hx hnot hloop]; rfl, ?_⟩
  apply hadd.push
  · intro t ht
    rcases List.mem_append.mp ht with ht | ht
    · obtain ⟨cb, -, rfl⟩ := List.mem_map.mp ht
      exact decide_eq_true hphase
    · rw [List.mem_singleton.mp ht]
      exact decide_eq_true hphase
  · intro work' hl' hother
    apply hadd.work.give (a := []) (b := s.work l) rfl hl' hother (dispatch_keys c x.fd hhup) _ hset
    · intro hf
      rw [hsame, hst] at hf
      cases hf
    · intro hf
      rw [hsame, hst] at hf
      cases hf
    · intro t ht
      have hloop' : (x.add [.event]).loop = l := hloop
      have hst' : (x.add [.event]).stage = .established := hsame.trans hst
      rcases List.mem_append.mp ht with ht | ht
      · obtain ⟨cb, -, rfl⟩ := List.mem_map.mp ht
        cases cb with
        | closeCallback => exact fits_of_key hset rfl ⟨hloop', hst'⟩
        | readCallback => exact fits_of_key hset rfl ⟨hloop', hst'⟩
        | errorCallback => exact fits_of_uses hset rfl ⟨hloop', by rw [hst']; rfl⟩
        | writeCallback => exact fits_of_uses hset rfl ⟨hloop', by rw [hst']; rfl⟩
      · rw [List.mem_singleton.mp ht]
        exact fits_of_uses hset rfl ⟨hloop', by rw [hst']; rfl⟩

/-- A function that leads to the next stage. -/
theorem leads_inv (h : Inv cfg s (some c)) (hx : s.conns[c]? = some x) (hl : x.loop = l)
    {life : List Life} {st st' : Stage} {tasks' : ℕ → List Task} {callbacks' : List Life}
    (hst : x.stage = st) (hlead : Leads x.conn r st' tasks' callbacks')
    (hnext : Next st (life ++ callbacks') st') (hnot : st ≠ .freed)
    (hmapped : st'.mapped = st.mapped)
    (hallowed : ∀ t ∈ tasks' c, t.allowed (s.loops l).phase = true)
    (huse : st'.inUse = true ∨ (s.loops l).phase = .functors)
    (hkeys : ((tasks' c).filterMap Task.key).Sublist [c])
    (hfits : ∀ (conns : List (Connection ι)) (x' : Connection ι), conns[c]? = some x' →
      x'.loop = l → x'.stage = st' → ∀ t ∈ tasks' c, Fits cfg conns l t)
    (herased : st' ≠ .erased) (hdestroying : st' = .destroying → .remove c ∈ tasks' c) :
    ∃ s', settle s l c (x.add life) r = some s' ∧ Inv cfg s' none := by
  have hsound := h.books.sound c x hx
  have hhistory : (settledConn (x.add life) r).history = x.history ++ (life ++ callbacks') := by
    rw [← hlead.callbacks]
    exact List.append_assoc ..
  obtain ⟨htold, hstage⟩ := hsound.told.next hst hnext
  have hst' : (settledConn (x.add life) r).stage = st' := by
    rw [Connection.stage, hhistory]
    exact hstage
  have hloop' : (settledConn (x.add life) r).loop = x.loop := rfl
  have hset : (s.conns.set c (settledConn (x.add life) r))[c]? =
      some (settledConn (x.add life) r) := by
    rw [getElem?_set_of_some hx, if_pos rfl]
  apply settle_inv (y := x.add life) h hx (by rwa [hst]) hl rfl rfl hlead.settles
  · refine ⟨by rwa [hhistory], ?_⟩
    rw [hst']
    exact hlead.shape
  · rw [hst', hst, hmapped]
  · rwa [hlead.tasks]
  · intro work' hl' hother
    have hadvance : Work cfg (s.conns.set c (settledConn (x.add life) r)) s.work (some c) := by
      apply h.work.advance hx hloop'
      rcases huse with huse | hphase
      · left
        rwa [hst']
      · right
        intro t ht
        rw [hl] at ht
        exact (h.phased l).not_uses hphase ht
    rw [hlead.tasks] at hl'
    apply hadvance.give (a := []) (b := s.work l) rfl hl' hother hkeys
      (hfits _ _ hset (hloop'.trans hl) hst') hset
    · intro hf
      rw [hst'] at hf
      exact absurd hf herased
    · intro hf
      rw [hst'] at hf
      exact ⟨hloop'.trans hl, hdestroying hf⟩

theorem quiet_inv (h : Inv cfg s none) (hx : s.conns[c]? = some x) (hl : x.loop = l)
    (hnot : x.stage ≠ .freed) (hr : Quiet x.conn r) :
    ∃ s', settle s l c x r = some s' ∧ Inv cfg s' none := by
  have hsound := h.books.sound c x hx
  have hhistory : (settledConn x r).history = x.history := by
    simp only [settledConn, hr.callbacks, List.append_nil]
  have hst' : (settledConn x r).stage = x.stage := by
    rw [Connection.stage, hhistory]
    rfl
  have hloop' : (settledConn x r).loop = x.loop := rfl
  apply settle_inv h hx hnot hl rfl rfl hr.settles
  · refine ⟨?_, ?_⟩
    · rw [hhistory]
      exact hsound.told
    · rw [hst']
      exact hr.shape _ hsound.shape
  · rw [hst']
  · rw [hr.tasks]
    intro t ht
    exact absurd ht List.not_mem_nil
  · intro work' hl' hother
    rw [hr.tasks] at hl'
    apply (h.work.touch hx hloop' hst').put_plain (a := []) (b := s.work l) rfl hl' hother rfl
    intro t ht
    exact absurd ht List.not_mem_nil

theorem connectionEstablished_inv (h : Inv cfg s (some c))
    (hfits : Fits cfg s.conns l (.connectionEstablished c)) (hphase : (s.loops l).phase ≠ .poll) :
    ∃ s', connectionEstablished s l c = some s' ∧ Inv cfg s' none := by
  obtain ⟨x, hx, hl, hst⟩ := hfits.suits c (.inl rfl)
  have hshape := (h.books.sound c x hx).shape
  rw [hst] at hshape
  rw [connectionEstablished, h.derefIn hx (by rw [hst]; exact nofun) hl, Option.bind_some]
  have hnext : Next .accepted ([.established] ++ [.callback true]) .established :=
    ⟨rfl, rfl, fun _ => rfl⟩
  apply leads_inv h hx hl hst (connectionEstablished_leads hshape) hnext nofun rfl _ (.inl rfl)
    (List.nil_sublist _) _ nofun nofun
  · intro t ht
    rw [List.mem_singleton.mp ht]
    exact decide_eq_true hphase
  · intro conns x' _ _ _ t ht
    rw [List.mem_singleton.mp ht]
    exact fits_of_none rfl rfl nofun

theorem handleClose_inv (h : Inv cfg s (some c)) (hx : s.conns[c]? = some x) (hl : x.loop = l)
    (hst : x.stage = .established) (hphase : (s.loops l).phase ≠ .poll) :
    ∃ s', handleClose s l c = some s' ∧ Inv cfg s' none := by
  have hshape := (h.books.sound c x hx).shape
  rw [hst] at hshape
  obtain ⟨r, hr, hlead⟩ := handleClose_leads hshape
  rw [handleClose, h.derefIn hx (by rw [hst]; exact nofun) hl, Option.bind_some, hr,
    Option.bind_some]
  have hnext : Next .established ([.handleClose] ++ [.callback false]) .closing :=
    ⟨rfl, rfl, nofun⟩
  apply leads_inv h hx hl hst hlead hnext nofun rfl _ (.inl rfl) (List.Sublist.refl _) _ nofun nofun
  · intro t ht
    rcases List.mem_cons.mp ht with rfl | ht
    · exact decide_eq_true hphase
    · rw [List.mem_singleton.mp ht]
      exact decide_eq_true hphase
  · intro conns x' hx' hl' hst' t ht
    rcases List.mem_cons.mp ht with rfl | ht
    · exact fits_of_none rfl rfl nofun
    · rw [List.mem_singleton.mp ht]
      exact fits_of_key hx' rfl ⟨hl', hst'⟩

theorem handleRead_inv (h : Inv cfg s (some c)) (hx : s.conns[c]? = some x) (hl : x.loop = l)
    (hst : x.stage = .established) (hphase : (s.loops l).phase ≠ .poll) (n : ℤ) :
    ∃ s', handleRead s l c n = some s' ∧ Inv cfg s' none := by
  have hdrop : Inv cfg s none :=
    { h with work := h.work.drop hx (by rw [hst]; exact nofun) (by rw [hst]; exact nofun) }
  rw [handleRead, h.derefIn hx (by rw [hst]; exact nofun) hl, Option.bind_some]
  split_ifs
  · refine ⟨_, rfl, ?_⟩
    apply hdrop.push
    · intro t ht
      rw [List.mem_singleton.mp ht]
      exact decide_eq_true hphase
    · intro work' hl' hother
      apply hdrop.work.put_plain (a := []) (b := s.work l) rfl hl' hother rfl
      intro t ht
      rw [List.mem_singleton.mp ht]
      exact fits_of_none rfl rfl nofun
  · exact handleClose_inv h hx hl hst hphase
  · exact ⟨s, rfl, hdrop⟩

theorem handleWrite_inv (h : Inv cfg s none) (hx : s.conns[c]? = some x) (hl : x.loop = l)
    (hst : x.stage.inUse = true) {w : WriteResult}
    (hw : w.Contract x.conn.outputBuffer.readableBytes) :
    ∃ s', handleWrite s l c w = some s' ∧ Inv cfg s' none := by
  have hnot : x.stage ≠ .freed := by
    intro hf
    rw [hf] at hst
    cases hst
  have hshape := (h.books.sound c x hx).shape
  obtain ⟨r, hr, hquiet⟩ := handleWrite_quiet hw (open_of_isWriting hshape)
  rw [handleWrite, h.derefIn hx hnot hl, Option.bind_some, hr, Option.bind_some]
  exact quiet_inv h hx hl hnot hquiet

theorem connectionDestroyed_inv (h : Inv cfg s (some c))
    (hfits : Fits cfg s.conns l (.connectionDestroyed c))
    (hphase : (s.loops l).phase = .functors) :
    ∃ s', connectionDestroyed s l c = some s' ∧ Inv cfg s' none := by
  obtain ⟨x, hx, hl, hst⟩ := hfits.suits c (.inl rfl)
  have hshape := (h.books.sound c x hx).shape
  rw [hst] at hshape
  have hnone : x.conn.channel.isNoneEvent = true := by
    rw [Channel.isNoneEvent, hshape.2.2]
    rfl
  rw [connectionDestroyed, h.derefIn hx (by rw [hst]; exact nofun) hl, Option.bind_some, hnone]
  have hnext : Next .erased ([.destroyed true] ++ []) .destroying := ⟨rfl, rfl, nofun⟩
  apply leads_inv h hx hl hst (connectionDestroyed_leads hshape) hnext nofun rfl _ (.inr hphase)
    (List.Sublist.refl _) _ nofun (fun _ => List.mem_singleton_self _)
  · intro t ht
    rw [List.mem_singleton.mp ht]
    exact decide_eq_true hphase
  · intro conns x' hx' hl' hst' t ht
    rw [List.mem_singleton.mp ht]
    exact fits_of_key hx' rfl ⟨hl', hst'⟩

theorem removeConnection_inv (h : Inv cfg s (some c))
    (hfits : Fits cfg s.conns l (.cleanupCallback c))
    (hphase : (s.loops l).phase ≠ .poll) :
    ∃ s', removeConnection cfg s l c = some s' ∧ Inv cfg s' none := by
  obtain ⟨x, hx, -, hst⟩ := hfits.suits c (.inl rfl)
  have hset : (s.conns.set c (x.add [.cleanup]))[c]? = some (x.add [.cleanup]) := by
    rw [getElem?_set_of_some hx, if_pos rfl]
  have hnext : Next .closing [.cleanup] .removing := ⟨rfl, rfl, nofun⟩
  obtain ⟨hst', hadd⟩ := h.addStage hx hst hnext nofun id rfl
    (fun hst' => h.books.mapped.set hx rfl (by rw [hst', hst]; rfl))
  refine ⟨_, by rw [removeConnection, h.deref hx (by rw [hst]; exact nofun)]; rfl, ?_⟩
  apply hadd.giveRun hset rfl
  · exact fits_of_key hset rfl ⟨rfl, hst'⟩
  · exact decide_eq_true hphase
  · rfl
  · rw [hst']
    exact nofun
  · rw [hst']
    exact nofun

theorem removeConnectionInLoop_inv (h : Inv cfg s (some c))
    (hfits : Fits cfg s.conns l (.removeConnectionInLoop c)) :
    ∃ s', removeConnectionInLoop cfg s l c = some s' ∧ Inv cfg s' none := by
  obtain ⟨x, hx, hbase, hst⟩ := hfits.suits c (.inl rfl)
  have hset : (s.conns.set c (x.add [.erased]))[c]? = some (x.add [.erased]) := by
    rw [getElem?_set_of_some hx, if_pos rfl]
  have hnext : Next .removing [.erased] .erased := ⟨rfl, rfl, nofun⟩
  obtain ⟨hst', hadd⟩ := h.addStage hx hst hnext nofun id rfl
    (fun hst' => h.books.mapped.erase hx (by rw [hst]; rfl) (by rw [hst']; rfl))
  have hnot : x.stage ≠ .freed := by
    rw [hst]
    exact nofun
  refine ⟨_, by rw [removeConnectionInLoop, if_neg (not_not.mpr hbase), h.deref hx hnot]; rfl, ?_⟩
  apply hadd.giveQueue hset rfl
  · exact fits_of_key hset rfl ⟨rfl, hst'⟩
  · rfl
  · intro _
    exact ⟨rfl, rfl⟩
  · rw [hst']
    exact nofun

theorem remove_inv (h : Inv cfg s (some c)) (hfits : Fits cfg s.conns l (.remove c))
    (hphase : (s.loops l).phase = .functors) :
    ∃ s', remove s l c = some s' ∧ Inv cfg s' none := by
  obtain ⟨x, hx, rfl, hst⟩ := hfits.suits c (.inl rfl)
  have hsound := h.books.sound c x hx
  have hnot : x.stage ≠ .freed := by
    rw [hst]
    exact nofun
  have hshape := hsound.shape
  rw [hst] at hshape
  obtain ⟨hstate, hdeleted, hevents⟩ := hshape
  have hnone : x.conn.channel.isNoneEvent = true := by
    rw [Channel.isNoneEvent, hevents]
    rfl
  have hmirrors := h.books.registry.mirrors hx (h.books.alone hx hnot)
  obtain ⟨p', hremove, hmirrors', hframe⟩ :=
    EpollPoller.removeChannel_spec hmirrors hnone (by rw [hdeleted]; exact nofun)
  have hnext : Next .destroying [.removed] .removed := ⟨rfl, rfl, nofun⟩
  obtain ⟨htold, hstage⟩ := hsound.told.next hst hnext
  let x' : Connection ι := { x with
    conn := { x.conn with channel := { x.conn.channel with state := .kNew } }
    history := x.history ++ [.removed] }
  have hst' : x'.stage = .removed := hstage
  have hloop' : x'.loop = x.loop := rfl
  have hname' : x'.name = x.name := rfl
  have hfd' : x'.fd = x.fd := rfl
  have hset : (s.conns.set c x')[c]? = some x' := by
    rw [getElem?_set_of_some hx, if_pos rfl]
  have hmay : (s.loops x.loop).handling.MayRemove c := by
    intro hhandling
    rw [Loop.handling, hphase] at hhandling
    cases hhandling
  refine ⟨(s.setConn c x').setLoop x.loop { s.loops x.loop with poller := p' }, ?_, ?_⟩
  · rw [remove, h.derefIn hx hnot rfl, Option.bind_some, if_neg (not_not.mpr hmay), hremove]
    rfl
  constructor
  · apply h.books.set hx hnot hloop' hname' hfd'
    · refine ⟨htold, ?_⟩
      rw [hst']
      exact ⟨hstate, rfl, hevents⟩
    · exact h.books.mapped.set hx hname' (by rw [hst', hst]; rfl)
    · rw [setLoop_self]
      exact hmirrors'
    · rw [setLoop_self]
      exact hframe
    · intro l' hne
      rw [setLoop_of_ne _ hne]
      rfl
  · have hadvance : Work cfg (s.conns.set c x') s.work (some c) := by
      apply h.work.advance hx hloop'
      right
      intro t ht
      exact (h.phased x.loop).not_uses hphase ht
    have hwork : ((s.setConn c x').setLoop x.loop { s.loops x.loop with poller := p' }).work =
        s.work := by
      funext l'
      by_cases heq : l' = x.loop
      · rw [heq, State.work, setLoop_self]
        rfl
      · rw [work_setLoop_of_ne _ heq]
        rfl
    rw [hwork]
    exact hadvance.drop hset (by rw [hst']; exact nofun) (by rw [hst']; exact nofun)
  · apply Phased.setLoop h.phased
    exact ⟨(h.phased x.loop).tasks, (h.phased x.loop).pending⟩
  · exact h.next

end TcpServer

end Matelib
