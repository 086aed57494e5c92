import Matelib.ServerLifecycle

/-!
# The destructor of a server

`~TcpServer` makes every connection that is still in the map run `connectionDestroyed` in its loop:
at once, when that is the loop of its own thread, and else as a functor. Until the functor runs, the
loop goes on: data may be sent, the user may shut the connection down, and the peer may close it.
The functions of the connections run here as a whole, since each of them only touches its own
connection and the poller of its loop. The channel that is removed has to be free of interest, which
`connectionDestroyed` takes care of only in `kConnected`, and during the dispatch of a loop it must
not be active, unless it is the current one. What user code and the server do in the callbacks is
left out.
-/

namespace Matelib

namespace TcpServer

open TcpConnection Transition

variable {ι : Type*}

/-- The connections and the loops while the server is destroyed in the thread of a loop (`none` for
a thread without one), with the connections whose `connectionDestroyed` has not run yet. -/
structure Teardown (ι : Type*) where
  thread : Option ι
  conns : List (Connection ι)
  poller : ι → EpollPoller ℕ
  handling : ι → Handling
  doomed : List ℕ

/-- What `~TcpServer` finds and what it starts. -/
def State.teardown (s : State ι) (thread : Option ι) : Teardown ι where
  thread := thread
  conns := s.conns
  poller l := (s.loops l).poller
  handling l := (s.loops l).handling
  doomed := s.connectionMap.entries.map Prod.snd

/-- The functions of a connection. `sendInLoop` is the functor of a `send` in another thread. -/
inductive Teardown.Function where
  | connectionEstablished
  | send (data : Bytes) (w : WriteResult)
  | sendInLoop (data : Bytes) (w : WriteResult)
  | shutdown
  | handleWrite (w : WriteResult)
  | handleClose
  | connectionDestroyed

/-- A function of a connection, or a step of a loop: `poll` returns, the `handleEvent` of a channel
begins (`none` for one that is not a connection's), and the functors are next. -/
inductive Teardown.Call (ι : Type*) where
  | poll (l : ι) (active : List ℕ)
  | handleEvent (l : ι) (c : Option ℕ)
  | doPendingFunctors (l : ι)
  | run (c : ℕ) (f : Teardown.Function)

namespace Teardown

variable [DecidableEq ι]

def put (t : Teardown ι) (c : ℕ) (x : Connection ι) (p : EpollPoller ℕ) (conn : TcpConnection) :
    Teardown ι :=
  { t with
    conns := t.conns.set c { x with conn }
    poller := Function.update t.poller x.loop p }

def finish (t : Teardown ι) (c : ℕ) (x : Connection ι) (r : TcpConnection × List Effect) :
    Option (Teardown ι) :=
  (updateChannel (t.poller x.loop) c r.1.channel (updates r.2)).map fun u =>
    t.put c x u.1 { r.1 with channel := u.2 }

/-- `Channel::remove` with its assertion and those of `EventLoop::removeChannel` and
`EpollPoller::removeChannel`. -/
def remove (t : Teardown ι) (c : ℕ) (x : Connection ι) : Option (Teardown ι) :=
  if x.conn.channel.isNoneEvent ∧ (t.handling x.loop).MayRemove c then
    ((t.poller x.loop).removeChannel c x.conn.channel).map fun u =>
      t.put c x u.1 { x.conn with channel := { x.conn.channel with state := u.2 } }
  else none

/-- `connectionDestroyed`, which ends with the removal of the channel. -/
def connectionDestroyed (t : Teardown ι) (c : ℕ) (x : Connection ι) : Option (Teardown ι) :=
  (t.finish c x x.conn.connectionDestroyed).bind fun t =>
    t.conns[c]?.bind fun x =>
      (t.remove c x).map fun t => { t with doomed := t.doomed.filter (· ≠ c) }

def setHandling (t : Teardown ι) (l : ι) (h : Handling) : Teardown ι :=
  { t with handling := Function.update t.handling l h }

def run (t : Teardown ι) (c : ℕ) (x : Connection ι) : Function → Option (Teardown ι)
  | .connectionEstablished => t.finish c x x.conn.connectionEstablished
  | .send data w => t.finish c x (x.conn.send data w)
  | .sendInLoop data w => t.finish c x (x.conn.sendInThread data w)
  | .shutdown => t.finish c x x.conn.shutdown
  | .handleWrite w => (x.conn.handleWrite w).bind (t.finish c x)
  | .handleClose => x.conn.handleClose.bind (t.finish c x)
  | .connectionDestroyed => t.connectionDestroyed c x

/-- `none` when an assertion fails. -/
def step (t : Teardown ι) : Call ι → Option (Teardown ι)
  | .poll l active => some (t.setHandling l ⟨true, active, none⟩)
  | .handleEvent l c => some (t.setHandling l { t.handling l with currentChannel := c })
  | .doPendingFunctors l => some (t.setHandling l
      { t.handling l with eventHandling := false, currentChannel := none })
  | .run c f => t.conns[c]?.bind fun x => t.run c x f

/-- What a function of the connection `x` needs: its functor `connectionEstablished` waits in front
of all others, the poller reports the peer's close of an open connection, and only the connections
of the map are destroyed. Only `~TcpServer` itself runs `connectionDestroyed` during a dispatch. -/
def Suits (t : Teardown ι) (c : ℕ) (x : Connection ι) : Function → Prop
  | .connectionEstablished => x.conn.state = .kConnecting
  | .send data w => w.Contract data.length
  | .sendInLoop data w => x.conn.state ≠ .kConnecting ∧ w.Contract data.length
  | .shutdown => True
  | .handleWrite w => w.Contract x.conn.outputBuffer.readableBytes
  | .handleClose => x.conn.state = .kConnected ∨ x.conn.state = .kDisconnecting
  | .connectionDestroyed => x.conn.state ≠ .kConnecting ∧ c ∈ t.doomed ∧
    ((t.handling x.loop).eventHandling = true → t.thread = some x.loop)

/-- The poller reports connections of its loop that it watches, and the functions run on connections
that are not freed. -/
def Possible (t : Teardown ι) : Call ι → Prop
  | .poll l active => (t.handling l).eventHandling = false ∧
    ∀ c ∈ active, ∃ x ∈ t.conns[c]?, x.loop = l ∧ x.fd ∈ (t.poller l).interest
  | .handleEvent l c => (t.handling l).eventHandling = true ∧
    ∀ c' ∈ c, c' ∈ (t.handling l).activeChannels
  | .doPendingFunctors _ => True
  | .run c f => ∃ x ∈ t.conns[c]?, .freed ∉ x.history ∧ Suits t c x f

/-- A connection is destroyed neither while it is half closed, nor during the dispatch of its loop
while it is active and not the current one. -/
def Removable (t : Teardown ι) : Call ι → Prop
  | .run c .connectionDestroyed => ∀ x ∈ t.conns[c]?,
    x.conn.state ≠ .kDisconnecting ∧ (t.handling x.loop).MayRemove c
  | _ => True

/-- The pollers know the channels, and each connection has the shape of some stage; the connections
that are still to be destroyed have that of a stage in which the map has them. -/
structure Inv (t : Teardown ι) : Prop where
  registry : Registry t.conns t.poller
  apart : Apart t.conns
  told : ∀ (c : ℕ) (x : Connection ι), t.conns[c]? = some x → Told x.history
  freed : ∀ (c : ℕ) (x : Connection ι), t.conns[c]? = some x → x.stage = .freed →
    x.conn.channel.state = .kNew
  shape : ∀ (c : ℕ) (x : Connection ι), t.conns[c]? = some x →
    ∃ st, Shape x.conn st ∧ (c ∈ t.doomed → st.mapped = true)

variable {t : Teardown ι} {c : ℕ} {x : Connection ι} {r : TcpConnection × List Effect}

omit [DecidableEq ι] in
theorem inv_teardown {cfg : Config ι} {s : State ι} (h : TcpServer.Inv cfg s none)
    (thread : Option ι) : Inv (s.teardown thread) where
  registry := h.books.registry
  apart := h.books.apart
  told c x hx := (h.books.sound c x hx).told
  freed c x hx := (h.books.sound c x hx).isNew
  shape c x hx := by
    refine ⟨x.stage, (h.books.sound c x hx).shape, ?_⟩
    intro hdoomed
    obtain ⟨⟨name, c'⟩, hmem, heq⟩ := List.mem_map.mp hdoomed
    obtain ⟨y, hy, -, hmapped⟩ := (h.books.mapped name c).mp
      (OrderedMap.find_eq_some.mpr (heq ▸ hmem))
    have hxy : some x = some y := hx.symm.trans hy
    rw [Option.some.injEq] at hxy
    rwa [hxy]

omit [DecidableEq ι] in
theorem Inv.alone (h : Inv t) (hx : t.conns[c]? = some x) (hst : x.stage ≠ .freed) :
    Alone t.conns c x := by
  intro c' y hy hfd hne
  by_cases hfreed : y.stage = .freed
  · exact h.freed c' y hy hfreed
  · exact absurd (h.apart c' c y x hy hx hfreed hst hfd) hne

theorem Inv.put (h : Inv t) (hx : t.conns[c]? = some x) (hst : x.stage ≠ .freed)
    {p : EpollPoller ℕ} {conn : TcpConnection} {st : Stage} {doomed : List ℕ}
    (hfd : conn.channel.fd = x.fd)
    (hmirrors : p.Mirrors c x.fd conn.channel.state conn.channel.events)
    (hframe : (t.poller x.loop).Frame p x.fd) (hshape : Shape conn st)
    (hmapped : c ∈ doomed → st.mapped = true) (hsub : doomed ⊆ t.doomed) :
    Inv { t.put c x p conn with doomed := doomed } where
  registry := by
    refine h.registry.set hx (h.alone hx hst) rfl hfd ?_ ?_ ?_
    · change (Function.update t.poller x.loop p x.loop).Mirrors c x.fd _ _
      rw [Function.update_self]
      exact hmirrors
    · change (t.poller x.loop).Frame (Function.update t.poller x.loop p x.loop) x.fd
      rw [Function.update_self]
      exact hframe
    · intro l hl
      exact Function.update_of_ne hl _ _
  apart := h.apart.set hx hfd id
  told c' y hy := by
    change (t.conns.set c { x with conn })[c']? = some y at hy
    rw [getElem?_set_of_some hx] at hy
    split_ifs at hy
    · cases hy
      exact h.told c x hx
    · exact h.told c' y hy
  freed c' y hy hyst := by
    change (t.conns.set c { x with conn })[c']? = some y at hy
    rw [getElem?_set_of_some hx] at hy
    split_ifs at hy
    · cases hy
      exact absurd hyst hst
    · exact h.freed c' y hy hyst
  shape c' y hy := by
    change (t.conns.set c { x with conn })[c']? = some y at hy
    rw [getElem?_set_of_some hx] at hy
    split_ifs at hy with heq
    · cases hy
      subst heq
      exact ⟨st, hshape, hmapped⟩
    · obtain ⟨st', hshape', hmapped'⟩ := h.shape c' y hy
      exact ⟨st', hshape', fun hc => hmapped' (hsub hc)⟩

theorem finish_spec (h : Inv t) (hx : t.conns[c]? = some x) (hst : x.stage ≠ .freed)
    (hr : Settles x.conn r) {st : Stage} (hshape : Shape (settled r) st)
    (hmapped : c ∈ t.doomed → st.mapped = true) :
    ∃ t', t.finish c x r = some t' ∧ Inv t' ∧
      t'.conns[c]? = some { x with conn := settled r } ∧ t'.handling = t.handling := by
  have hmirrors := h.registry.mirrors hx (h.alone hx hst)
  rw [← hr.state] at hmirrors
  change (t.poller x.loop).Mirrors c x.conn.channel.fd _ _ at hmirrors
  rw [← hr.fd] at hmirrors
  obtain ⟨p, hupdate, hmirrors', hframe⟩ := updateChannel_settles hmirrors hr.masks
  rw [hr.fd] at hmirrors' hframe
  refine ⟨t.put c x p (settled r), ?_, ?_, ?_, rfl⟩
  · rw [finish, hupdate]
    rfl
  · exact h.put hx hst hr.fd hmirrors' hframe hshape hmapped (List.Subset.refl _)
  · change (t.conns.set c { x with conn := settled r })[c]? = _
    rw [getElem?_set_of_some hx, if_pos rfl]

theorem remove_spec (h : Inv t) (hx : t.conns[c]? = some x) (hst : x.stage ≠ .freed)
    (hshape : Shape x.conn .closing) (hmay : (t.handling x.loop).MayRemove c) :
    ∃ t', t.remove c x = some t' ∧ Inv { t' with doomed := t'.doomed.filter (· ≠ c) } := by
  obtain ⟨hstate, hdeleted, hevents⟩ := hshape
  have hnone : x.conn.channel.isNoneEvent = true := by
    rw [Channel.isNoneEvent, hevents]
    rfl
  obtain ⟨p, hp, hmirrors, hframe⟩ :=
    EpollPoller.removeChannel_spec (h.registry.mirrors hx (h.alone hx hst)) hnone
      (by rw [hdeleted]; decide)
  refine ⟨_, by rw [remove, if_pos ⟨hnone, hmay⟩, hp]; rfl, ?_⟩
  have hremoved :
      Shape { x.conn with channel := { x.conn.channel with state := .kNew } } .removed :=
    ⟨hstate, rfl, hevents⟩
  refine h.put hx hst rfl hmirrors hframe hremoved ?_ fun a ha => (List.mem_filter.mp ha).1
  intro hmem
  exact absurd (of_decide_eq_true (List.mem_filter.mp hmem).2) (not_not.mpr rfl)

omit [DecidableEq ι] in
theorem Inv.doomed_shape (h : Inv t) (hx : t.conns[c]? = some x) (hdoomed : c ∈ t.doomed)
    (hconnecting : x.conn.state ≠ .kConnecting) :
    Shape x.conn .established ∨ Shape x.conn .closing := by
  obtain ⟨st, hshape, hmapped⟩ := h.shape c x hx
  have hst := hmapped hdoomed
  cases st with
  | accepted => exact absurd hshape.1 hconnecting
  | established => exact .inl hshape
  | closing => exact .inr hshape
  | removing => exact .inr hshape
  | _ => cases hst

theorem connectionDestroyed_closes {conn : TcpConnection} (h : Shape conn .established)
    (hconnected : conn.state = .kConnected) :
    Settles conn conn.connectionDestroyed ∧ Shape (settled conn.connectionDestroyed) .closing := by
  rw [TcpConnection.connectionDestroyed, if_pos hconnected]
  refine ⟨⟨rfl, rfl, .inr rfl⟩, rfl, ?_, rfl⟩
  exact nextState_of_none (show conn.channel.disableAll.state = .kAdded from h.2.1) rfl

theorem connectionDestroyed_skips {conn : TcpConnection} (h : conn.state ≠ .kConnected) :
    Settles conn conn.connectionDestroyed ∧ settled conn.connectionDestroyed = conn := by
  rw [TcpConnection.connectionDestroyed, if_neg h]
  exact ⟨⟨rfl, rfl, .inl ⟨rfl, rfl⟩⟩, rfl⟩

theorem connectionDestroyed_spec (h : Inv t) (hx : t.conns[c]? = some x) (hst : x.stage ≠ .freed)
    (hdoomed : c ∈ t.doomed) (hconnecting : x.conn.state ≠ .kConnecting)
    (hhalf : x.conn.state ≠ .kDisconnecting) (hmay : (t.handling x.loop).MayRemove c) :
    ∃ t', t.connectionDestroyed c x = some t' ∧ Inv t' := by
  obtain ⟨hsettles, hshape⟩ : Settles x.conn x.conn.connectionDestroyed ∧
      Shape (settled x.conn.connectionDestroyed) .closing := by
    rcases h.doomed_shape hx hdoomed hconnecting with hopen | hclosed
    · have hconnected : x.conn.state = .kConnected := hopen.1.resolve_right hhalf
      exact connectionDestroyed_closes hopen hconnected
    · have hstate : x.conn.state ≠ .kConnected := by
        rw [hclosed.1]
        decide
      obtain ⟨hsettles, hsame⟩ := connectionDestroyed_skips hstate
      exact ⟨hsettles, hsame.symm ▸ hclosed⟩
  obtain ⟨t₁, ht₁, hinv, hx₁, hhandling⟩ := finish_spec h hx hst hsettles hshape fun _ => rfl
  obtain ⟨t₂, ht₂, hinv₂⟩ := remove_spec hinv hx₁ hst hshape (by rw [hhandling]; exact hmay)
  refine ⟨_, ?_, hinv₂⟩
  rw [connectionDestroyed, ht₁, Option.bind_some, hx₁, Option.bind_some, ht₂, Option.map_some]

theorem connectionDestroyed_halfClosed (h : Inv t) (hx : t.conns[c]? = some x)
    (hst : x.stage ≠ .freed) (hdoomed : c ∈ t.doomed) (hhalf : x.conn.state = .kDisconnecting) :
    t.connectionDestroyed c x = none := by
  have hopen : Shape x.conn .established := by
    rcases h.doomed_shape hx hdoomed (by rw [hhalf]; decide) with hopen | hclosed
    · exact hopen
    · rw [hclosed.1] at hhalf
      cases hhalf
  obtain ⟨hsettles, hsame⟩ := connectionDestroyed_skips (by rw [hhalf]; decide)
  obtain ⟨t₁, ht₁, -, hx₁, -⟩ := finish_spec h hx hst hsettles (hsame.symm ▸ hopen) fun _ => rfl
  have hnone : (settled x.conn.connectionDestroyed).channel.isNoneEvent = false := by
    rw [hsame]
    exact isNoneEvent_eq_false hopen.2.2
  rw [connectionDestroyed, ht₁, Option.bind_some, hx₁, Option.bind_some, remove]
  simp only [hnone, Bool.false_eq_true, false_and, if_false, Option.map_none]

/-- An active channel that is not the current one fails the assertion of the loop, whatever the
functions before it do. -/
theorem connectionDestroyed_active (hx : t.conns[c]? = some x)
    (hmay : ¬(t.handling x.loop).MayRemove c) : t.connectionDestroyed c x = none := by
  rw [connectionDestroyed, Option.bind_eq_none_iff]
  intro t₁ ht₁
  rw [Option.bind_eq_none_iff]
  intro x₁ hx₁
  obtain ⟨u, -, rfl⟩ := Option.map_eq_some_iff.mp ht₁
  change (t.conns.set c _)[c]? = some x₁ at hx₁
  rw [getElem?_set_of_some hx, if_pos rfl, Option.some.injEq] at hx₁
  subst hx₁
  rw [remove, if_neg fun hand => hmay hand.2, Option.map_none]

theorem quiet_spec (h : Inv t) (hx : t.conns[c]? = some x) (hst : x.stage ≠ .freed)
    (hr : Quiet x.conn r) : ∃ t', t.finish c x r = some t' ∧ Inv t' := by
  obtain ⟨st, hshape, hmapped⟩ := h.shape c x hx
  obtain ⟨t', ht', hinv, -⟩ := finish_spec h hx hst hr.settles (hr.shape st hshape) hmapped
  exact ⟨t', ht', hinv⟩

theorem leads_spec (h : Inv t) (hx : t.conns[c]? = some x) (hst : x.stage ≠ .freed) {st : Stage}
    {tasks' : ℕ → List Task} {callbacks' : List Life} (hlead : Leads x.conn r st tasks' callbacks')
    (hmapped : st.mapped = true) : ∃ t', t.finish c x r = some t' ∧ Inv t' := by
  obtain ⟨t', ht', hinv, -⟩ := finish_spec h hx hst hlead.settles hlead.shape fun _ => hmapped
  exact ⟨t', ht', hinv⟩

omit [DecidableEq ι] in
theorem Inv.shape_of_connecting (h : Inv t) (hx : t.conns[c]? = some x)
    (hstate : x.conn.state = .kConnecting) : Shape x.conn .accepted := by
  obtain ⟨st, hshape, -⟩ := h.shape c x hx
  cases st with
  | accepted => exact hshape
  | _ =>
    have hnot := hshape.1
    rw [hstate] at hnot
    exact absurd hnot (by decide)

omit [DecidableEq ι] in
theorem Inv.shape_of_open (h : Inv t) (hx : t.conns[c]? = some x)
    (hopen : x.conn.state = .kConnected ∨ x.conn.state = .kDisconnecting) :
    Shape x.conn .established := by
  obtain ⟨st, hshape, -⟩ := h.shape c x hx
  cases st with
  | established => exact hshape
  | _ =>
    rw [hshape.1] at hopen
    exact absurd hopen (by decide)

omit [DecidableEq ι] in
theorem Inv.handle (h : Inv t) (handling : ι → Handling) : Inv { t with handling } :=
  ⟨h.registry, h.apart, h.told, h.freed, h.shape⟩

/-- Every function ends without a failure, unless it destroys a connection that cannot be
removed. -/
theorem run_spec (h : Inv t) (hx : t.conns[c]? = some x) (hfreed : .freed ∉ x.history)
    {f : Function} (hsuits : Suits t c x f) (hremovable : Removable t (.run c f)) :
    ∃ t', t.run c x f = some t' ∧ Inv t' := by
  have hst : x.stage ≠ .freed := fun hf => hfreed ((h.told c x hx).freed_iff.mpr hf)
  cases f with
  | connectionEstablished =>
    exact leads_spec h hx hst (connectionEstablished_leads (h.shape_of_connecting hx hsuits)) rfl
  | send data w => exact quiet_spec h hx hst (send_quiet x.conn data w)
  | sendInLoop data w => exact quiet_spec h hx hst (sendInThread_quiet hsuits.1 data w)
  | shutdown => exact quiet_spec h hx hst (shutdown_quiet x.conn)
  | handleWrite w =>
    obtain ⟨st, hshape, -⟩ := h.shape c x hx
    obtain ⟨r, hr, hquiet⟩ := handleWrite_quiet hsuits (open_of_isWriting hshape)
    simp only [run, hr, Option.bind_some]
    exact quiet_spec h hx hst hquiet
  | handleClose =>
    obtain ⟨r, hr, hlead⟩ := handleClose_leads (h.shape_of_open hx hsuits)
    simp only [run, hr, Option.bind_some]
    exact leads_spec h hx hst hlead rfl
  | connectionDestroyed =>
    obtain ⟨hhalf, hmay⟩ := hremovable x hx
    exact connectionDestroyed_spec h hx hst hsuits.2.1 hsuits.1 hhalf hmay

theorem step_spec (h : Inv t) {e : Call ι} (he : Possible t e) (hremovable : Removable t e) :
    ∃ t', step t e = some t' ∧ Inv t' := by
  cases e with
  | run c f =>
    obtain ⟨x, hx, hfreed, hsuits⟩ := he
    obtain ⟨t', ht', hinv⟩ := run_spec h hx hfreed hsuits hremovable
    exact ⟨t', by rw [step, hx, Option.bind_some, ht'], hinv⟩
  | _ => exact ⟨_, rfl, h.handle _⟩

theorem step_fails (h : Inv t) {e : Call ι} (he : Possible t e) (hremovable : ¬Removable t e) :
    step t e = none := by
  cases e with
  | run c f =>
    obtain ⟨x, hx, hfreed, hsuits⟩ := he
    have hst : x.stage ≠ .freed := fun hf => hfreed ((h.told c x hx).freed_iff.mpr hf)
    cases f with
    | connectionDestroyed =>
      rw [step, hx, Option.bind_some, run]
      by_cases hhalf : x.conn.state = .kDisconnecting
      · exact connectionDestroyed_halfClosed h hx hst hsuits.2.1 hhalf
      · refine connectionDestroyed_active hx fun hmay => hremovable ?_
        intro y hy
        cases hx.symm.trans hy
        exact ⟨hhalf, hmay⟩
    | _ => exact absurd trivial hremovable
  | _ => exact absurd trivial hremovable

theorem step_isSome_iff (h : Inv t) {e : Call ι} (he : Possible t e) :
    (step t e).isSome ↔ Removable t e := by
  by_cases hremovable : Removable t e
  · obtain ⟨t', ht', -⟩ := step_spec h he hremovable
    rw [ht']
    exact iff_of_true rfl hremovable
  · rw [step_fails h he hremovable]
    exact iff_of_false Bool.false_ne_true hremovable

theorem step_inv (h : Inv t) {e : Call ι} (he : Possible t e) {t' : Teardown ι}
    (ht' : step t e = some t') : Inv t' := by
  have hremovable : Removable t e := (step_isSome_iff h he).mp (by rw [ht']; rfl)
  obtain ⟨t'', ht'', hinv⟩ := step_spec h he hremovable
  cases ht'.symm.trans ht''
  exact hinv

instance decidableSuits (t : Teardown ι) (c : ℕ) (x : Connection ι) :
    ∀ f, Decidable (Suits t c x f)
  | .connectionEstablished => inferInstanceAs (Decidable (_ = _))
  | .send _ _ => inferInstanceAs (Decidable (WriteResult.Contract _ _))
  | .sendInLoop _ _ => inferInstanceAs (Decidable (_ ∧ WriteResult.Contract _ _))
  | .shutdown => inferInstanceAs (Decidable True)
  | .handleWrite _ => inferInstanceAs (Decidable (WriteResult.Contract _ _))
  | .handleClose => inferInstanceAs (Decidable (_ ∨ _))
  | .connectionDestroyed => inferInstanceAs (Decidable (_ ∧ _ ∧ (_ → _)))

instance decidablePossible (t : Teardown ι) : ∀ e, Decidable (Possible t e)
  | .poll _ _ => inferInstanceAs (Decidable (_ ∧ ∀ c ∈ _, ∃ x ∈ _, _))
  | .handleEvent _ _ => inferInstanceAs (Decidable (_ ∧ ∀ c' ∈ _, _))
  | .doPendingFunctors _ => inferInstanceAs (Decidable True)
  | .run _ _ => inferInstanceAs (Decidable (∃ x ∈ _, _))

omit [DecidableEq ι] in
instance decidableRemovable (t : Teardown ι) : ∀ e, Decidable (Removable t e)
  | .run _ .connectionDestroyed => inferInstanceAs (Decidable (∀ x ∈ t.conns[_]?, _))
  | .run _ .connectionEstablished => inferInstanceAs (Decidable True)
  | .run _ (.send _ _) => inferInstanceAs (Decidable True)
  | .run _ (.sendInLoop _ _) => inferInstanceAs (Decidable True)
  | .run _ .shutdown => inferInstanceAs (Decidable True)
  | .run _ (.handleWrite _) => inferInstanceAs (Decidable True)
  | .run _ .handleClose => inferInstanceAs (Decidable True)
  | .poll _ _ => inferInstanceAs (Decidable True)
  | .handleEvent _ _ => inferInstanceAs (Decidable True)
  | .doPendingFunctors _ => inferInstanceAs (Decidable True)

/-- While a server is destroyed, the assertions of `TcpConnection`, of `Channel::remove`, of
`EventLoop::removeChannel` and of the poller hold exactly if every connection can be removed when
its `connectionDestroyed` runs. -/
theorem safe_iff_removable {cfg : Config ι} {before : List (Event ι)}
    (hbefore : Along (TcpServer.step cfg) (TcpServer.Possible cfg) State.init before) {s : State ι}
    (hrun : runFrom (TcpServer.step cfg) State.init before = some s) (thread : Option ι)
    {after : List (Call ι)} (hafter : Along step Possible (s.teardown thread) after) :
    Along step (fun t e => (step t e).isSome) (s.teardown thread) after ↔
      Along step Removable (s.teardown thread) after := by
  obtain ⟨s', hs', hinv⟩ := run_inv hbefore
  cases hrun.symm.trans hs'
  have hkeeps : ∀ (t : Teardown ι) (e : Call ι) (t' : Teardown ι) (Q : Teardown ι → Call ι → Prop),
      Inv t → Possible t e ∧ Q t e → step t e = some t' → Inv t' :=
    fun t e t' Q h he ht' => step_inv h he.1 ht'
  constructor
  · intro hsafe
    apply along_of_invariant (I := Inv) _ (fun t e t' => hkeeps t e t' _)
      (inv_teardown hinv thread) (along_and hafter hsafe)
    intro t e h he
    exact (step_isSome_iff h he.1).mp he.2
  · intro hopen
    apply along_of_invariant (I := Inv) _ (fun t e t' => hkeeps t e t' _)
      (inv_teardown hinv thread) (along_and hafter hopen)
    intro t e h he
    exact (step_isSome_iff h he.1).mpr he.2

/-- A client connects, and the user gets the connection. -/
def openRun : List (Event (Fin 2)) :=
  let base := sampleConfig.baseLoop
  let loop := Fin.last 1
  [.poll base [.accept], .run base (sampleKernel 7), .doPendingFunctors base, .iterationEnds base,
    .poll loop [], .doPendingFunctors loop, .run loop (sampleKernel 0)]

/-- The io loop still sends and reads, and then destroys the connection. -/
def openCalls : List (Call (Fin 2)) :=
  [.doPendingFunctors (Fin.last 1), .run 0 (.send [1] ⟨0, .EWOULDBLOCK⟩), .poll (Fin.last 1) [0],
    .handleEvent (Fin.last 1) (some 0), .run 0 (.handleWrite ⟨1, .EWOULDBLOCK⟩),
    .doPendingFunctors (Fin.last 1), .run 0 .connectionDestroyed]

/-- The user shuts the connection down in the callback. -/
def halfClosingRun : List (Event (Fin 2)) := openRun ++ [.shutdown (Fin.last 1) 0]

theorem openRun_safe :
    ∃ s, runFrom (TcpServer.step sampleConfig) State.init openRun = some s ∧
      Along step (fun t e => (step t e).isSome) (s.teardown (some 0)) openCalls := by
  have hsome : (runFrom (TcpServer.step sampleConfig) State.init openRun).isSome := by
    decide +kernel
  have hafter : ∀ s ∈ runFrom (TcpServer.step sampleConfig) State.init openRun,
      Along step Possible (s.teardown (some 0)) openCalls ∧
        Along step Removable (s.teardown (some 0)) openCalls := by
    decide +kernel
  obtain ⟨s, hrun⟩ := Option.isSome_iff_exists.mp hsome
  obtain ⟨hpossible, hremovable⟩ := hafter s hrun
  exact ⟨s, hrun,
    (safe_iff_removable (by decide +kernel) hrun (some 0) hpossible).mpr hremovable⟩

/-- The destruction of a half-closed connection fails. -/
theorem halfClosed_not_safe :
    Along (TcpServer.step sampleConfig) (TcpServer.Possible sampleConfig) State.init
        halfClosingRun ∧
      ∃ s ∈ runFrom (TcpServer.step sampleConfig) State.init halfClosingRun,
        Along step Possible (s.teardown (some 0))
            [.doPendingFunctors (Fin.last 1), .run 0 .connectionDestroyed] ∧
          ¬Along step (fun t e => (step t e).isSome) (s.teardown (some 0))
            [.doPendingFunctors (Fin.last 1), .run 0 .connectionDestroyed] := by
  decide +kernel

/-- A server without io threads, whose loop is about to run a timer and then reads from the
connection. -/
def timerRun : List (Event (Fin 2)) :=
  let base := sampleConfig.baseLoop
  [.poll base [.accept], .run base (sampleKernel 7), .run base (sampleKernel 0),
    .run base (sampleKernel 0), .doPendingFunctors base, .iterationEnds base,
    .poll base [.other, .connection 7 Events.EPOLLIN]]

/-- The callback of the timer destroys the server, while the connection is active. -/
example : Along (TcpServer.step ⟨0, []⟩) (TcpServer.Possible ⟨0, []⟩) State.init timerRun ∧
    ∃ s ∈ runFrom (TcpServer.step ⟨0, []⟩) State.init timerRun,
      Along step Possible (s.teardown (some 0)) [.run 0 .connectionDestroyed] ∧
        ¬Along step (fun t e => (step t e).isSome) (s.teardown (some 0))
          [.run 0 .connectionDestroyed] := by
  decide +kernel

end Teardown

end TcpServer

end Matelib
