import Matelib.TcpServer

/-!
# The life of a connection

A connection passes through the stages of its life in one order. The milestones in its history tell
the stage; the stage tells the state of the connection and of its channel, and whether the server's
map has it. `Books` ties the connections to the pollers and to the map.
-/

namespace Matelib

namespace TcpServer

open TcpConnection

inductive Stage where
  | accepted
  | established
  | closing
  | removing
  | erased
  | destroying
  | removed
  | freed
  deriving DecidableEq

def course : List Life :=
  [.established, .callback true, .handleClose, .callback false, .cleanup, .erased, .destroyed true,
    .removed, .freed]

def Stage.milestones : Stage → ℕ
  | .accepted => 0
  | .established => 2
  | .closing => 4
  | .removing => 5
  | .erased => 6
  | .destroying => 7
  | .removed => 8
  | .freed => 9

def Life.stage : Life → Option Stage
  | .established => some .established
  | .handleClose => some .closing
  | .cleanup => some .removing
  | .erased => some .erased
  | .destroyed _ => some .destroying
  | .removed => some .removed
  | .freed => some .freed
  | _ => none

def stageOf (history : List Life) : Stage := (history.filterMap Life.stage).getLast?.getD .accepted

theorem stageOf_append (history life : List Life) :
    stageOf (history ++ life) = (life.filterMap Life.stage).getLast?.getD (stageOf history) := by
  rw [stageOf, stageOf, List.filterMap_append, List.getLast?_append]
  cases (life.filterMap Life.stage).getLast? with
  | none => rfl
  | some st => rfl

/-- Epoll events come after the establishment, and the milestones are those up to the stage. -/
structure Told (history : List Life) : Prop where
  first : history = [] ∨ history.head? = some .established
  milestones : history.filter (· ≠ .event) = course.take (stageOf history).milestones

theorem told_nil : Told [] := ⟨.inl rfl, rfl⟩

theorem Told.on_course {history : List Life} (h : Told history) :
    history.filter (· ≠ .event) <+: course := by
  rw [h.milestones]
  exact List.take_prefix _ _

theorem Told.ne_nil {history : List Life} (h : Told history) (hst : stageOf history ≠ .accepted) :
    history ≠ [] := by
  rintro rfl
  exact hst rfl

theorem Told.head_append {history : List Life} (h : Told history) (hne : history ≠ [])
    (life : List Life) : (history ++ life).head? = some .established := by
  rcases h.first with hnil | hhead
  · exact absurd hnil hne
  · rw [List.head?_append, hhead]
    rfl

theorem Told.event {history : List Life} (h : Told history) (hst : stageOf history ≠ .accepted) :
    Told (history ++ [.event]) where
  first := .inr (h.head_append (h.ne_nil hst) _)
  milestones := by
    have hsame : stageOf (history ++ [.event]) = stageOf history := stageOf_append _ _
    rw [hsame, List.filter_append, h.milestones]
    exact List.append_nil _

/-- The next milestones. -/
structure Next (st : Stage) (life : List Life) (st' : Stage) : Prop where
  stage : (life.filterMap Life.stage).getLast? = some st'
  milestones : course.take st.milestones ++ life.filter (· ≠ .event) = course.take st'.milestones
  first : st = .accepted → life.head? = some .established

theorem Told.next {history life : List Life} {st st' : Stage} (h : Told history)
    (hst : stageOf history = st) (hnext : Next st life st') :
    Told (history ++ life) ∧ stageOf (history ++ life) = st' := by
  have hstage : stageOf (history ++ life) = st' := by
    rw [stageOf_append, hnext.stage]
    rfl
  refine ⟨⟨?_, ?_⟩, hstage⟩
  · by_cases hnil : history = []
    · subst hnil
      exact .inr (hnext.first hst.symm)
    · exact .inr (h.head_append hnil _)
  · rw [hstage, ← hnext.milestones, ← hst, ← h.milestones, List.filter_append]

theorem Told.mem_iff {history : List Life} (h : Told history) {life : Life}
    (hlife : life ≠ .event) :
    life ∈ history ↔ life ∈ course.take (stageOf history).milestones := by
  rw [← h.milestones, List.mem_filter, decide_eq_true hlife]
  simp only [and_true]

theorem Told.freed_iff {history : List Life} (h : Told history) :
    .freed ∈ history ↔ stageOf history = .freed := by
  rw [h.mem_iff (by decide)]
  cases stageOf history <;> decide

theorem Told.removed_iff {history : List Life} (h : Told history) :
    .removed ∈ history ↔ stageOf history = .removed ∨ stageOf history = .freed := by
  rw [h.mem_iff (by decide)]
  cases stageOf history <;> decide

theorem Told.erased_iff {history : List Life} (h : Told history) :
    .erased ∈ history ↔ 6 ≤ (stageOf history).milestones := by
  rw [h.mem_iff (by decide)]
  cases stageOf history <;> decide

variable {ι : Type*}

def Connection.stage (x : Connection ι) : Stage := stageOf x.history

def Shape (conn : TcpConnection) : Stage → Prop
  | .accepted => conn.state = .kConnecting ∧ conn.channel = .new conn.channel.fd
  | .established =>
    (conn.state = .kConnected ∨ conn.state = .kDisconnecting) ∧ conn.channel.state = .kAdded ∧
      conn.channel.events &&& Channel.kReadEvent = Channel.kReadEvent
  | .closing | .removing | .erased | .destroying =>
    conn.state = .kDisconnected ∧ conn.channel.state = .kDeleted ∧ conn.channel.events = 0
  | .removed | .freed =>
    conn.state = .kDisconnected ∧ conn.channel.state = .kNew ∧ conn.channel.events = 0

structure Connection.Sound (x : Connection ι) : Prop where
  told : Told x.history
  shape : Shape x.conn x.stage

def Stage.mapped : Stage → Bool
  | .accepted => true
  | .established => true
  | .closing => true
  | .removing => true
  | _ => false

theorem Connection.Sound.isNew {x : Connection ι} (h : x.Sound) (hst : x.stage = .freed) :
    x.conn.channel.state = .kNew := by
  have hshape := h.shape
  rw [hst] at hshape
  exact hshape.2.1

theorem Connection.Sound.not_freed {x : Connection ι} (h : x.Sound) (hst : x.stage ≠ .freed) :
    .freed ∉ x.history := fun hmem => hst (h.told.freed_iff.mp hmem)

/-- Connection `c` has the descriptor `fd` and the loop `l`, and its channel satisfies `Q`. -/
def Entry (conns : List (Connection ι)) (Q : Channel → Prop) (l : ι) (fd c : ℕ) : Prop :=
  ∃ x, conns[c]? = some x ∧ x.loop = l ∧ x.fd = fd ∧ Q x.conn.channel

/-- The pollers know of the connections' channels what these say themselves. -/
structure Registry (conns : List (Connection ι)) (poller : ι → EpollPoller ℕ) : Prop where
  channels : ∀ l fd c, (poller l).channels.find fd = some c ↔
    Entry conns (fun channel => channel.state ≠ .kNew) l fd c
  interest : ∀ l fd c events, (poller l).interest.find fd = some (c, events) ↔
    Entry conns (fun channel => channel.state = .kAdded ∧ channel.events = events) l fd c

theorem registry_nil : Registry ([] : List (Connection ι)) fun _ => .empty where
  channels _ _ _ := by simp [Entry, EpollPoller.empty]
  interest _ _ _ _ := by simp [Entry, EpollPoller.empty]

theorem getElem?_set_of_some {α : Type*} {l : List α} {i : ℕ} {a : α} (h : l[i]? = some a) (b : α)
    (j : ℕ) : (l.set i b)[j]? = if i = j then some b else l[j]? := by
  have hi : i < l.length := (List.getElem?_eq_some_iff.mp h).1
  rw [List.getElem?_set, if_pos hi]

variable {conns : List (Connection ι)} {poller poller' : ι → EpollPoller ℕ} {c : ℕ}
  {x x' : Connection ι}

/-- The other connections with the descriptor of `x` are not in a poller. -/
def Alone (conns : List (Connection ι)) (c : ℕ) (x : Connection ι) : Prop :=
  ∀ c' y, conns[c']? = some y → y.fd = x.fd → c' ≠ c → y.conn.channel.state = .kNew

theorem ne_kNew_of_kAdded {events : Events} (channel : Channel)
    (h : channel.state = .kAdded ∧ channel.events = events) : channel.state ≠ .kNew := by
  rw [h.1]
  decide

theorem entry_here {Q : Channel → Prop} (hQ : ∀ channel, Q channel → channel.state ≠ .kNew)
    (hx : conns[c]? = some x) (halone : Alone conns c x) {c' : ℕ} :
    Entry conns Q x.loop x.fd c' ↔ c' = c ∧ Q x.conn.channel := by
  constructor
  · rintro ⟨y, hy, -, hfd, hq⟩
    by_cases heq : c' = c
    · subst heq
      rw [hx, Option.some.injEq] at hy
      subst hy
      exact ⟨rfl, hq⟩
    · exact absurd (halone c' y hy hfd heq) (hQ _ hq)
  · rintro ⟨rfl, hq⟩
    exact ⟨x, hx, rfl, rfl, hq⟩

theorem entry_elsewhere {Q : Channel → Prop} (hx : conns[c]? = some x) (hloop : x'.loop = x.loop)
    (hfd : x'.fd = x.fd) {l : ι} {fd c' : ℕ} (hne : ¬(x.loop = l ∧ x.fd = fd)) :
    Entry (conns.set c x') Q l fd c' ↔ Entry conns Q l fd c' := by
  unfold Entry
  rw [getElem?_set_of_some hx]
  by_cases heq : c = c'
  · subst heq
    rw [if_pos rfl]
    constructor
    · rintro ⟨y, hy, hyl, hyfd, -⟩
      cases hy
      exact absurd ⟨hloop.symm.trans hyl, hfd.symm.trans hyfd⟩ hne
    · rintro ⟨y, hy, hyl, hyfd, -⟩
      rw [hx, Option.some.injEq] at hy
      subst hy
      exact absurd ⟨hyl, hyfd⟩ hne
  · rw [if_neg heq]

theorem Alone.set (halone : Alone conns c x) (hx : conns[c]? = some x) (hfd : x'.fd = x.fd) :
    Alone (conns.set c x') c x' := by
  intro c' y hy hyfd hne
  rw [getElem?_set_of_some hx, if_neg (Ne.symm hne)] at hy
  exact halone c' y hy (hyfd.trans hfd) hne

theorem option_eq_ite {α : Type*} {o : Option α} {a : α} {P : Prop} [Decidable P]
    (h : ∀ b, o = some b ↔ b = a ∧ P) : o = if P then some a else none := by
  split_ifs with hP
  · exact (h a).mpr ⟨rfl, hP⟩
  · apply Option.eq_none_iff_forall_not_mem.mpr
    intro b hb
    exact hP ((h b).mp hb).2

theorem Registry.mirrors (h : Registry conns poller) (hx : conns[c]? = some x)
    (halone : Alone conns c x) :
    (poller x.loop).Mirrors c x.fd x.conn.channel.state x.conn.channel.events where
  channels := by
    rw [← ite_not]
    apply option_eq_ite
    intro c'
    rw [h.channels, entry_here (fun _ hq => hq) hx halone]
  interest := by
    apply option_eq_ite
    rintro ⟨c', events⟩
    rw [h.interest, entry_here ne_kNew_of_kAdded hx halone, Prod.mk.injEq]
    tauto

theorem Registry.set (h : Registry conns poller) (hx : conns[c]? = some x)
    (halone : Alone conns c x) (hloop : x'.loop = x.loop) (hfd : x'.fd = x.fd)
    (hmirrors : (poller' x.loop).Mirrors c x.fd x'.conn.channel.state x'.conn.channel.events)
    (hframe : (poller x.loop).Frame (poller' x.loop) x.fd)
    (hother : ∀ l, l ≠ x.loop → poller' l = poller l) :
    Registry (conns.set c x') poller' := by
  have hx' : (conns.set c x')[c]? = some x' := by
    rw [getElem?_set_of_some hx, if_pos rfl]
  have hhere : ∀ {Q : Channel → Prop}, (∀ channel, Q channel → channel.state ≠ .kNew) →
      ∀ {c'}, Entry (conns.set c x') Q x.loop x.fd c' ↔ c' = c ∧ Q x'.conn.channel := by
    intro Q hQ c'
    rw [← hloop, ← hfd]
    exact entry_here hQ hx' (halone.set hx hfd)
  constructor
  · intro l fd c'
    by_cases hl : x.loop = l
    · subst hl
      by_cases hf : x.fd = fd
      · subst hf
        rw [hhere (fun _ hq => hq), hmirrors.channels]
        split_ifs with hnew
        · simp [hnew]
        · simp [hnew, eq_comm]
      · rw [entry_elsewhere hx hloop hfd (fun hboth => hf hboth.2), hframe.channels fd hf,
          h.channels]
    · rw [entry_elsewhere hx hloop hfd (fun hboth => hl hboth.1), hother l (Ne.symm hl),
        h.channels]
  · intro l fd c' events
    by_cases hl : x.loop = l
    · subst hl
      by_cases hf : x.fd = fd
      · subst hf
        rw [hhere ne_kNew_of_kAdded, hmirrors.interest]
        split_ifs with hadded
        · simp [hadded, eq_comm]
        · simp [hadded]
      · rw [entry_elsewhere hx hloop hfd (fun hboth => hf hboth.2), hframe.interest fd hf,
          h.interest]
    · rw [entry_elsewhere hx hloop hfd (fun hboth => hl hboth.1), hother l (Ne.symm hl),
        h.interest]

/-- The map has the connections up to their erasure under their names. -/
def Mapped (conns : List (Connection ι)) (connectionMap : OrderedMap Bytes ℕ) : Prop :=
  ∀ name c, connectionMap.find name = some c ↔
    ∃ x, conns[c]? = some x ∧ x.name = name ∧ x.stage.mapped = true

/-- The name shows the descriptor, which is an `int`. -/
def Connection.Named (x : Connection ι) : Prop :=
  x.fd < 2 ^ 31 ∧ ∃ id localAddr peerAddr, x.name = connName id localAddr x.fd peerAddr

def Apart (conns : List (Connection ι)) : Prop :=
  ∀ (c c' : ℕ) (x x' : Connection ι), conns[c]? = some x → conns[c']? = some x' → x.stage ≠ .freed →
    x'.stage ≠ .freed → x.fd = x'.fd → c = c'

structure Books (conns : List (Connection ι)) (poller : ι → EpollPoller ℕ)
    (connectionMap : OrderedMap Bytes ℕ) : Prop where
  sound : ∀ (c : ℕ) (x : Connection ι), conns[c]? = some x → x.Sound
  named : ∀ (c : ℕ) (x : Connection ι), conns[c]? = some x → x.Named
  apart : Apart conns
  registry : Registry conns poller
  mapped : Mapped conns connectionMap

variable {connectionMap : OrderedMap Bytes ℕ}

theorem Books.alone (h : Books conns poller connectionMap) (hx : conns[c]? = some x)
    (hst : x.stage ≠ .freed) : Alone conns c x := by
  intro c' y hy hfd hne
  by_cases hfreed : y.stage = .freed
  · exact (h.sound c' y hy).isNew hfreed
  · exact absurd (h.apart c' c y x hy hx hfreed hst hfd) hne

theorem Apart.set (h : Apart conns) (hx : conns[c]? = some x) (hfd : x'.fd = x.fd)
    (hfreed : x'.stage ≠ .freed → x.stage ≠ .freed) : Apart (conns.set c x') := by
  intro i j y z hy hz hyst hzst hfds
  rw [getElem?_set_of_some hx] at hy hz
  split_ifs at hy hz with hi hj hj
  · rw [← hi, ← hj]
  · cases hy
    rw [← hi]
    exact h c j x z hx hz (hfreed hyst) hzst (hfd.symm.trans hfds)
  · cases hz
    rw [← hj]
    exact h i c y x hy hx hyst (hfreed hzst) (hfds.trans hfd)
  · exact h i j y z hy hz hyst hzst hfds

theorem Mapped.set (h : Mapped conns connectionMap) (hx : conns[c]? = some x)
    (hname : x'.name = x.name) (hmapped : x'.stage.mapped = x.stage.mapped) :
    Mapped (conns.set c x') connectionMap := by
  intro name c'
  rw [h, getElem?_set_of_some hx]
  by_cases heq : c = c'
  · subst heq
    simp only [if_true, hx, Option.some.injEq, exists_eq_left', hname, hmapped]
  · simp only [if_neg heq]

theorem Mapped.erase (h : Mapped conns connectionMap) (hx : conns[c]? = some x)
    (hmapped : x.stage.mapped = true) (hmapped' : x'.stage.mapped = false) :
    Mapped (conns.set c x') (connectionMap.erase x.name) := by
  intro name c'
  rw [OrderedMap.find_erase, getElem?_set_of_some hx]
  have hhere : connectionMap.find x.name = some c := (h ..).mpr ⟨x, hx, rfl, hmapped⟩
  by_cases heq : c = c'
  · subst heq
    simp only [if_true, Option.some.injEq, exists_eq_left', hmapped', Bool.false_eq_true, and_false,
      iff_false]
    split_ifs with hname
    · exact not_false
    · intro hf
      obtain ⟨y, hy, hyname, -⟩ := (h ..).mp hf
      rw [hx, Option.some.injEq] at hy
      subst hy
      exact hname hyname
  · rw [if_neg heq]
    split_ifs with hname
    · subst hname
      simp only [false_iff]
      intro hf
      have hthere := (h ..).mpr hf
      rw [hhere, Option.some.injEq] at hthere
      exact heq hthere
    · exact h name c'

theorem Books.set (h : Books conns poller connectionMap) (hx : conns[c]? = some x)
    (hst : x.stage ≠ .freed) (hloop : x'.loop = x.loop) (hname : x'.name = x.name)
    (hfd : x'.fd = x.fd) (hsound : x'.Sound) {connectionMap' : OrderedMap Bytes ℕ}
    (hmapped : Mapped (conns.set c x') connectionMap')
    (hmirrors : (poller' x.loop).Mirrors c x.fd x'.conn.channel.state x'.conn.channel.events)
    (hframe : (poller x.loop).Frame (poller' x.loop) x.fd)
    (hother : ∀ l, l ≠ x.loop → poller' l = poller l) :
    Books (conns.set c x') poller' connectionMap' where
  sound c' y hy := by
    rw [getElem?_set_of_some hx] at hy
    split_ifs at hy
    · cases hy
      exact hsound
    · exact h.sound c' y hy
  named c' y hy := by
    rw [getElem?_set_of_some hx] at hy
    split_ifs at hy
    · cases hy
      have hnamed := h.named c x hx
      rwa [Connection.Named, hfd, hname]
    · exact h.named c' y hy
  apart := h.apart.set hx hfd fun _ => hst
  registry := h.registry.set hx (h.alone hx hst) hloop hfd hmirrors hframe hother
  mapped := hmapped

theorem Books.add (h : Books conns poller connectionMap) (hx : conns[c]? = some x)
    (hst : x.stage ≠ .freed) {life : List Life} (hsound : (x.add life).Sound)
    {connectionMap' : OrderedMap Bytes ℕ}
    (hmapped : Mapped (conns.set c (x.add life)) connectionMap') :
    Books (conns.set c (x.add life)) poller connectionMap' :=
  h.set hx hst (show (x.add life).loop = x.loop from rfl) rfl rfl hsound hmapped
    (h.registry.mirrors hx (h.alone hx hst)) (EpollPoller.Frame.refl _ _) fun _ _ => rfl

theorem Registry.close_eq (h : Registry conns poller) (hx : conns[c]? = some x)
    (halone : Alone conns c x) (hnew : x.conn.channel.state = .kNew) (l : ι) :
    (poller l).close x.fd = poller l := by
  have hnone : (poller l).interest.find x.fd = none := by
    by_contra hne
    obtain ⟨⟨c', events⟩, hc'⟩ := Option.ne_none_iff_exists'.mp hne
    obtain ⟨y, hy, -, hfd, hadded, -⟩ := (h.interest ..).mp hc'
    by_cases heq : c' = c
    · subst heq
      rw [hx, Option.some.injEq] at hy
      subst hy
      rw [hnew] at hadded
      cases hadded
    · rw [halone c' y hy hfd heq] at hadded
      cases hadded
  have hsame : (poller l).interest.erase x.fd = (poller l).interest := by
    apply OrderedMap.ext_find
    intro fd
    rw [OrderedMap.find_erase]
    split_ifs with heq
    · rw [← heq, hnone]
    · rfl
  rw [EpollPoller.close, hsame]

theorem Books.find_connName (h : Books conns poller connectionMap) {fd : ℕ} (hfd : fd < 2 ^ 31)
    (hclosed : ∀ x ∈ conns, .freed ∈ x.history ∨ x.fd ≠ fd) (id : ℕ)
    (localAddr peerAddr : InetAddress) :
    connectionMap.find (connName id localAddr fd peerAddr) = none := by
  apply Option.eq_none_iff_forall_not_mem.mpr
  intro c hc
  obtain ⟨y, hy, hname, hmapped⟩ := (h.mapped ..).mp hc
  obtain ⟨hyfd, id', localAddr', peerAddr', hname'⟩ := h.named c y hy
  rcases hclosed y (List.mem_of_getElem? hy) with hfreed | hne
  · rw [Connection.stage, (h.sound c y hy).told.freed_iff.mp hfreed] at hmapped
    cases hmapped
  · exact hne (connName_connfd hyfd hfd (hname'.symm.trans hname))

/-- A new connection on a descriptor that was closed. Its name is not in the map, since a name shows
the descriptor. -/
theorem Books.accept (h : Books conns poller connectionMap) {fd : ℕ} (hfd : fd < 2 ^ 31)
    (hclosed : ∀ x ∈ conns, .freed ∈ x.history ∨ x.fd ≠ fd) (ioLoop : ι) (id : ℕ)
    (localAddr peerAddr : InetAddress) :
    Books (conns ++ [⟨ioLoop, connName id localAddr fd peerAddr, .new fd, []⟩]) poller
      (connectionMap.insert (connName id localAddr fd peerAddr) conns.length) := by
  have hfresh : ∀ {c : ℕ} {y : Connection ι}, conns[c]? = some y → y.stage ≠ .freed →
      y.fd ≠ fd := by
    intro c y hy hst
    rcases hclosed y (List.mem_of_getElem? hy) with hfreed | hne
    · exact absurd ((h.sound c y hy).told.freed_iff.mp hfreed) hst
    · exact hne
  have hentry : ∀ {Q : Channel → Prop}, ¬Q (.new fd) → ∀ {l fd' c'},
      Entry (conns ++ [⟨ioLoop, connName id localAddr fd peerAddr, .new fd, []⟩]) Q l fd' c' ↔
        Entry conns Q l fd' c' := by
    intro Q hQ l fd' c'
    unfold Entry
    simp only [Segment.getElem?_concat_eq_some]
    constructor
    · rintro ⟨y, hy | ⟨-, rfl⟩, hrest⟩
      · exact ⟨y, hy, hrest⟩
      · exact absurd hrest.2.2 hQ
    · rintro ⟨y, hy, hrest⟩
      exact ⟨y, .inl hy, hrest⟩
  constructor
  · intro c y hy
    rcases Segment.getElem?_concat_eq_some.mp hy with hy | ⟨-, rfl⟩
    · exact h.sound c y hy
    · exact ⟨told_nil, rfl, rfl⟩
  · intro c y hy
    rcases Segment.getElem?_concat_eq_some.mp hy with hy | ⟨-, rfl⟩
    · exact h.named c y hy
    · exact ⟨hfd, id, localAddr, peerAddr, rfl⟩
  · intro c c' y y' hy hy' hst hst' hfds
    rcases Segment.getElem?_concat_eq_some.mp hy with hy | ⟨hc, rfl⟩
    · rcases Segment.getElem?_concat_eq_some.mp hy' with hy' | ⟨hc', rfl⟩
      · exact h.apart c c' y y' hy hy' hst hst' hfds
      · exact absurd hfds (hfresh hy hst)
    · rcases Segment.getElem?_concat_eq_some.mp hy' with hy' | ⟨hc', rfl⟩
      · exact absurd hfds.symm (hfresh hy' hst')
      · rw [hc, hc']
  · constructor
    · intro l fd' c'
      rw [hentry (not_not.mpr rfl), h.registry.channels]
    · intro l fd' c' events
      rw [hentry (fun hf => nomatch hf.1), h.registry.interest]
  · intro name c
    rw [OrderedMap.find_insert]
    simp only [Segment.getElem?_concat_eq_some]
    split_ifs with hname
    · subst hname
      rw [Option.some.injEq]
      constructor
      · rintro rfl
        exact ⟨_, .inr ⟨rfl, rfl⟩, rfl, rfl⟩
      · rintro ⟨y, hy | ⟨hc, -⟩, hyname, hmapped⟩
        · have hfind := (h.mapped ..).mpr ⟨y, hy, hyname, hmapped⟩
          rw [h.find_connName hfd hclosed] at hfind
          cases hfind
        · exact hc.symm
    · rw [h.mapped]
      constructor
      · rintro ⟨y, hy, hrest⟩
        exact ⟨y, .inl hy, hrest⟩
      · rintro ⟨y, hy | ⟨-, rfl⟩, hyname, hmapped⟩
        · exact ⟨y, hy, hyname, hmapped⟩
        · exact absurd hyname hname

end TcpServer

end Matelib
