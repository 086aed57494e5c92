import Matelib.ServerLifecycle

/-!
# The names in the map of a server

The number of a connection wraps, and its name is cut. But the name shows the descriptor, which no
other open connection has, so the map never loses a connection to another one of the same name.
-/

namespace Matelib

namespace TcpServer

open TcpConnection Transition

variable {ι : Type*}

def State.Registered (s : State ι) (c : ℕ) : Prop := ∃ name, s.connectionMap.find name = some c

theorem Books.name_unique {conns : List (Connection ι)} {poller : ι → EpollPoller ℕ}
    {connectionMap : OrderedMap Bytes ℕ} (h : Books conns poller connectionMap) {c c' : ℕ}
    {x x' : Connection ι} (hx : conns[c]? = some x) (hx' : conns[c']? = some x')
    (hlive : .freed ∉ x.history) (hlive' : .freed ∉ x'.history) (hname : x.name = x'.name) :
    c = c' := by
  obtain ⟨hfd, id, localAddr, peerAddr, hshows⟩ := h.named c x hx
  obtain ⟨hfd', id', localAddr', peerAddr', hshows'⟩ := h.named c' x' hx'
  have hfds := connName_connfd hfd hfd' (hshows.symm.trans (hname.trans hshows'))
  apply h.apart c c' x x' hx hx' _ _ hfds
  · exact fun hst => hlive ((h.sound c x hx).told.freed_iff.mpr hst)
  · exact fun hst => hlive' ((h.sound c' x' hx').told.freed_iff.mpr hst)

theorem Books.find_live {conns : List (Connection ι)} {poller : ι → EpollPoller ℕ}
    {connectionMap : OrderedMap Bytes ℕ} (h : Books conns poller connectionMap) {name : Bytes}
    {c : ℕ} (hfind : connectionMap.find name = some c) :
    ∃ x, conns[c]? = some x ∧ x.name = name ∧ .freed ∉ x.history := by
  obtain ⟨x, hx, hname, hmapped⟩ := (h.mapped ..).mp hfind
  refine ⟨x, hx, hname, (h.sound c x hx).not_freed ?_⟩
  intro hst
  rw [hst] at hmapped
  cases hmapped

variable [DecidableEq ι] {cfg : Config ι} {s s' : State ι} {l : ι} {c : ℕ}

@[simp] theorem connectionMap_runInLoop (s : State ι) (l target : ι) (task : Task) :
    (s.runInLoop l target task).connectionMap = s.connectionMap := by
  unfold State.runInLoop
  split_ifs
  · rfl
  · rfl

theorem handleConnection_registers (h : Inv cfg s none) {k : Kernel}
    (hk : Answers s k .handleConnection) {fd : ℕ} {localAddr peerAddr : InetAddress}
    (haccepted : k.accepted = some (fd, localAddr, peerAddr))
    (hrun : handleConnection cfg s l k.accepted = some s') :
    s.connectionMap.find (connName s.nextConnId localAddr fd peerAddr) = none ∧
      ∀ c, s'.Registered c ↔ s.Registered c ∨ c = s.conns.length := by
  obtain ⟨hfd, hclosed⟩ := hk _ haccepted
  have hnone := h.books.find_connName hfd hclosed s.nextConnId localAddr peerAddr
  refine ⟨hnone, ?_⟩
  unfold handleConnection at hrun
  rw [haccepted] at hrun
  split_ifs at hrun
  obtain ⟨⟨ioLoop, next⟩, -, rfl⟩ := Option.map_eq_some_iff.mp hrun
  intro c
  simp only [State.Registered, connectionMap_runInLoop, OrderedMap.find_insert]
  constructor
  · rintro ⟨name, hname⟩
    split_ifs at hname
    · exact .inr (Option.some.inj hname).symm
    · exact .inl ⟨name, hname⟩
  · rintro (⟨name, hname⟩ | rfl)
    · refine ⟨name, ?_⟩
      rw [if_neg ?_]
      · exact hname
      · rintro rfl
        cases hnone.symm.trans hname
    · exact ⟨_, if_pos rfl⟩

theorem removeConnectionInLoop_erases (h : Inv cfg s (some c))
    (hfits : Fits cfg s.conns l (.removeConnectionInLoop c))
    (hrun : removeConnectionInLoop cfg s l c = some s') :
    s.Registered c ∧ ∀ c', s'.Registered c' ↔ s.Registered c' ∧ c' ≠ c := by
  obtain ⟨x, hx, -, hst⟩ := hfits.suits c (.inl rfl)
  have hfind : s.connectionMap.find x.name = some c :=
    (h.books.mapped ..).mpr ⟨x, hx, rfl, by rw [hst]; rfl⟩
  refine ⟨⟨x.name, hfind⟩, ?_⟩
  rw [removeConnectionInLoop] at hrun
  split_ifs at hrun
  obtain ⟨y, hy, rfl⟩ := Option.map_eq_some_iff.mp hrun
  have hyx : y = x := by
    rw [State.deref, hx] at hy
    simp only at hy
    split_ifs at hy
    exact (Option.some.inj hy).symm
  subst hyx
  intro c'
  simp only [State.Registered, State.queueInLoop, State.setLoop, OrderedMap.find_erase]
  constructor
  · rintro ⟨name, hname⟩
    split_ifs at hname with hne
    refine ⟨⟨name, hname⟩, ?_⟩
    rintro rfl
    obtain ⟨z, hz, hzname, -⟩ := h.books.find_live hname
    cases hx.symm.trans hz
    exact hne hzname
  · rintro ⟨⟨name, hname⟩, hother⟩
    refine ⟨name, ?_⟩
    rw [if_neg ?_]
    · exact hname
    · rintro rfl
      exact hother (Option.some.inj (hname.symm.trans hfind))

/-- However many connections come and go, those that are not freed have different names. The map
has them under these names, and it gets a new connection without losing another, and loses a
connection that is removed without losing another. -/
theorem names_never_collide {events : List (Event ι)}
    (h : Along (step cfg) (Possible cfg) State.init events) :
    ∃ s, runFrom (step cfg) State.init events = some s ∧
      (∀ (c c' : ℕ) (x x' : Connection ι), s.conns[c]? = some x →
        s.conns[c']? = some x' → .freed ∉ x.history → .freed ∉ x'.history → x.name = x'.name →
          c = c') ∧
      (∀ name c, s.connectionMap.find name = some c →
        ∃ x, s.conns[c]? = some x ∧ x.name = name ∧ .freed ∉ x.history) ∧
      ∀ l k t rest, (s.loops l).tasks = t :: rest → Answers s k t →
        ∃ s', step cfg s (.run l k) = some s' ∧
          (∀ fd localAddr peerAddr, t = .handleConnection →
            k.accepted = some (fd, localAddr, peerAddr) →
            s.connectionMap.find (connName s.nextConnId localAddr fd peerAddr) = none ∧
            ∀ c, s'.Registered c ↔ s.Registered c ∨ c = s.conns.length) ∧
          ∀ c, t = .removeConnectionInLoop c →
            s.Registered c ∧ ∀ c', s'.Registered c' ↔ s.Registered c' ∧ c' ≠ c := by
  obtain ⟨s, hrun, hinv⟩ := run_inv h
  refine ⟨s, hrun, ?_, ?_, ?_⟩
  · intro c c' x x' hx hx' hlive hlive' hname
    exact hinv.books.name_unique hx hx' hlive hlive' hname
  · intro name c hfind
    exact hinv.books.find_live hfind
  · intro l k t rest htasks hk
    obtain ⟨htake, hfits, -⟩ := hinv.take htasks
    have he : Possible cfg s (.run l k) := by
      refine ⟨t, ?_, hk⟩
      rw [htasks]
      rfl
    obtain ⟨s', hstep, -⟩ := step_inv hinv he
    refine ⟨s', hstep, ?_, ?_⟩
    · rintro fd localAddr peerAddr rfl haccepted
      simp only [step, htasks] at hstep
      exact handleConnection_registers htake (answers_setLoop hk _) haccepted hstep
    · rintro c rfl
      simp only [step, htasks] at hstep
      exact removeConnectionInLoop_erases (s := s.setLoop l { s.loops l with tasks := rest }) htake
        hfits hstep

/-- The second client gets the descriptor of the first one while the numbers go on. -/
theorem sampleRun_names :
    ∃ s, runFrom (step sampleConfig) State.init sampleRun = some s ∧
      (∀ (c c' : ℕ) (x x' : Connection (Fin 2)), s.conns[c]? = some x →
        s.conns[c']? = some x' → .freed ∉ x.history → .freed ∉ x'.history → x.name = x'.name →
          c = c') ∧
      (∀ name c, s.connectionMap.find name = some c →
        ∃ x, s.conns[c]? = some x ∧ x.name = name ∧ .freed ∉ x.history) ∧
      ∀ l k t rest, (s.loops l).tasks = t :: rest → Answers s k t →
        ∃ s', step sampleConfig s (.run l k) = some s' ∧
          (∀ fd localAddr peerAddr, t = .handleConnection →
            k.accepted = some (fd, localAddr, peerAddr) →
            s.connectionMap.find (connName s.nextConnId localAddr fd peerAddr) = none ∧
            ∀ c, s'.Registered c ↔ s.Registered c ∨ c = s.conns.length) ∧
          ∀ c, t = .removeConnectionInLoop c →
            s.Registered c ∧ ∀ c', s'.Registered c' ↔ s.Registered c' ∧ c' ≠ c :=
  names_never_collide (by decide +kernel)

end TcpServer

end Matelib
