import Matelib.PollerRuns

/-!
# Channels without interest

`updateChannel` looks at the state of a channel first and at its mask only for a channel that is
watched. An update of any other channel adds it to the interest list, also when its mask is empty.
The runs are of any channels, also of several that have one descriptor: the assertions let only
one of them at a time be known to the poller, and a run goes on only where no assertion fails.
-/

namespace Matelib.EpollPoller.System

open Transition Events

variable {κ : Type*} [DecidableEq κ]

def Registered (s : System κ) (k : κ) : Prop :=
  ∃ events, s.poller.interest.find (s.channel k).fd = some (k, events)

def Unwatched (s : System κ) : Prop :=
  ∀ k, (s.channel k).isNoneEvent = true → ¬s.Registered k

/-- What `epoll_wait` may report for a channel: some of the events it is watched for, and errors
and hang-ups whether it is watched for them or not. -/
def Reports (s : System κ) (k : κ) (revents : Events) : Prop :=
  ∃ events, s.poller.interest.find (s.channel k).fd = some (k, events) ∧ revents ≠ 0 ∧
    revents &&& ~~~(events ||| EPOLLERR ||| EPOLLHUP) = 0

/-- The operation removes a channel, changes one that is watched, or leaves it some interest. -/
def LeavesInterest (s : System κ) (l : κ × Call) : Prop :=
  l.2 = .remove ∨ (s.channel l.1).state = .kAdded ∨
    (l.2.mask (s.channel l.1)).isNoneEvent = false

instance (s : System κ) (l : κ × Call) : Decidable (s.LeavesInterest l) :=
  inferInstanceAs (Decidable (_ ∨ _))

/-- The poller and the kernel know the channels that are not new as their states say, and nothing
else. -/
structure Owned (s : System κ) : Prop where
  known : ∀ k, (s.channel k).state ≠ .kNew →
    Mirrors s.poller k (s.channel k).fd (s.channel k).state (s.channel k).events
  channels : ∀ fd k, s.poller.channels.find fd = some k →
    (s.channel k).fd = fd ∧ (s.channel k).state ≠ .kNew
  interest : ∀ fd, s.poller.channels.find fd = none → s.poller.interest.find fd = none

omit [DecidableEq κ] in
theorem owned_init (fd : κ → ℕ) : Owned (init fd) where
  known _ h := absurd rfl h
  channels fd' k h := by
    change OrderedMap.empty.find fd' = some k at h
    rw [OrderedMap.find_empty] at h
    cases h
  interest _ _ := rfl

omit [DecidableEq κ] in
theorem Owned.registered_iff {s : System κ} (h : Owned s) (k : κ) :
    s.Registered k ↔ (s.channel k).state = .kAdded := by
  constructor
  · rintro ⟨events, hfind⟩
    have hsome : s.poller.channels.find (s.channel k).fd ≠ none := by
      intro hnone
      rw [h.interest _ hnone] at hfind
      cases hfind
    obtain ⟨k', hk'⟩ := Option.ne_none_iff_exists'.mp hsome
    obtain ⟨hfd, hstate⟩ := h.channels _ _ hk'
    have hmirrors := (h.known k' hstate).interest
    rw [hfd, hfind] at hmirrors
    split_ifs at hmirrors with hadded
    cases hmirrors
    exact hadded
  · intro hadded
    have hmirrors := (h.known k (by rw [hadded]; decide)).interest
    rw [if_pos hadded] at hmirrors
    exact ⟨_, hmirrors⟩

omit [DecidableEq κ] in
theorem Owned.mirrors {s : System κ} (h : Owned s) {k : κ}
    (hnew : (s.channel k).state = .kNew → s.poller.channels.find (s.channel k).fd = none) :
    Mirrors s.poller k (s.channel k).fd (s.channel k).state (s.channel k).events := by
  by_cases hstate : (s.channel k).state = .kNew
  · have hnone := hnew hstate
    constructor
    · rw [hnone, if_pos hstate]
    · rw [h.interest _ hnone, hstate, if_neg (by decide)]
  · exact h.known k hstate

omit [DecidableEq κ] in
theorem Owned.fd_ne {s : System κ} (h : Owned s) {k k' : κ} (hne : k' ≠ k)
    (hmirrors : Mirrors s.poller k (s.channel k).fd (s.channel k).state (s.channel k).events)
    (hk' : (s.channel k').state ≠ .kNew) : (s.channel k).fd ≠ (s.channel k').fd := by
  intro heq
  have hfind := (h.known k' hk').channels
  rw [if_neg hk', ← heq, hmirrors.channels] at hfind
  split_ifs at hfind
  exact hne (Option.some.inj hfind).symm

theorem Owned.set {s : System κ} (h : Owned s) {k : κ} {p : EpollPoller κ} {c : Channel}
    (hmirrors : Mirrors s.poller k (s.channel k).fd (s.channel k).state (s.channel k).events)
    (hfd : c.fd = (s.channel k).fd) (hk : Mirrors p k c.fd c.state c.events)
    (hframe : Frame s.poller p c.fd) : Owned ⟨p, Function.update s.channel k c⟩ where
  known k' hstate := by
    change (Function.update s.channel k c k').state ≠ .kNew at hstate
    change Mirrors p k' (Function.update s.channel k c k').fd
      (Function.update s.channel k c k').state (Function.update s.channel k c k').events
    rcases eq_or_ne k' k with rfl | hne
    · rw [Function.update_self]
      exact hk
    · rw [Function.update_of_ne hne] at hstate ⊢
      have hother : c.fd ≠ (s.channel k').fd := hfd ▸ h.fd_ne hne hmirrors hstate
      have hk' := h.known k' hstate
      exact ⟨(hframe.channels _ hother).trans hk'.channels,
        (hframe.interest _ hother).trans hk'.interest⟩
  channels fd k' hfind := by
    change p.channels.find fd = some k' at hfind
    change (Function.update s.channel k c k').fd = fd ∧
      (Function.update s.channel k c k').state ≠ .kNew
    rcases eq_or_ne c.fd fd with rfl | hother
    · rw [hk.channels] at hfind
      split_ifs at hfind with hstate
      cases hfind
      rw [Function.update_self]
      exact ⟨rfl, hstate⟩
    · rw [hframe.channels _ hother] at hfind
      obtain ⟨hfd', hstate'⟩ := h.channels _ _ hfind
      have hne : k' ≠ k := by
        rintro rfl
        exact hother (hfd.trans hfd')
      rw [Function.update_of_ne hne]
      exact ⟨hfd', hstate'⟩
  interest fd hfind := by
    change p.channels.find fd = none at hfind
    change p.interest.find fd = none
    rcases eq_or_ne c.fd fd with rfl | hother
    · rw [hk.channels] at hfind
      split_ifs at hfind with hstate
      rw [hk.interest, hstate, if_neg (by decide)]
    · rw [hframe.channels _ hother] at hfind
      rw [hframe.interest _ hother]
      exact h.interest fd hfind

def stateAfter (s : System κ) (l : κ × Call) : ChannelState :=
  if l.2 = .remove then .kNew else nextState (l.2.mask (s.channel l.1))

theorem apply_of_ne_remove (p : EpollPoller κ) (k : κ) (channel : Channel) {call : Call}
    (h : call ≠ .remove) : apply p k channel call = p.updateChannel k channel := by
  cases call with
  | remove => exact absurd rfl h
  | _ => rfl

theorem removeChannel_new (p : EpollPoller κ) (k : κ) {channel : Channel}
    (h : channel.state = .kNew) : p.removeChannel k channel = none := by
  rw [removeChannel, if_neg]
  simp [h]

theorem Owned.mirrors_of_apply {s : System κ} (h : Owned s) {k : κ} {call : Call}
    {r : EpollPoller κ × ChannelState}
    (happly : apply s.poller k (call.mask (s.channel k)) call = some r) :
    Mirrors s.poller k (s.channel k).fd (s.channel k).state (s.channel k).events := by
  obtain ⟨hmfd, hmstate⟩ := mask_frame call (s.channel k)
  apply h.mirrors
  intro hstate
  by_contra hfind
  by_cases hremove : call = .remove
  · subst hremove
    rw [apply, Call.mask, removeChannel_new _ _ hstate, ite_self] at happly
    cases happly
  · rw [apply_of_ne_remove _ _ _ hremove, updateChannel, hmstate, hstate] at happly
    simp only [hmfd, if_pos (show (s.channel k).fd ∈ s.poller.channels from hfind)] at happly
    cases happly

theorem Owned.apply_spec {s : System κ} (h : Owned s) {k : κ} {call : Call} {p : EpollPoller κ}
    {state : ChannelState}
    (happly : apply s.poller k (call.mask (s.channel k)) call = some (p, state)) :
    state = s.stateAfter (k, call) ∧
      Mirrors p k (call.mask (s.channel k)).fd state (call.mask (s.channel k)).events ∧
      Frame s.poller p (call.mask (s.channel k)).fd := by
  obtain ⟨hmfd, hmstate⟩ := mask_frame call (s.channel k)
  have hmirrors := h.mirrors_of_apply happly
  rw [← hmfd, ← hmstate] at hmirrors
  by_cases hremove : call = .remove
  · subst hremove
    have hnone : (s.channel k).isNoneEvent = true := by
      by_contra hnone
      rw [apply, Call.mask, if_neg hnone] at happly
      cases happly
    rw [apply, Call.mask, if_pos hnone] at happly
    have hstate : (s.channel k).state ≠ .kNew := by
      intro hstate
      rw [removeChannel_new _ _ hstate] at happly
      cases happly
    obtain ⟨p', hp', hk, hframe⟩ := removeChannel_spec hmirrors hnone hstate
    cases happly.symm.trans hp'
    exact ⟨rfl, hk, hframe⟩
  · rw [apply_of_ne_remove _ _ _ hremove] at happly
    obtain ⟨p', hp', hk, hframe⟩ := updateChannel_spec hmirrors
    cases happly.symm.trans hp'
    exact ⟨(if_neg hremove).symm, hk, hframe⟩

theorem step_owned {s t : System κ} {l : κ × Call} (h : Owned s) (ht : s.step l = some t) :
    Owned t ∧ t.channel = Function.update s.channel l.1
      { l.2.mask (s.channel l.1) with state := s.stateAfter l } := by
  obtain ⟨k, call⟩ := l
  obtain ⟨⟨p, state⟩, happly, rfl⟩ := Option.map_eq_some_iff.mp ht
  obtain ⟨hstate, hk, hframe⟩ := h.apply_spec happly
  refine ⟨h.set (h.mirrors_of_apply happly) (mask_frame call (s.channel k)).1 hk hframe, ?_⟩
  rw [← hstate]

omit [DecidableEq κ] in
/-- An operation leaves its channel watched without interest exactly when it is an update with an
empty mask of a channel that was not watched. -/
theorem stateAfter_ne_kAdded_iff (s : System κ) (l : κ × Call) :
    ((l.2.mask (s.channel l.1)).isNoneEvent = true → s.stateAfter l ≠ .kAdded) ↔
      s.LeavesInterest l := by
  obtain ⟨k, call⟩ := l
  have hmstate := (mask_frame call (s.channel k)).2
  rw [stateAfter, LeavesInterest, nextState, hmstate]
  by_cases hremove : call = .remove
  · simp [hremove]
  · cases hnone : (call.mask (s.channel k)).isNoneEvent <;>
      cases (s.channel k).state <;> simp [hremove]

/-- From a state in which no channel without interest is registered, an operation leads to another
such state exactly when it leaves its channel some interest, or the channel was watched. -/
theorem unwatched_step {s t : System κ} {l : κ × Call} (h : Owned s) (hs : s.Unwatched)
    (ht : s.step l = some t) : t.Unwatched ↔ s.LeavesInterest l := by
  obtain ⟨howned, hchannel⟩ := step_owned h ht
  rw [← stateAfter_ne_kAdded_iff]
  constructor
  · intro htwatched hnone hadded
    have hk := htwatched l.1
    rw [howned.registered_iff, hchannel, Function.update_self] at hk
    exact hk hnone hadded
  · intro hafter k hnone
    rw [howned.registered_iff, hchannel] at *
    rcases eq_or_ne k l.1 with rfl | hne
    · rw [Function.update_self] at hnone ⊢
      exact hafter hnone
    · rw [Function.update_of_ne hne] at hnone ⊢
      rw [← h.registered_iff]
      exact hs k hnone

omit [DecidableEq κ] in
theorem unwatched_init (fd : κ → ℕ) : (init fd).Unwatched := by
  intro k _
  rw [(owned_init fd).registered_iff]
  exact fun h => nomatch h

omit [DecidableEq κ] in
theorem reports_hangup_iff (s : System κ) (k : κ) :
    s.Reports k EPOLLHUP ↔ s.Registered k := by
  constructor
  · rintro ⟨events, hfind, -⟩
    exact ⟨events, hfind⟩
  · rintro ⟨events, hfind⟩
    refine ⟨events, hfind, by decide, ?_⟩
    ext i hi
    simp only [BitVec.getElem_and, BitVec.getElem_not, BitVec.getElem_or]
    cases EPOLLHUP[i] <;> simp

/-- From fresh channels, along a run of any operations in which no assertion fails, no channel with
an empty mask is ever registered exactly when no operation leaves the mask of a channel empty that
was not watched before it. -/
theorem unwatched_iff_leavesInterest (fd : κ → ℕ) (ls : List (κ × Call)) (s : System κ)
    (h : runFrom step (init fd) ls = some s) :
    Throughout step Unwatched (init fd) ls ↔ Along step LeavesInterest (init fd) ls :=
  throughout_iff_along (I := Owned) (fun _ _ _ hs ht => (step_owned hs ht).1)
    (fun _ _ _ hs hunwatched ht => unwatched_step hs hunwatched ht) (owned_init fd)
    (unwatched_init fd) h

theorem unwatched_after_disabling :
    Throughout step Unwatched (init fun _ : Unit => 5)
      [((), .enableReading), ((), .disableAll), ((), .enableWriting), ((), .disableWriting),
        ((), .remove)] ↔
    Along step LeavesInterest (init fun _ : Unit => 5)
      [((), .enableReading), ((), .disableAll), ((), .enableWriting), ((), .disableWriting),
        ((), .remove)] :=
  unwatched_iff_leavesInterest (fun _ => 5) _ _ rfl

/-- A channel is enabled and disabled, and then disabled once more: the kernel watches it again. -/
theorem disableAll_twice_registers :
    ¬Throughout step Unwatched (init fun _ : Unit => 5)
      [((), .enableReading), ((), .disableAll), ((), .disableAll)] := by
  intro h
  have hlast := throughout_head (((h.2 _ rfl).2 _ rfl).2 _ rfl)
  exact hlast () rfl ⟨0, rfl⟩

end Matelib.EpollPoller.System
