import Matelib.Channel
import Matelib.OrderedMap

/-!
# The epoll poller

`channels` is the map `channels_` from descriptors to channels, and `interest` the interest list
that the kernel keeps for the epoll instance: the descriptor with the channel in `data.ptr` and the
mask.
A channel is named by its key in `κ`. The functions fail where an assertion fails, or where
`epoll_ctl` fails and `update` aborts.
-/

namespace Matelib

variable {κ : Type*}

structure EpollPoller (κ : Type*) where
  channels : OrderedMap ℕ κ
  interest : OrderedMap ℕ (κ × Events)

namespace EpollPoller

def empty : EpollPoller κ := ⟨.empty, .empty⟩

inductive Operation where
  | EPOLL_CTL_ADD
  | EPOLL_CTL_MOD
  | EPOLL_CTL_DEL
  deriving DecidableEq

/-- The system call: to add a descriptor twice, and to modify or delete one that is not in the list,
is an error. -/
def epoll_ctl (p : EpollPoller κ) (operation : Operation) (fd : ℕ) (key : κ) (events : Events) :
    Option (EpollPoller κ) :=
  match operation with
  | .EPOLL_CTL_ADD =>
    if fd ∈ p.interest then none
    else some { p with interest := p.interest.insert fd (key, events) }
  | .EPOLL_CTL_MOD =>
    if fd ∈ p.interest then some { p with interest := p.interest.insert fd (key, events) }
    else none
  | .EPOLL_CTL_DEL =>
    if fd ∈ p.interest then some { p with interest := p.interest.erase fd } else none

/-- Only a failed deletion is not fatal. -/
def update (p : EpollPoller κ) (operation : Operation) (key : κ) (channel : Channel) :
    Option (EpollPoller κ) :=
  match p.epoll_ctl operation channel.fd key channel.events with
  | some p' => some p'
  | none => if operation = .EPOLL_CTL_DEL then some p else none

/-- The new state of the channel comes with the poller. -/
def updateChannel [DecidableEq κ] (p : EpollPoller κ) (key : κ) (channel : Channel) :
    Option (EpollPoller κ × ChannelState) :=
  match channel.state with
  | .kNew =>
    if channel.fd ∈ p.channels then none
    else
      ({ p with channels := p.channels.insert channel.fd key }.update .EPOLL_CTL_ADD key
        channel).map fun p' => (p', .kAdded)
  | .kDeleted =>
    if p.channels.find channel.fd = some key then
      (p.update .EPOLL_CTL_ADD key channel).map fun p' => (p', .kAdded)
    else none
  | .kAdded =>
    if p.channels.find channel.fd = some key then
      if channel.isNoneEvent then
        (p.update .EPOLL_CTL_DEL key channel).map fun p' => (p', .kDeleted)
      else (p.update .EPOLL_CTL_MOD key channel).map fun p' => (p', .kAdded)
    else none

def removeChannel [DecidableEq κ] (p : EpollPoller κ) (key : κ) (channel : Channel) :
    Option (EpollPoller κ × ChannelState) :=
  if channel.isNoneEvent && p.channels.find channel.fd = some key && channel.state ≠ .kNew then
    let p' := { p with channels := p.channels.erase channel.fd }
    if channel.state = .kAdded then
      (p'.update .EPOLL_CTL_DEL key channel).map fun p'' => (p'', .kNew)
    else some (p', .kNew)
  else none

/-- `::close` takes the descriptor off the list. -/
def close (p : EpollPoller κ) (fd : ℕ) : EpollPoller κ :=
  { p with interest := p.interest.erase fd }

/-- The poller knows the descriptor as that of the channel `key` in the given state, and the kernel
watches it for `events` exactly when that state is `kAdded`. -/
structure Mirrors (p : EpollPoller κ) (key : κ) (fd : ℕ) (state : ChannelState) (events : Events) :
    Prop where
  channels : p.channels.find fd = if state = .kNew then none else some key
  interest : p.interest.find fd = if state = .kAdded then some (key, events) else none

/-- Nothing is different but for one descriptor. -/
structure Frame (p p' : EpollPoller κ) (fd : ℕ) : Prop where
  channels : ∀ fd', fd ≠ fd' → p'.channels.find fd' = p.channels.find fd'
  interest : ∀ fd', fd ≠ fd' → p'.interest.find fd' = p.interest.find fd'

theorem Frame.refl (p : EpollPoller κ) (fd : ℕ) : Frame p p fd := ⟨fun _ _ => rfl, fun _ _ => rfl⟩

variable {p : EpollPoller κ} {key : κ} {channel : Channel}

theorem update_add (h : p.interest.find channel.fd = none) :
    p.update .EPOLL_CTL_ADD key channel =
      some { p with interest := p.interest.insert channel.fd (key, channel.events) } := by
  have hfd : channel.fd ∉ p.interest := not_not.mpr h
  simp only [update, epoll_ctl, if_neg hfd]

theorem update_mod (h : p.interest.find channel.fd ≠ none) :
    p.update .EPOLL_CTL_MOD key channel =
      some { p with interest := p.interest.insert channel.fd (key, channel.events) } := by
  have hfd : channel.fd ∈ p.interest := h
  simp only [update, epoll_ctl, if_pos hfd]

theorem update_del (h : p.interest.find channel.fd ≠ none) :
    p.update .EPOLL_CTL_DEL key channel =
      some { p with interest := p.interest.erase channel.fd } := by
  have hfd : channel.fd ∈ p.interest := h
  simp only [update, epoll_ctl, if_pos hfd]

def nextState (channel : Channel) : ChannelState :=
  if channel.state = .kAdded ∧ channel.isNoneEvent = true then .kDeleted else .kAdded

variable [DecidableEq κ]

/-- When the poller knows the channel as it is, up to its mask, `updateChannel` succeeds and the
poller then knows the channel with its new mask. -/
theorem updateChannel_spec {events : Events}
    (h : Mirrors p key channel.fd channel.state events) :
    ∃ p', p.updateChannel key channel = some (p', nextState channel) ∧
      Mirrors p' key channel.fd (nextState channel) channel.events ∧ Frame p p' channel.fd := by
  have hchannels := h.channels
  have hinterest := h.interest
  unfold updateChannel nextState
  cases hstate : channel.state with
  | kNew =>
    rw [hstate, if_pos rfl] at hchannels
    rw [hstate, if_neg (by decide)] at hinterest
    have hfd : channel.fd ∉ p.channels := not_not.mpr hchannels
    simp only [if_neg hfd, reduceCtorEq, false_and, if_false]
    rw [update_add (p := { p with channels := p.channels.insert channel.fd key }) hinterest,
      Option.map_some]
    refine ⟨_, rfl, ⟨?_, ?_⟩, ⟨?_, ?_⟩⟩
    · exact OrderedMap.find_insert_self ..
    · exact OrderedMap.find_insert_self ..
    · intro fd' hne
      exact OrderedMap.find_insert_of_ne _ _ hne
    · intro fd' hne
      exact OrderedMap.find_insert_of_ne _ _ hne
  | kDeleted =>
    rw [hstate, if_neg (by decide)] at hchannels hinterest
    simp only [if_pos hchannels, reduceCtorEq, false_and, if_false]
    rw [update_add hinterest, Option.map_some]
    refine ⟨_, rfl, ⟨hchannels, ?_⟩, ⟨fun _ _ => rfl, ?_⟩⟩
    · exact OrderedMap.find_insert_self ..
    · intro fd' hne
      exact OrderedMap.find_insert_of_ne _ _ hne
  | kAdded =>
    rw [hstate, if_neg (by decide)] at hchannels
    rw [hstate, if_pos rfl] at hinterest
    have hfd : p.interest.find channel.fd ≠ none := by
      rw [hinterest]
      exact Option.some_ne_none _
    by_cases hnone : channel.isNoneEvent = true
    · simp only [if_pos hchannels, hnone, if_true, true_and]
      rw [update_del hfd, Option.map_some]
      refine ⟨_, rfl, ⟨hchannels, ?_⟩, ⟨fun _ _ => rfl, ?_⟩⟩
      · exact OrderedMap.find_erase_self ..
      · intro fd' hne
        exact OrderedMap.find_erase_of_ne _ hne
    · simp only [if_pos hchannels, hnone, Bool.false_eq_true, if_false, and_false]
      rw [update_mod hfd, Option.map_some]
      refine ⟨_, rfl, ⟨hchannels, ?_⟩, ⟨fun _ _ => rfl, ?_⟩⟩
      · exact OrderedMap.find_insert_self ..
      · intro fd' hne
        exact OrderedMap.find_insert_of_ne _ _ hne

theorem removeChannel_spec {events : Events}
    (h : Mirrors p key channel.fd channel.state events) (hnone : channel.isNoneEvent = true)
    (hstate : channel.state ≠ .kNew) :
    ∃ p', p.removeChannel key channel = some (p', .kNew) ∧
      Mirrors p' key channel.fd .kNew channel.events ∧ Frame p p' channel.fd := by
  have hchannels := h.channels
  have hinterest := h.interest
  rw [if_neg hstate] at hchannels
  have hasserts : (channel.isNoneEvent && p.channels.find channel.fd = some key &&
      channel.state ≠ .kNew) = true := by
    rw [hnone, decide_eq_true hchannels, decide_eq_true hstate]
    rfl
  unfold removeChannel
  rw [if_pos hasserts]
  by_cases hadded : channel.state = .kAdded
  · rw [if_pos hadded] at hinterest
    have hfd : p.interest.find channel.fd ≠ none := by
      rw [hinterest]
      exact Option.some_ne_none _
    simp only [if_pos hadded]
    rw [update_del (p := { p with channels := p.channels.erase channel.fd }) hfd, Option.map_some]
    refine ⟨_, rfl, ⟨?_, ?_⟩, ⟨?_, ?_⟩⟩
    · exact OrderedMap.find_erase_self ..
    · exact OrderedMap.find_erase_self ..
    · intro fd' hne
      exact OrderedMap.find_erase_of_ne _ hne
    · intro fd' hne
      exact OrderedMap.find_erase_of_ne _ hne
  · rw [if_neg hadded] at hinterest
    simp only [if_neg hadded]
    refine ⟨_, rfl, ⟨?_, hinterest⟩, ⟨?_, fun _ _ => rfl⟩⟩
    · exact OrderedMap.find_erase_self ..
    · intro fd' hne
      exact OrderedMap.find_erase_of_ne _ hne

end EpollPoller

end Matelib
