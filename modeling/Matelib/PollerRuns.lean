import Mathlib.Logic.Function.Basic
import Matelib.EpollPoller
import Matelib.Transition

/-!
# Runs of the operations on channels

Any number of channels with descriptors of their own, each driven by the operations that end in
`update()` and by `remove()`. In every state the poller and the kernel know each channel as its
state says, so no assertion fails and no `epoll_ctl` fails.
-/

namespace Matelib.EpollPoller

open Transition

variable {κ : Type*} [DecidableEq κ]

/-- The operations on a channel. -/
inductive Call where
  | enableReading
  | disableReading
  | enableWriting
  | disableWriting
  | disableAll
  | remove
  deriving DecidableEq

/-- What an operation does to the mask before it calls the poller. -/
def Call.mask : Call → Channel → Channel
  | .enableReading, c => c.enableReading
  | .disableReading, c => c.disableReading
  | .enableWriting, c => c.enableWriting
  | .disableWriting, c => c.disableWriting
  | .disableAll, c => c.disableAll
  | .remove, c => c

structure System (κ : Type*) where
  poller : EpollPoller κ
  channel : κ → Channel

namespace System

def init (fd : κ → ℕ) : System κ := ⟨.empty, fun k => Channel.new (fd k)⟩

/-- The poller's function that an operation ends in. -/
def apply (p : EpollPoller κ) (k : κ) (channel : Channel) :
    Call → Option (EpollPoller κ × ChannelState)
  | .remove => if channel.isNoneEvent then p.removeChannel k channel else none
  | _ => p.updateChannel k channel

def step (s : System κ) (l : κ × Call) : Option (System κ) :=
  let channel := l.2.mask (s.channel l.1)
  (apply s.poller l.1 channel l.2).map fun r =>
    ⟨r.1, Function.update s.channel l.1 { channel with state := r.2 }⟩

/-- A channel is removed only when the assertions of `remove` and `removeChannel` hold. -/
def Allowed (s : System κ) (l : κ × Call) : Prop :=
  l.2 = .remove → (s.channel l.1).isNoneEvent = true ∧
    s.poller.channels.find (s.channel l.1).fd = some l.1 ∧ (s.channel l.1).state ≠ .kNew

instance (s : System κ) (l : κ × Call) : Decidable (s.Allowed l) :=
  inferInstanceAs (Decidable (_ → _))

end System

/-- The operation with which `updateChannel` calls `epoll_ctl`. -/
def updateOperation (channel : Channel) : Operation :=
  match channel.state with
  | .kNew | .kDeleted => .EPOLL_CTL_ADD
  | .kAdded => if channel.isNoneEvent then .EPOLL_CTL_DEL else .EPOLL_CTL_MOD

/-- `removeChannel` calls `epoll_ctl` only for a channel that is watched. -/
def removeOperation (channel : Channel) : Option Operation :=
  if channel.state = .kAdded then some .EPOLL_CTL_DEL else none

/-- The descriptor is in the interest list exactly when the operation needs it there. -/
def Hits (p : EpollPoller κ) (fd : ℕ) : Operation → Prop
  | .EPOLL_CTL_ADD => fd ∉ p.interest
  | .EPOLL_CTL_MOD | .EPOLL_CTL_DEL => fd ∈ p.interest

instance (p : EpollPoller κ) (fd : ℕ) (operation : Operation) : Decidable (p.Hits fd operation) :=
  match operation with
  | .EPOLL_CTL_ADD => inferInstanceAs (Decidable (fd ∉ p.interest))
  | .EPOLL_CTL_MOD | .EPOLL_CTL_DEL => inferInstanceAs (Decidable (fd ∈ p.interest))

omit [DecidableEq κ] in
theorem epoll_ctl_isSome (p : EpollPoller κ) (operation : Operation) (fd : ℕ) (key : κ)
    (events : Events) :
    (p.epoll_ctl operation fd key events).isSome = true ↔ Hits p fd operation := by
  cases operation <;> simp only [epoll_ctl, Hits] <;> split_ifs with h <;> simp [h]

omit [DecidableEq κ] in
theorem update_of_map {p p' : EpollPoller κ} {operation : Operation} {key : κ} {channel : Channel}
    {state state' : ChannelState}
    (h : (p.update operation key channel).map (fun q => (q, state)) = some (p', state')) :
    p.update operation key channel = some p' := by
  obtain ⟨q, hq, heq⟩ := Option.map_eq_some_iff.mp h
  cases heq
  exact hq

theorem updateChannel_operation {p p' : EpollPoller κ} {key : κ} {channel : Channel}
    {state : ChannelState} (h : p.updateChannel key channel = some (p', state)) :
    ∃ q : EpollPoller κ, q.interest = p.interest ∧
      q.update (updateOperation channel) key channel = some p' := by
  unfold updateChannel at h
  unfold updateOperation
  cases hstate : channel.state with
  | kNew =>
    simp only [hstate] at h
    split_ifs at h
    exact ⟨{ p with channels := p.channels.insert channel.fd key }, rfl, update_of_map h⟩
  | kDeleted =>
    simp only [hstate] at h
    split_ifs at h
    exact ⟨p, rfl, update_of_map h⟩
  | kAdded =>
    simp only [hstate] at h
    split_ifs at h with _ hnone
    · exact ⟨p, rfl, by simpa only [if_pos hnone] using update_of_map h⟩
    · exact ⟨p, rfl, by simpa only [if_neg hnone] using update_of_map h⟩

theorem removeChannel_operation {p p' : EpollPoller κ} {key : κ} {channel : Channel}
    {state : ChannelState} (h : p.removeChannel key channel = some (p', state)) :
    ∃ q : EpollPoller κ, q.interest = p.interest ∧
      match removeOperation channel with
      | some operation => q.update operation key channel = some p'
      | none => q = p' := by
  unfold removeChannel at h
  split_ifs at h with _ hadded
  · exact ⟨{ p with channels := p.channels.erase channel.fd }, rfl,
      by simpa only [removeOperation, if_pos hadded] using update_of_map h⟩
  · cases h
    exact ⟨{ p with channels := p.channels.erase channel.fd }, rfl,
      by simp only [removeOperation, if_neg hadded]⟩

namespace System

def issues (s : System κ) (l : κ × Call) : Option Operation :=
  match l.2 with
  | .remove => removeOperation (s.channel l.1)
  | call => some (updateOperation (call.mask (s.channel l.1)))

/-- Each channel has its descriptor, and the poller and the kernel know it as its state says. -/
structure Known (fd : κ → ℕ) (s : System κ) : Prop where
  owns : ∀ k, (s.channel k).fd = fd k
  mirrors : ∀ k, Mirrors s.poller k (fd k) (s.channel k).state (s.channel k).events

omit [DecidableEq κ] in
theorem known_init (fd : κ → ℕ) : Known fd (init fd) where
  owns _ := rfl
  mirrors _ := ⟨rfl, rfl⟩

theorem mask_frame (call : Call) (c : Channel) :
    (call.mask c).fd = c.fd ∧ (call.mask c).state = c.state := by
  cases call <;> exact ⟨rfl, rfl⟩

theorem Known.set {fd : κ → ℕ} (hfd : Function.Injective fd) {s : System κ} (h : Known fd s)
    {k : κ} {p : EpollPoller κ} {c : Channel} (hframe : Frame s.poller p (fd k)) (hc : c.fd = fd k)
    (hk : Mirrors p k (fd k) c.state c.events) :
    Known fd ⟨p, Function.update s.channel k c⟩ where
  owns k' := by
    change (Function.update s.channel k c k').fd = fd k'
    rcases eq_or_ne k' k with rfl | hne
    · rw [Function.update_self, hc]
    · rw [Function.update_of_ne hne, h.owns]
  mirrors k' := by
    change Mirrors p k' (fd k') (Function.update s.channel k c k').state
      (Function.update s.channel k c k').events
    rcases eq_or_ne k' k with rfl | hne
    · rw [Function.update_self]
      exact hk
    · have hother : fd k ≠ fd k' := fun heq => hne (hfd heq).symm
      have hk' := h.mirrors k'
      rw [Function.update_of_ne hne]
      exact ⟨(hframe.channels _ hother).trans hk'.channels,
        (hframe.interest _ hother).trans hk'.interest⟩

/-- An allowed operation succeeds, keeps what is known, and its `epoll_ctl` hits. -/
theorem step_known {fd : κ → ℕ} (hfd : Function.Injective fd) {s : System κ} (h : Known fd s)
    {l : κ × Call} (hl : s.Allowed l) : ∃ t, s.step l = some t ∧ Known fd t := by
  obtain ⟨k, call⟩ := l
  obtain ⟨hmfd, hmstate⟩ := mask_frame call (s.channel k)
  have hmirrors := h.mirrors k
  rw [← h.owns k, ← hmfd, ← hmstate] at hmirrors
  have hdone : ∀ p state, apply s.poller k (call.mask (s.channel k)) call = some (p, state) →
      Mirrors p k (call.mask (s.channel k)).fd state (call.mask (s.channel k)).events →
      Frame s.poller p (call.mask (s.channel k)).fd →
      ∃ t, s.step (k, call) = some t ∧ Known fd t := by
    intro p state happly hp hframe
    rw [hmfd, h.owns] at hp hframe
    refine ⟨_, by rw [step, happly, Option.map_some], ?_⟩
    exact h.set hfd hframe (hmfd.trans (h.owns k)) hp
  by_cases hremove : call = .remove
  · subst hremove
    obtain ⟨hnone, -, hstate⟩ := hl rfl
    obtain ⟨p, hp, hknown, hframe⟩ := removeChannel_spec hmirrors hnone hstate
    exact hdone p .kNew (by rw [apply]; exact (if_pos hnone).trans hp) hknown hframe
  · obtain ⟨p, hp, hknown, hframe⟩ := updateChannel_spec hmirrors
    refine hdone p _ ?_ hknown hframe
    cases call with
    | remove => exact absurd rfl hremove
    | _ => exact hp

omit [DecidableEq κ] in
theorem Known.watched_iff {fd : κ → ℕ} {s : System κ} (h : Known fd s) (k : κ) :
    fd k ∈ s.poller.interest ↔ (s.channel k).state = .kAdded := by
  rw [OrderedMap.mem_iff, (h.mirrors k).interest]
  split_ifs with hstate <;> simp [hstate]

omit [DecidableEq κ] in
theorem Known.hits {fd : κ → ℕ} {s : System κ} (h : Known fd s) (l : κ × Call) :
    ∀ operation ∈ s.issues l, Hits s.poller (fd l.1) operation := by
  obtain ⟨k, call⟩ := l
  have hadd : (s.channel k).state ≠ .kAdded → Hits s.poller (fd k) .EPOLL_CTL_ADD :=
    fun hstate hmem => hstate ((h.watched_iff k).mp hmem)
  have hupdate : Hits s.poller (fd k) (updateOperation (call.mask (s.channel k))) := by
    rw [updateOperation, (mask_frame call (s.channel k)).2]
    cases hstate : (s.channel k).state with
    | kNew => exact hadd (by rw [hstate]; decide)
    | kDeleted => exact hadd (by rw [hstate]; decide)
    | kAdded =>
      have hmem : fd k ∈ s.poller.interest := (h.watched_iff k).mpr hstate
      change Hits s.poller (fd k) (if _ then _ else _)
      split_ifs <;> exact hmem
  intro operation hoperation
  cases call with
  | remove =>
    change operation ∈ removeOperation (s.channel k) at hoperation
    rw [removeOperation] at hoperation
    split_ifs at hoperation with hstate
    · cases hoperation
      exact (h.watched_iff k).mpr hstate
    · cases hoperation
  | enableReading => cases hoperation; exact hupdate
  | disableReading => cases hoperation; exact hupdate
  | enableWriting => cases hoperation; exact hupdate
  | disableWriting => cases hoperation; exact hupdate
  | disableAll => cases hoperation; exact hupdate

/-- In every run of allowed operations no assertion fails and `update` never aborts: the run reaches
its end, where the poller and the kernel know each channel exactly as its state and its mask say.
All along it, what is added is not in the interest list, and what is modified or deleted is. -/
theorem poller_mirrors_kernel (fd : κ → ℕ) (hfd : Function.Injective fd) (ls : List (κ × Call))
    (h : Along step Allowed (init fd) ls) :
    (∃ s, runFrom step (init fd) ls = some s ∧ ∀ k, (s.channel k).fd = fd k ∧
      Mirrors s.poller k (fd k) (s.channel k).state (s.channel k).events) ∧
    Along step (fun s l => ∀ operation ∈ s.issues l, Hits s.poller (fd l.1) operation)
      (init fd) ls := by
  constructor
  · obtain ⟨s, hrun, hs⟩ := runFrom_progress
      (fun s l hs hl => step_known hfd hs hl) (known_init fd) h
    exact ⟨s, hrun, fun k => ⟨hs.owns k, hs.mirrors k⟩⟩
  · refine along_of_invariant (fun s l hs _ => hs.hits l) ?_ (known_init fd) h
    intro s l t hs hl ht
    obtain ⟨u, hu, hknown⟩ := step_known hfd hs hl
    cases hu.symm.trans ht
    exact hknown

/-- Two channels; one is disabled, enabled again, removed and added anew. -/
def sampleCalls : List (Bool × Call) :=
  [(true, .enableReading), (false, .enableReading), (true, .enableWriting), (true, .disableAll),
    (true, .enableWriting), (false, .disableWriting), (true, .disableAll), (true, .remove),
    (true, .enableReading)]

theorem sampleCalls_mirrored :
    (∃ s, runFrom step (init fun b => if b then 5 else 4) sampleCalls = some s ∧
      ∀ k, (s.channel k).fd = (if k then 5 else 4) ∧
        Mirrors s.poller k (if k then 5 else 4) (s.channel k).state (s.channel k).events) ∧
    Along step (fun s l => ∀ operation ∈ s.issues l,
      Hits s.poller (if l.1 then 5 else 4) operation) (init fun b => if b then 5 else 4)
      sampleCalls :=
  poller_mirrors_kernel (fun b => if b then 5 else 4)
    (fun a b h => by cases a <;> cases b <;> first | rfl | cases h) sampleCalls (by decide)

end System

end Matelib.EpollPoller
