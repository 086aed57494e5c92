import Matelib.Transition
import Mathlib.Tactic

/-!
# The event list of the poller

`epoll_wait` fills `events_` from the front of the queue of ready descriptors and, since these are
level-triggered, puts those that it has returned at its end. `poll` makes `events_` twice as long
whenever it has been filled. So no channel starves, however many are ready, and the list does not
grow beyond twice the number of descriptors that are ready together.
-/

namespace Matelib.EventList

open Transition

variable {κ : Type*}

def kInitEventListSize : ℕ := 16

/-- The length of `events_`, the ready queue of the kernel, and the channels whose events the loop
has handled so far. -/
structure State (κ : Type*) where
  size : ℕ
  ready : List κ
  handled : List κ
  deriving DecidableEq, Repr

/-- A channel becomes ready or ceases to be, and `epoll_wait` succeeds or fails. -/
inductive Event (κ : Type*) where
  | arise (c : κ)
  | cease (c : κ)
  | poll
  | interrupted
  deriving DecidableEq, Repr

namespace State

def init : State κ := ⟨kInitEventListSize, [], []⟩

def activeChannels (s : State κ) : List κ := s.ready.take s.size

/-- One pass of the loop: `poll`, and `handleEvent` for each of the active channels. -/
def poll (s : State κ) : State κ :=
  let numEvents := s.activeChannels.length
  { size := if 0 < numEvents ∧ s.size = numEvents then s.size * 2 else s.size
    ready := s.ready.drop s.size ++ s.activeChannels
    handled := s.handled ++ s.activeChannels }

end State

def step [DecidableEq κ] (s : State κ) : Event κ → Option (State κ)
  | .arise c => if c ∈ s.ready then none else some { s with ready := s.ready ++ [c] }
  | .cease c => some { s with ready := s.ready.erase c }
  | .poll => some s.poll
  | .interrupted => some s

def Event.polls : Event κ → Bool
  | .poll => true
  | _ => false

theorem length_activeChannels (s : State κ) :
    s.activeChannels.length = min s.size s.ready.length :=
  List.length_take

theorem size_poll (s : State κ) :
    s.poll.size = if 0 < s.size ∧ s.size ≤ s.ready.length then s.size * 2 else s.size := by
  change (if 0 < s.activeChannels.length ∧ s.size = s.activeChannels.length then s.size * 2
    else s.size) = _
  rw [length_activeChannels]
  congr 1
  apply propext
  omega

/-- The channel is ready, with fewer than `n` others before it. -/
def Before (n : ℕ) (c : κ) (s : State κ) : Prop :=
  ∃ front back, s.ready = front ++ c :: back ∧ front.length < n

theorem before_of_getElem? {s : State κ} {c : κ} {p n : ℕ} (hp : s.ready[p]? = some c)
    (hn : p < n) : Before n c s := by
  obtain ⟨hlt, hc⟩ := List.getElem?_eq_some_iff.mp hp
  refine ⟨s.ready.take p, s.ready.drop (p + 1), ?_, ?_⟩
  · rw [← hc, ← List.drop_eq_getElem_cons hlt, List.take_append_drop]
  · rw [List.length_take]
    omega

theorem Before.arise {n : ℕ} {c : κ} {s : State κ} (h : Before n c s) (d : κ) :
    Before n c { s with ready := s.ready ++ [d] } := by
  obtain ⟨front, back, hready, hn⟩ := h
  refine ⟨front, back ++ [d], ?_, hn⟩
  change s.ready ++ [d] = front ++ c :: (back ++ [d])
  rw [hready, List.append_assoc, List.cons_append]

theorem Before.poll {n : ℕ} {c : κ} {s : State κ} (h : Before n c s) (hsize : 0 < s.size) :
    c ∈ s.activeChannels ∨ Before (n - s.size) c s.poll ∧ s.poll.size = s.size * 2 := by
  obtain ⟨front, back, hready, hn⟩ := h
  by_cases hlt : front.length < s.size
  · left
    have hfound : s.activeChannels[front.length]? = some c := by
      rw [State.activeChannels, hready, List.getElem?_take_of_lt hlt,
        List.getElem?_append_right le_rfl, Nat.sub_self]
      rfl
    exact List.mem_of_getElem? hfound
  · right
    have hle : s.size ≤ front.length := not_lt.mp hlt
    have hfull : s.size ≤ s.ready.length := by
      rw [hready, List.length_append]
      omega
    constructor
    · refine ⟨front.drop s.size, back ++ s.activeChannels, ?_, ?_⟩
      · change s.ready.drop s.size ++ s.activeChannels =
          front.drop s.size ++ c :: (back ++ s.activeChannels)
        rw [hready, List.drop_append_of_le_length hle, List.append_assoc, List.cons_append]
      · rw [List.length_drop]
        omega
    · rw [size_poll, if_pos ⟨hsize, hfull⟩]

variable [DecidableEq κ]

theorem Before.cease {n : ℕ} {c d : κ} {s : State κ} (h : Before n c s) (hd : d ≠ c) :
    Before n c { s with ready := s.ready.erase d } := by
  obtain ⟨front, back, hready, hn⟩ := h
  by_cases hmem : d ∈ front
  · refine ⟨front.erase d, back, ?_, ?_⟩
    · change s.ready.erase d = front.erase d ++ c :: back
      rw [hready, List.erase_append_left _ hmem]
    · have := List.length_erase_of_mem hmem
      omega
  · refine ⟨front, back.erase d, ?_, hn⟩
    have hne : ¬(c == d) = true := fun heq => hd (eq_of_beq heq).symm
    change s.ready.erase d = front ++ c :: back.erase d
    rw [hready, List.erase_append_right _ hmem, List.erase_cons_tail hne]

theorem count_le_step {s t : State κ} {e : Event κ} (h : step s e = some t) (c : κ) :
    s.handled.count c ≤ t.handled.count c := by
  cases e with
  | arise d =>
    rw [step] at h
    split_ifs at h
    cases h
    exact le_rfl
  | cease d =>
    cases h
    exact le_rfl
  | poll =>
    cases h
    change s.handled.count c ≤ (s.handled ++ s.activeChannels).count c
    rw [List.count_append]
    exact Nat.le_add_right _ _
  | interrupted =>
    cases h
    exact le_rfl

theorem count_le_run {s t : State κ} {events : List (Event κ)}
    (hrun : runFrom step s events = some t) (c : κ) : s.handled.count c ≤ t.handled.count c :=
  runFrom_invariant (I := fun u => s.handled.count c ≤ u.handled.count c)
    (fun _ _ _ hle hstep => hle.trans (count_le_step hstep c)) le_rfl hrun

/-- While the channel stays ready, `m` polls come to it when there are fewer before it than they
take together. -/
theorem Before.handled {c : κ} {events : List (Event κ)} {s t : State κ} {m : ℕ}
    (h : Before (s.size * (2 ^ m - 1)) c s) (hsize : 0 < s.size)
    (hready : ∀ e ∈ events, e ≠ .cease c) (hpolls : m ≤ events.countP Event.polls)
    (hrun : runFrom step s events = some t) : s.handled.count c < t.handled.count c := by
  induction events generalizing s m with
  | nil =>
    obtain ⟨front, back, -, hn⟩ := h
    rw [List.countP_nil, Nat.le_zero] at hpolls
    rw [hpolls, pow_zero, Nat.sub_self, Nat.mul_zero] at hn
    omega
  | cons e events ih =>
    obtain ⟨u, hu, hrun⟩ := (runFrom_cons ..).mp hrun
    rw [List.forall_mem_cons] at hready
    rw [List.countP_cons] at hpolls
    cases e with
    | arise d =>
      rw [step] at hu
      split_ifs at hu
      cases hu
      exact ih (s := { s with ready := s.ready ++ [d] }) (h.arise d) hsize hready.2 hpolls hrun
    | cease d =>
      cases hu
      have hne : d ≠ c := fun heq => hready.1 (heq ▸ rfl)
      exact ih (s := { s with ready := s.ready.erase d }) (h.cease hne) hsize hready.2 hpolls hrun
    | interrupted =>
      cases hu
      exact ih h hsize hready.2 hpolls hrun
    | poll =>
      cases hu
      rcases h.poll hsize with hactive | ⟨hnearer, hdouble⟩
      · calc s.handled.count c < s.handled.count c + s.activeChannels.count c :=
              Nat.lt_add_of_pos_right (List.count_pos_iff.mpr hactive)
          _ = s.poll.handled.count c := List.count_append.symm
          _ ≤ t.handled.count c := count_le_run hrun c
      · cases m with
        | zero =>
          obtain ⟨front, back, -, hn⟩ := h
          rw [pow_zero, Nat.sub_self, Nat.mul_zero] at hn
          omega
        | succ m =>
          have hbound : s.size * (2 ^ (m + 1) - 1) - s.size = s.poll.size * (2 ^ m - 1) := by
            rw [hdouble, pow_succ, Nat.mul_assoc, Nat.mul_sub_one 2, ← Nat.mul_sub_one]
            congr 1
            omega
          rw [hbound] at hnearer
          have hmore : s.handled.count c ≤ s.poll.handled.count c :=
            count_le_step (e := .poll) rfl c
          exact hmore.trans_lt (ih hnearer (by omega) hready.2 (Nat.le_of_succ_le_succ hpolls) hrun)

theorem step_size {s t : State κ} {e : Event κ} (h : step s e = some t) :
    s.size ≤ t.size ∧ t.size ≤ max s.size (2 * s.ready.length) := by
  cases e with
  | arise d =>
    rw [step] at h
    split_ifs at h
    cases h
    exact ⟨le_rfl, le_max_left ..⟩
  | cease d =>
    cases h
    exact ⟨le_rfl, le_max_left ..⟩
  | poll =>
    cases h
    rw [size_poll]
    split_ifs <;> omega
  | interrupted =>
    cases h
    exact ⟨le_rfl, le_max_left ..⟩

theorem run_size {s t : State κ} {events : List (Event κ)} {limit : ℕ}
    (hlimit : Along step (fun s _ => s.ready.length ≤ limit) s events)
    (hrun : runFrom step s events = some t) :
    s.size ≤ t.size ∧ t.size ≤ max s.size (2 * limit) := by
  refine runFrom_invariant_along
    (I := fun u => s.size ≤ u.size ∧ u.size ≤ max s.size (2 * limit)) ?_ ?_ hlimit hrun
  · rintro a e b ⟨hlow, hhigh⟩ hready hstep
    obtain ⟨hgrow, hmost⟩ := step_size hstep
    omega
  · exact ⟨le_rfl, le_max_left ..⟩

/-- In every run of the loop: a channel that is ready behind `p` others has its events handled
within `m` successful polls when `p < 16 * (2 ^ m - 1)`, unless it ceases to be ready, whichever
other channels become ready or cease meanwhile; and while at most `limit` are ready at once,
`events_` has never more than `2 * limit` entries, or the sixteen that it starts with. -/
theorem ready_channels_handled {before after : List (Event κ)} {s t : State κ} {limit : ℕ}
    (hlimit : Along step (fun s _ => s.ready.length ≤ limit) State.init (before ++ after))
    (hs : runFrom step State.init before = some s) (ht : runFrom step s after = some t) :
    t.size ≤ max kInitEventListSize (2 * limit) ∧
      ∀ p m c, s.ready[p]? = some c → p < kInitEventListSize * (2 ^ m - 1) →
        (∀ e ∈ after, e ≠ .cease c) → m ≤ after.countP Event.polls →
        s.handled.count c < t.handled.count c := by
  have hrun : runFrom step State.init (before ++ after) = some t := by
    rw [runFrom_append hs, ht]
  have hlow : kInitEventListSize ≤ s.size := (run_size ((along_append hs).mp hlimit).1 hs).1
  refine ⟨(run_size hlimit hrun).2, ?_⟩
  intro p m c hp hm hready hpolls
  have hbefore : Before (s.size * (2 ^ m - 1)) c s :=
    before_of_getElem? hp (hm.trans_le (Nat.mul_le_mul_right _ hlow))
  exact hbefore.handled ((by decide : 0 < kInitEventListSize).trans_le hlow) hready hpolls ht

/-- Twenty channels become ready one behind the other. -/
def twentyReady : List (Event ℕ) := (List.range 20).map .arise

/-- The first poll returns sixteen of them, and the list grows. One channel ceases to be ready, and
the second poll returns all others. -/
def twoPolls : List (Event ℕ) := [.poll, .cease 3, .interrupted, .poll]

theorem twoPolls_handled :
    ∃ s t, runFrom step State.init twentyReady = some s ∧ runFrom step s twoPolls = some t ∧
      t.size ≤ max kInitEventListSize 40 ∧ s.handled.count 19 < t.handled.count 19 := by
  have hs : (runFrom step State.init twentyReady).isSome = true := by decide +kernel
  obtain ⟨s, hs⟩ := Option.isSome_iff_exists.mp hs
  have ht : ((runFrom step State.init (twentyReady ++ twoPolls)).isSome) = true := by
    decide +kernel
  obtain ⟨t, ht⟩ := Option.isSome_iff_exists.mp ht
  rw [runFrom_append hs] at ht
  have hp : s.ready[19]? = some 19 := by
    have hready : (runFrom step State.init twentyReady).bind (fun s => s.ready[19]?) = some 19 := by
      decide +kernel
    rwa [hs] at hready
  have hlimit : Along step (fun s _ => s.ready.length ≤ 20) State.init
      (twentyReady ++ twoPolls) := by
    decide +kernel
  obtain ⟨hsize, hhandled⟩ := ready_channels_handled hlimit hs ht
  exact ⟨s, t, hs, ht, hsize, hhandled 19 2 19 hp (by decide) (by decide) (by decide)⟩

end Matelib.EventList
