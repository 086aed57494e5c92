import Matelib.Transition
import Mathlib.Logic.Function.Basic

/-!
# The spare descriptor of a server

When the descriptors of the process are used up, `handleConnection` closes `idleFd_`, accepts the
connection with the descriptor that this has made free, closes it at once and opens the spare
again. These are four system calls, and the other threads open and close descriptors between them.
The kernel hands out any descriptor that is free.
-/

namespace Matelib.IdleDescriptor

open Transition

/-- Who holds a descriptor: `idleFd_`, a connection, or some other part of the process. -/
inductive Owner where
  | spare
  | connection
  | other
  deriving DecidableEq, Repr

inductive Errno where
  | EMFILE
  | EAGAIN
  | other (code : ℕ)
  deriving DecidableEq, Repr

/-- What `::accept` and `::open` return. -/
inductive SysResult where
  | fd (n : ℕ)
  | failed (errno : Errno)
  deriving DecidableEq, Repr

/-- The system call of `handleConnection` that is next. -/
inductive Place where
  | accept4
  | closeIdle
  | accept
  | closeAccepted
  | openIdle
  deriving DecidableEq, Repr

/-- How a round at the limit went: the connection was refused, none was waiting any more, or one was
and still is. -/
inductive Outcome where
  | refused
  | nobody
  | overlooked
  deriving DecidableEq, Repr

/-- `idleFd` is `none` for `-1`. `pending` are the connections in the queue of the listening
socket. -/
structure State where
  table : ℕ → Option Owner
  idleFd : Option ℕ
  place : Place
  pending : ℕ
  outcomes : List Outcome

/-- The last event is the next system call of `handleConnection`, with its result. -/
inductive Event where
  | connect
  | openElsewhere (n : ℕ)
  | closeElsewhere (n : ℕ)
  | handleConnection (r : SysResult)
  deriving DecidableEq, Repr

namespace State

/-- The constructor has opened the spare descriptor `fd`, which is assumed to succeed, and `used`
are open besides. -/
def listening (fd : ℕ) (used : ℕ → Bool) : State where
  table := Function.update (fun n => if used n then some .other else none) fd (some .spare)
  idleFd := some fd
  place := .accept4
  pending := 0
  outcomes := []

def set (s : State) (n : ℕ) (owner : Option Owner) : State :=
  { s with table := Function.update s.table n owner }

/-- `::close`, which fails on a descriptor that is not open. `none` when another part of the process
loses its descriptor. -/
def close (s : State) : Option ℕ → Option State
  | none => some s
  | some n =>
    if s.table n = none then some s
    else if s.table n = some .spare then some (s.set n none)
    else none

def accept4 (s : State) : SysResult → State
  | .fd n => { s.set n (some .connection) with pending := s.pending - 1 }
  | .failed .EMFILE => { s with place := .closeIdle }
  | .failed _ => s

def accept (s : State) : SysResult → State
  | .fd n =>
    { s.set n (some .spare) with
      idleFd := some n, pending := s.pending - 1, place := .closeAccepted
      outcomes := s.outcomes ++ [.refused] }
  | .failed _ =>
    { s with
      idleFd := none, place := .closeAccepted
      outcomes := s.outcomes ++ [if s.pending = 0 then .nobody else .overlooked] }

def openIdle (s : State) : SysResult → State
  | .fd n => { s.set n (some .spare) with idleFd := some n, place := .accept4 }
  | .failed _ => { s with idleFd := none, place := .accept4 }

/-- What a connection that `accept4` returned goes through is not in this model. -/
def handleConnection (s : State) (r : SysResult) : Option State :=
  match s.place with
  | .accept4 => some (s.accept4 r)
  | .closeIdle => (s.close s.idleFd).map fun t => { t with place := .accept }
  | .accept => some (s.accept r)
  | .closeAccepted => (s.close s.idleFd).map fun t => { t with place := .openIdle }
  | .openIdle => some (s.openIdle r)

end State

def step (s : State) : Event → Option State
  | .connect => some { s with pending := s.pending + 1 }
  | .openElsewhere n => some (s.set n (some .other))
  | .closeElsewhere n => some (s.set n none)
  | .handleConnection r => s.handleConnection r

section Limit

variable (limit : ℕ)

def Full (s : State) : Prop := ∀ n < limit, s.table n ≠ none

instance (s : State) : Decidable (Full limit s) := inferInstanceAs (Decidable (∀ n < limit, _))

def Answers (s : State) : SysResult → Prop
  | .fd n => n < limit ∧ s.table n = none
  | .failed .EMFILE => Full limit s
  | .failed _ => True

instance (s : State) : ∀ r, Decidable (Answers limit s r)
  | .fd _ => inferInstanceAs (Decidable (_ ∧ _))
  | .failed .EMFILE => inferInstanceAs (Decidable (Full limit s))
  | .failed .EAGAIN => inferInstanceAs (Decidable True)
  | .failed (.other _) => inferInstanceAs (Decidable True)

/-- `::accept` returns a connection that waits, and `EAGAIN` only when none does. -/
def Queues (s : State) : SysResult → Prop
  | .fd _ => 0 < s.pending
  | .failed .EAGAIN => s.pending = 0
  | .failed _ => True

instance (s : State) : ∀ r, Decidable (Queues s r)
  | .fd _ => inferInstanceAs (Decidable (_ < _))
  | .failed .EAGAIN => inferInstanceAs (Decidable (_ = _))
  | .failed .EMFILE => inferInstanceAs (Decidable True)
  | .failed (.other _) => inferInstanceAs (Decidable True)

/-- What the kernel may return, and the rest of the process closes only what it holds. -/
def Possible (s : State) : Event → Prop
  | .connect => True
  | .openElsewhere n => n < limit ∧ s.table n = none
  | .closeElsewhere n => s.table n = some .other ∨ s.table n = some .connection
  | .handleConnection r =>
    match s.place with
    | .accept4 | .accept => Answers limit s r ∧ Queues s r
    | .closeIdle | .closeAccepted => True
    | .openIdle => Answers limit s r

instance (s : State) : ∀ e, Decidable (Possible limit s e)
  | .connect => inferInstanceAs (Decidable True)
  | .openElsewhere _ => inferInstanceAs (Decidable (_ ∧ _))
  | .closeElsewhere _ => inferInstanceAs (Decidable (_ ∨ _))
  | .handleConnection r => by
    unfold Possible
    cases s.place <;> infer_instance

end Limit

/-- Before these calls `idleFd_` holds a descriptor, if any; before the others it is stale. -/
def Place.holds : Place → Bool
  | .accept4 | .closeIdle | .closeAccepted => true
  | .accept | .openIdle => false

/-- The spare descriptor is the one in `idleFd_`. -/
structure Owned (limit : ℕ) (s : State) : Prop where
  spare : ∀ n, s.table n = some .spare ↔ s.place.holds = true ∧ s.idleFd = some n
  below : ∀ n, s.table n = some .spare → n < limit

theorem table_set (s : State) (n m : ℕ) (owner : Option Owner) :
    (s.set n owner).table m = if m = n then owner else s.table m :=
  Function.update_apply ..

theorem spare_set {s : State} {n : ℕ} {owner : Option Owner} (hn : s.table n ≠ some .spare)
    (howner : owner ≠ some .spare) (m : ℕ) :
    (s.set n owner).table m = some .spare ↔ s.table m = some .spare := by
  rw [table_set]
  split_ifs with heq
  · rw [heq]
    exact iff_of_false howner hn
  · rfl

theorem Owned.set {limit : ℕ} {s : State} (h : Owned limit s) {n : ℕ} {owner : Option Owner}
    (hn : s.table n ≠ some .spare) (howner : owner ≠ some .spare) :
    Owned limit (s.set n owner) where
  spare m := (spare_set hn howner m).trans (h.spare m)
  below m hm := h.below m ((spare_set hn howner m).mp hm)

theorem listening_owned {limit fd : ℕ} (hfd : fd < limit) (used : ℕ → Bool) :
    Owned limit (.listening fd used) := by
  have htable : ∀ n, (State.listening fd used).table n = some .spare ↔ fd = n := by
    intro n
    change Function.update (fun n => if used n then some Owner.other else none) fd
      (some .spare) n = some .spare ↔ fd = n
    rw [Function.update_apply]
    split_ifs with heq hused
    · exact iff_of_true rfl heq.symm
    · exact iff_of_false (by decide) (Ne.symm heq)
    · exact iff_of_false (by decide) (Ne.symm heq)
  constructor
  · intro n
    rw [htable]
    exact ⟨fun heq => ⟨rfl, congrArg some heq⟩, fun h => Option.some.inj h.2⟩
  · intro n hn
    rw [← (htable n).mp hn]
    exact hfd

theorem Owned.close {limit : ℕ} {s : State} (h : Owned limit s) (hholds : s.place.holds = true) :
    ∃ t, s.close s.idleFd = some t ∧ (∀ n, t.table n ≠ some .spare) ∧
      (t = s ∧ s.idleFd = none ∨ ∃ n < limit, s.idleFd = some n ∧ t = s.set n none) := by
  cases hfd : s.idleFd with
  | none =>
    refine ⟨s, rfl, ?_, .inl ⟨rfl, rfl⟩⟩
    intro n hn
    have hidle := ((h.spare n).mp hn).2
    rw [hfd] at hidle
    cases hidle
  | some n =>
    have hn : s.table n = some .spare := (h.spare n).mpr ⟨hholds, hfd⟩
    refine ⟨s.set n none, ?_, ?_, .inr ⟨n, h.below n hn, rfl, rfl⟩⟩
    · rw [State.close, hn, if_neg (Option.some_ne_none _), if_pos rfl]
    · intro m hm
      rw [table_set] at hm
      split_ifs at hm with heq
      have hidle := ((h.spare m).mp hm).2
      rw [hfd] at hidle
      exact heq (Option.some.inj hidle).symm

theorem owned_of_none {limit : ℕ} {s : State} (hnone : ∀ n, s.table n ≠ some .spare)
    (hidle : s.place.holds = true → s.idleFd = none) : Owned limit s where
  spare n := by
    refine iff_of_false (hnone n) ?_
    rintro ⟨hholds, hn⟩
    rw [hidle hholds] at hn
    cases hn
  below n hn := absurd hn (hnone n)

theorem owned_of_taken {limit n : ℕ} {s t : State} (hnone : ∀ m, s.table m ≠ some .spare)
    (hn : n < limit) (htable : t.table = (s.set n (some .spare)).table) (hidle : t.idleFd = some n)
    (hholds : t.place.holds = true) : Owned limit t := by
  have hspare : ∀ m, t.table m = some .spare ↔ m = n := by
    intro m
    rw [htable, table_set]
    split_ifs with heq
    · exact iff_of_true rfl heq
    · exact iff_of_false (hnone m) heq
  constructor
  · intro m
    rw [hspare, hidle, hholds, Option.some.injEq]
    exact ⟨fun heq => ⟨rfl, heq.symm⟩, fun h => h.2.symm⟩
  · intro m hm
    rw [(hspare m).mp hm]
    exact hn

theorem Owned.not_spare {limit : ℕ} {s : State} (h : Owned limit s)
    (hholds : s.place.holds = false) (n : ℕ) : s.table n ≠ some .spare := by
  intro hn
  have hplace := ((h.spare n).mp hn).1
  rw [hholds] at hplace
  cases hplace

theorem ne_spare_of_none {s : State} {n : ℕ} (h : s.table n = none) : s.table n ≠ some .spare := by
  rw [h]
  exact (Option.some_ne_none _).symm

theorem Owned.accept4 {limit : ℕ} {s : State} (h : Owned limit s) (hplace : s.place = .accept4)
    {r : SysResult} (hr : Answers limit s r) : Owned limit (s.accept4 r) := by
  cases r with
  | fd n =>
    have hset : Owned limit (s.set n (some .connection)) :=
      h.set (ne_spare_of_none hr.2) (by decide)
    exact ⟨hset.spare, hset.below⟩
  | failed errno =>
    cases errno with
    | EMFILE =>
      have hspare := h.spare
      rw [hplace] at hspare
      exact ⟨hspare, h.below⟩
    | EAGAIN => exact h
    | other code => exact h

theorem accept_owned {limit : ℕ} {s : State} (hnone : ∀ n, s.table n ≠ some .spare)
    {r : SysResult} (hr : Answers limit s r) : Owned limit (s.accept r) := by
  cases r with
  | fd n => exact owned_of_taken hnone hr.1 rfl rfl rfl
  | failed errno => exact owned_of_none hnone fun _ => rfl

theorem openIdle_owned {limit : ℕ} {s : State} (hnone : ∀ n, s.table n ≠ some .spare)
    {r : SysResult} (hr : Answers limit s r) : Owned limit (s.openIdle r) := by
  cases r with
  | fd n => exact owned_of_taken hnone hr.1 rfl rfl rfl
  | failed errno => exact owned_of_none hnone fun _ => rfl

theorem step_owned {limit : ℕ} (s : State) (e : Event) (h : Owned limit s)
    (hP : Possible limit s e) : ∃ t, step s e = some t ∧ Owned limit t := by
  cases e with
  | connect => exact ⟨_, rfl, h.spare, h.below⟩
  | openElsewhere n => exact ⟨_, rfl, h.set (ne_spare_of_none hP.2) (by decide)⟩
  | closeElsewhere n =>
    refine ⟨_, rfl, h.set ?_ (by decide)⟩
    rcases hP with hn | hn
    · rw [hn]
      decide
    · rw [hn]
      decide
  | handleConnection r =>
    rw [step, State.handleConnection]
    simp only [Possible] at hP
    cases hplace : s.place with
    | accept4 =>
      rw [hplace] at hP
      exact ⟨_, rfl, h.accept4 hplace hP.1⟩
    | closeIdle =>
      obtain ⟨t, ht, hnone, -⟩ := h.close (by rw [hplace]; rfl)
      simp only [ht, Option.map_some]
      exact ⟨_, rfl, owned_of_none hnone fun hholds => absurd hholds Bool.false_ne_true⟩
    | accept =>
      rw [hplace] at hP
      exact ⟨_, rfl, accept_owned (h.not_spare (by rw [hplace]; rfl)) hP.1⟩
    | closeAccepted =>
      obtain ⟨t, ht, hnone, -⟩ := h.close (by rw [hplace]; rfl)
      simp only [ht, Option.map_some]
      exact ⟨_, rfl, owned_of_none hnone fun hholds => absurd hholds Bool.false_ne_true⟩
    | openIdle =>
      rw [hplace] at hP
      exact ⟨_, rfl, openIdle_owned (h.not_spare (by rw [hplace]; rfl)) hP⟩

/-- Whatever other threads open and close between the system calls of `handleConnection`, and
whatever these return, no `::close` of it takes a descriptor from another part of the process; at
most one descriptor is held as a spare, and whenever `handleConnection` begins it is the one in
`idleFd_`. -/
theorem spare_owned {limit fd : ℕ} (hfd : fd < limit) {used : ℕ → Bool} {events : List Event}
    (h : Along step (Possible limit) (.listening fd used) events) :
    ∃ s, runFrom step (.listening fd used) events = some s ∧
      (∀ n m, s.table n = some .spare → s.table m = some .spare → n = m) ∧
      (s.place = .accept4 → ∀ n, s.table n = some .spare ↔ s.idleFd = some n) := by
  obtain ⟨s, hs, howned⟩ := runFrom_progress step_owned (listening_owned hfd used) h
  refine ⟨s, hs, ?_, ?_⟩
  · intro n m hn hm
    have hidle := ((howned.spare n).mp hn).2
    rw [((howned.spare m).mp hm).2, Option.some.injEq] at hidle
    exact hidle.symm
  · intro hplace n
    rw [howned.spare, hplace]
    exact and_iff_right rfl

/-- All but the spare are in use. Another thread takes the descriptor in the middle of a round. -/
def disturbedRun : List Event :=
  [.connect, .connect, .handleConnection (.failed .EMFILE), .handleConnection (.fd 0),
   .openElsewhere 2, .handleConnection (.failed .EMFILE), .handleConnection (.fd 0),
   .handleConnection (.failed .EMFILE)]

theorem disturbedRun_spare_owned :
    ∃ s, runFrom step (.listening 2 (· < 2)) disturbedRun = some s ∧
      (∀ n m, s.table n = some .spare → s.table m = some .spare → n = m) ∧
      (s.place = .accept4 → ∀ n, s.table n = some .spare ↔ s.idleFd = some n) :=
  spare_owned (by decide : 2 < 3) (by decide +kernel)

def Room (limit : ℕ) (s : State) : Prop := ∃ n < limit, s.table n = none

theorem not_full_of_room {limit : ℕ} {s : State} (h : Room limit s) : ¬Full limit s := by
  obtain ⟨n, hn, hnone⟩ := h
  exact fun hfull => hfull n hn hnone

theorem room_set {limit n : ℕ} {s : State} (hn : n < limit) : Room limit (s.set n none) := by
  refine ⟨n, hn, ?_⟩
  rw [table_set, if_pos rfl]

/-- No other thread opens a descriptor during a round, and `::accept` and `::open` fail there only
for want of a descriptor or of a connection. -/
def Undisturbed (s : State) : Event → Prop
  | .openElsewhere _ => s.place = .accept4
  | .handleConnection (.failed .EAGAIN) => s.place ≠ .openIdle
  | .handleConnection (.failed (.other _)) => s.place ≠ .accept ∧ s.place ≠ .openIdle
  | _ => True

instance (s : State) : ∀ e, Decidable (Undisturbed s e)
  | .connect => inferInstanceAs (Decidable True)
  | .openElsewhere _ => inferInstanceAs (Decidable (_ = _))
  | .closeElsewhere _ => inferInstanceAs (Decidable True)
  | .handleConnection (.fd _) => inferInstanceAs (Decidable True)
  | .handleConnection (.failed .EMFILE) => inferInstanceAs (Decidable True)
  | .handleConnection (.failed .EAGAIN) => inferInstanceAs (Decidable (_ ≠ _))
  | .handleConnection (.failed (.other _)) => inferInstanceAs (Decidable (_ ∧ _))

def Place.inRound : Place → Bool
  | .accept4 | .closeIdle => false
  | .accept | .closeAccepted | .openIdle => true

/-- The spare is there, or the descriptor that it will be is free. -/
structure Kept (limit : ℕ) (s : State) : Prop where
  spare : s.place.holds = true ∧ s.idleFd ≠ none ∨ s.place.inRound = true ∧ Room limit s
  outcomes : .overlooked ∉ s.outcomes

theorem Kept.room {limit : ℕ} {s : State} (h : Kept limit s) (hholds : s.place.holds = false) :
    Room limit s := by
  rcases h.spare with ⟨hplace, -⟩ | ⟨-, hroom⟩
  · rw [hholds] at hplace
    cases hplace
  · exact hroom

theorem Kept.idle {limit : ℕ} {s : State} (h : Kept limit s) (hplace : s.place.inRound = false) :
    s.place.holds = true ∧ s.idleFd ≠ none := by
  rcases h.spare with hidle | ⟨hround, -⟩
  · exact hidle
  · rw [hplace] at hround
    cases hround

theorem Kept.accept4 {limit : ℕ} {s : State} (h : Kept limit s) (hplace : s.place = .accept4)
    (r : SysResult) : Kept limit (s.accept4 r) := by
  obtain ⟨hholds, hidle⟩ := h.idle (by rw [hplace]; rfl)
  cases r with
  | fd n => exact ⟨.inl ⟨hholds, hidle⟩, h.outcomes⟩
  | failed errno =>
    cases errno with
    | EMFILE => exact ⟨.inl ⟨rfl, hidle⟩, h.outcomes⟩
    | EAGAIN => exact h
    | other code => exact h

theorem Kept.accept {limit : ℕ} {s : State} (h : Kept limit s) (hplace : s.place = .accept)
    {r : SysResult} (hr : Answers limit s r ∧ Queues s r)
    (hu : Undisturbed s (.handleConnection r)) : Kept limit (s.accept r) := by
  have hroom := h.room (by rw [hplace]; rfl)
  cases r with
  | fd n =>
    refine ⟨.inl ⟨rfl, Option.some_ne_none n⟩, ?_⟩
    intro hmem
    rcases List.mem_append.mp hmem with hold | hnew
    · exact h.outcomes hold
    · cases List.mem_singleton.mp hnew
  | failed errno =>
    cases errno with
    | EMFILE => exact absurd hr.1 (not_full_of_room hroom)
    | EAGAIN =>
      have hnobody : s.pending = 0 := hr.2
      refine ⟨.inr ⟨rfl, hroom⟩, ?_⟩
      change .overlooked ∉ s.outcomes ++ [if s.pending = 0 then .nobody else .overlooked]
      rw [if_pos hnobody, List.mem_append, List.mem_singleton, not_or]
      exact ⟨h.outcomes, by decide⟩
    | other code => exact absurd hplace hu.1

theorem Kept.openIdle {limit : ℕ} {s : State} (h : Kept limit s) (hplace : s.place = .openIdle)
    {r : SysResult} (hr : Answers limit s r) (hu : Undisturbed s (.handleConnection r)) :
    Kept limit (s.openIdle r) := by
  have hroom := h.room (by rw [hplace]; rfl)
  cases r with
  | fd n => exact ⟨.inl ⟨rfl, Option.some_ne_none n⟩, h.outcomes⟩
  | failed errno =>
    cases errno with
    | EMFILE => exact absurd hr (not_full_of_room hroom)
    | EAGAIN => exact absurd hplace hu
    | other code => exact absurd hplace hu.2

theorem Kept.close {limit : ℕ} {s : State} (h : Kept limit s) (howned : Owned limit s)
    (hholds : s.place.holds = true) (hclosing : s.place = .closeIdle ∨ s.place = .closeAccepted) :
    ∃ t, s.close s.idleFd = some t ∧ Room limit t ∧ t.outcomes = s.outcomes := by
  obtain ⟨t, ht, -, ⟨rfl, hnone⟩ | ⟨n, hn, -, rfl⟩⟩ := howned.close hholds
  · refine ⟨t, ht, ?_, rfl⟩
    rcases h.spare with ⟨-, hidle⟩ | ⟨-, hroom⟩
    · exact absurd hnone hidle
    · exact hroom
  · exact ⟨_, ht, room_set hn, rfl⟩

theorem step_undisturbed {limit : ℕ} (s : State) (e : Event) (h : Owned limit s ∧ Kept limit s)
    (hP : Possible limit s e ∧ Undisturbed s e) :
    ∃ t, step s e = some t ∧ Owned limit t ∧ Kept limit t := by
  obtain ⟨howned, hkept⟩ := h
  obtain ⟨hP, hu⟩ := hP
  suffices hstep : ∃ t, step s e = some t ∧ Kept limit t by
    obtain ⟨t, ht, hkept⟩ := hstep
    obtain ⟨u, hu, howned⟩ := step_owned s e howned hP
    cases ht.symm.trans hu
    exact ⟨t, ht, howned, hkept⟩
  cases e with
  | connect => exact ⟨_, rfl, hkept.spare, hkept.outcomes⟩
  | openElsewhere n =>
    have hplace : s.place = .accept4 := hu
    exact ⟨_, rfl, .inl (hkept.idle (by rw [hplace]; rfl)), hkept.outcomes⟩
  | closeElsewhere n =>
    refine ⟨_, rfl, hkept.spare.imp_right ?_, hkept.outcomes⟩
    rintro ⟨hround, m, hm, hnone⟩
    refine ⟨hround, m, hm, ?_⟩
    rw [table_set, hnone, ite_self]
  | handleConnection r =>
    rw [step, State.handleConnection]
    simp only [Possible] at hP
    cases hplace : s.place with
    | accept4 => exact ⟨_, rfl, hkept.accept4 hplace r⟩
    | closeIdle =>
      obtain ⟨t, ht, hroom, houtcomes⟩ :=
        hkept.close howned (by rw [hplace]; rfl) (.inl hplace)
      simp only [ht, Option.map_some]
      exact ⟨_, rfl, .inr ⟨rfl, hroom⟩, houtcomes ▸ hkept.outcomes⟩
    | accept =>
      rw [hplace] at hP
      exact ⟨_, rfl, hkept.accept hplace hP hu⟩
    | closeAccepted =>
      obtain ⟨t, ht, hroom, houtcomes⟩ :=
        hkept.close howned (by rw [hplace]; rfl) (.inr hplace)
      simp only [ht, Option.map_some]
      exact ⟨_, rfl, .inr ⟨rfl, hroom⟩, houtcomes ▸ hkept.outcomes⟩
    | openIdle =>
      rw [hplace] at hP
      exact ⟨_, rfl, hkept.openIdle hplace hP hu⟩

/-- As long as no other thread opens a descriptor during a round, and nothing fails but for want of
a descriptor or of a connection, the server keeps its spare, and every round refuses a connection
unless none is waiting. -/
theorem undisturbed_rounds_refuse {limit fd : ℕ} (hfd : fd < limit) {used : ℕ → Bool}
    {events : List Event} (h : Along step (Possible limit) (.listening fd used) events)
    (hu : Along step Undisturbed (.listening fd used) events) :
    ∃ s, runFrom step (.listening fd used) events = some s ∧
      (s.place = .accept4 → ∃ n < limit, s.idleFd = some n ∧ s.table n = some .spare) ∧
      .overlooked ∉ s.outcomes := by
  have hkept : Kept limit (.listening fd used) :=
    ⟨.inl ⟨rfl, Option.some_ne_none fd⟩, List.not_mem_nil⟩
  obtain ⟨s, hs, howned, hkept⟩ :=
    runFrom_progress step_undisturbed ⟨listening_owned hfd used, hkept⟩ (along_and h hu)
  refine ⟨s, hs, ?_, hkept.outcomes⟩
  intro hplace
  obtain ⟨n, hn⟩ := Option.ne_none_iff_exists'.mp (hkept.idle (by rw [hplace]; rfl)).2
  have hspare : s.table n = some .spare := (howned.spare n).mpr ⟨by rw [hplace]; rfl, hn⟩
  exact ⟨n, howned.below n hspare, hn, hspare⟩

def undisturbedRun : List Event :=
  [.connect, .handleConnection (.failed .EMFILE), .handleConnection (.fd 0),
   .handleConnection (.fd 2), .handleConnection (.fd 0), .handleConnection (.fd 2),
   .closeElsewhere 1, .connect, .handleConnection (.fd 1), .handleConnection (.failed .EMFILE)]

theorem undisturbedRun_refuses :
    ∃ s, runFrom step (.listening 2 (· < 2)) undisturbedRun = some s ∧
      (s.place = .accept4 → ∃ n < 3, s.idleFd = some n ∧ s.table n = some .spare) ∧
      .overlooked ∉ s.outcomes :=
  undisturbed_rounds_refuse (by decide : 2 < 3) (by decide +kernel) (by decide +kernel)

/-- No descriptor is left, not even the spare. -/
structure Lost (limit : ℕ) (s : State) : Prop where
  full : Full limit s
  idle : s.idleFd = none

def State.refused (s : State) : ℕ := s.outcomes.count .refused

def Event.connects : Event → Bool
  | .connect => true
  | _ => false

theorem Lost.accept {limit : ℕ} {s : State} (h : Lost limit s) {r : SysResult}
    (hr : Answers limit s r) :
    Lost limit (s.accept r) ∧ (s.accept r).refused = s.refused ∧
      (s.accept r).pending = s.pending := by
  cases r with
  | fd n => exact absurd hr.2 (h.full n hr.1)
  | failed errno =>
    refine ⟨⟨h.full, rfl⟩, ?_, rfl⟩
    change List.count .refused (s.outcomes ++ [if s.pending = 0 then .nobody else .overlooked]) =
      s.outcomes.count .refused
    rw [List.count_append, Nat.add_eq_left]
    split_ifs <;> rfl

theorem step_lost {limit : ℕ} {s t : State} {e : Event} (h : Lost limit s)
    (hP : Possible limit s e) (hopen : ∀ n, e ≠ .closeElsewhere n) (hstep : step s e = some t) :
    Lost limit t ∧ t.refused = s.refused ∧ t.pending = s.pending + e.connects.toNat := by
  cases e with
  | connect =>
    cases hstep
    exact ⟨⟨h.full, h.idle⟩, rfl, rfl⟩
  | openElsewhere n => exact absurd hP.2 (h.full n hP.1)
  | closeElsewhere n => exact absurd rfl (hopen n)
  | handleConnection r =>
    have hclose : s.close s.idleFd = some s := by
      rw [h.idle]
      rfl
    rw [step, State.handleConnection] at hstep
    simp only [Possible] at hP
    cases hplace : s.place with
    | accept4 =>
      simp only [hplace, Option.some.injEq] at hP hstep
      subst hstep
      cases r with
      | fd n => exact absurd hP.1.2 (h.full n hP.1.1)
      | failed errno => cases errno <;> exact ⟨⟨h.full, h.idle⟩, rfl, rfl⟩
    | closeIdle =>
      simp only [hplace, hclose, Option.map_some, Option.some.injEq] at hstep
      subst hstep
      exact ⟨⟨h.full, h.idle⟩, rfl, rfl⟩
    | accept =>
      simp only [hplace, Option.some.injEq] at hP hstep
      subst hstep
      exact h.accept hP.1
    | closeAccepted =>
      simp only [hplace, hclose, Option.map_some, Option.some.injEq] at hstep
      subst hstep
      exact ⟨⟨h.full, h.idle⟩, rfl, rfl⟩
    | openIdle =>
      simp only [hplace, Option.some.injEq] at hP hstep
      subst hstep
      cases r with
      | fd n => exact absurd hP.2 (h.full n hP.1)
      | failed errno => exact ⟨⟨h.full, rfl⟩, rfl, rfl⟩

/-- Once the spare is lost and every descriptor is in use, no connection is accepted or refused and
the spare stays lost until some other part of the process closes a descriptor, however often
`handleConnection` is called. -/
theorem lost_spare_starves {limit : ℕ} {s t : State} {events : List Event} (h : Lost limit s)
    (hP : Along step (Possible limit) s events)
    (hopen : ∀ e ∈ events, ∀ n, e ≠ .closeElsewhere n) (hrun : runFrom step s events = some t) :
    t.idleFd = none ∧ t.refused = s.refused ∧
      t.pending = s.pending + events.countP Event.connects := by
  suffices hlost : Lost limit t ∧ t.refused = s.refused ∧
      t.pending = s.pending + events.countP Event.connects from ⟨hlost.1.idle, hlost.2⟩
  induction events generalizing s with
  | nil =>
    cases hrun
    exact ⟨h, rfl, rfl⟩
  | cons e events ih =>
    rw [List.forall_mem_cons] at hopen
    obtain ⟨u, hu, hrun⟩ := (runFrom_cons ..).mp hrun
    obtain ⟨hlost, hrefused, hpending⟩ := step_lost h hP.1 hopen.1 hu
    obtain ⟨hlast, hrefused', hpending'⟩ := ih hlost (hP.2 u hu) hopen.2 hrun
    refine ⟨hlast, hrefused'.trans hrefused, ?_⟩
    have hfirst : (if e.connects = true then 1 else 0) = e.connects.toNat := by
      cases e.connects <;> rfl
    rw [hpending', hpending, List.countP_cons, hfirst]
    omega

def disturbed : State :=
  (runFrom step (.listening 2 (· < 2)) disturbedRun).getD (.listening 2 (· < 2))

def starvedRun : List Event :=
  [.handleConnection (.failed .EMFILE), .handleConnection (.fd 0), .connect,
   .handleConnection (.failed .EMFILE), .handleConnection (.fd 0),
   .handleConnection (.failed .EMFILE)]

theorem starvedRun_starves :
    ∃ t, runFrom step disturbed starvedRun = some t ∧ t.idleFd = none ∧
      t.refused = disturbed.refused ∧ t.pending = 3 := by
  have h : Lost 3 disturbed := ⟨by decide +kernel, by decide +kernel⟩
  have hP : Along step (Possible 3) disturbed starvedRun := by decide +kernel
  have hisSome : (runFrom step disturbed starvedRun).isSome = true := by decide +kernel
  obtain ⟨t, ht⟩ := Option.isSome_iff_exists.mp hisSome
  obtain ⟨hidle, hrefused, hpending⟩ := lost_spare_starves h hP (by simp [starvedRun]) ht
  refine ⟨t, ht, hidle, hrefused, ?_⟩
  rw [hpending]
  decide +kernel

end Matelib.IdleDescriptor
