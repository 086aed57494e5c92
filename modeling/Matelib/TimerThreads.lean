import Matelib.TimerCancel

/-!
# Timers of any thread

In the loop thread `addTimer` and `cancelTimer` run at once; from another thread they put a functor
into the queue of the loop, which is first in, first out. So the loop thread can overtake a timer
that is still in the queue: cancelling it then finds nothing, and it is added afterwards. The main
result is about every interleaving in which this does not happen.
-/

namespace Matelib

namespace TimerThreads

open TimerRuns Transition

/-- A functor, with the number of the timer whose pointer or id it was bound to. -/
inductive Functor where
  | addTimerInLoop (i : ℕ)
  | cancelTimerInLoop (i : ℕ)
  | other
  deriving DecidableEq

/-- `functors` are those that `doPendingFunctors` has still to call. The last lists are histories:
the timers that an `addTimer` has made and not yet passed on, those whose ids it has returned, and
those for which `cancelTimerInLoop` has run outside of `handleRead`. -/
structure State where
  chronicle : Chronicle
  functors : List Functor
  pendingFunctors : List Functor
  made : List ℕ
  returned : List ℕ
  cancelled : List ℕ
  deriving DecidableEq

def State.init : State := ⟨.init, [], [], [], [], []⟩

def State.perform (s : State) (e : TimerRuns.Event) : Option State :=
  (s.chronicle.step e).map fun c => { s with chronicle := c }

def addTimerInLoop (s : State) (i : ℕ) (now : ℤ) : Option State :=
  s.chronicle.ledger.records[i]?.bind fun r => s.perform (.addTimerInLoop r.timer now)

def cancelTimerInLoop (s : State) (i : ℕ) : Option State :=
  s.chronicle.ledger.records[i]?.bind fun r =>
    (s.perform (.cancelTimerInLoop r.timerId)).map fun t =>
      if s.chronicle.state.frame = none then { t with cancelled := s.cancelled ++ [i] } else t

def State.queueInLoop (s : State) (f : Functor) : State :=
  { s with pendingFunctors := s.pendingFunctors ++ [f] }

def State.passOn (s : State) (i : ℕ) : State :=
  { s with made := s.made.erase i, returned := s.returned ++ [i] }

/-- `newTimer` is the first part of `addTimer` in any thread. The functions named `…InLoop` are
called by the loop thread itself. -/
inductive Event where
  | newTimer (timer : ℕ) (time : ℤ) (intervalInSec : Double)
  -- other threads
  | addTimer (i : ℕ)
  | cancelTimer (i : ℕ)
  | queueInLoop
  -- the loop thread
  | addTimerInLoop (i : ℕ) (now : ℤ)
  | cancelTimerInLoop (i : ℕ)
  | doPendingFunctors
  | callFunctor (now : ℤ)
  | handleRead (now : ℤ) (fired : Bool)
  | runTimer
  | endRead (now : ℤ)
  deriving DecidableEq

def callFunctor (s : State) (now : ℤ) : Functor → Option State
  | .addTimerInLoop i => addTimerInLoop s i now
  | .cancelTimerInLoop i => cancelTimerInLoop s i
  | .other => some s

def step (s : State) : Event → Option State
  | .newTimer timer time intervalInSec =>
    (s.perform (.newTimer timer time intervalInSec)).map fun t =>
      { t with made := s.made ++ [s.chronicle.ledger.records.length] }
  | .addTimer i => some ((s.queueInLoop (.addTimerInLoop i)).passOn i)
  | .cancelTimer i => some (s.queueInLoop (.cancelTimerInLoop i))
  | .queueInLoop => some (s.queueInLoop .other)
  | .addTimerInLoop i now => (addTimerInLoop s i now).map fun t => t.passOn i
  | .cancelTimerInLoop i => cancelTimerInLoop s i
  | .doPendingFunctors => some { s with functors := s.pendingFunctors, pendingFunctors := [] }
  | .callFunctor now => match s.functors with
    | [] => none
    | f :: functors => callFunctor { s with functors := functors } now f
  | .handleRead now fired => s.perform (.handleRead now fired)
  | .runTimer => s.perform .runTimer
  | .endRead now => s.perform (.endRead now)

/-- What can happen: a timer is passed on once, only an id that was returned is cancelled, and the
loop calls functors when no handler is running. -/
def Possible (s : State) : Event → Prop
  | .newTimer timer time intervalInSec => s.chronicle.Allowed (.newTimer timer time intervalInSec)
  | .addTimer i => i ∈ s.made
  | .cancelTimer i => i ∈ s.returned
  | .queueInLoop => True
  | .addTimerInLoop i _ => i ∈ s.made
  | .cancelTimerInLoop i => i ∈ s.returned
  | .doPendingFunctors => s.functors = [] ∧ s.chronicle.state.frame = none
  | .callFunctor _ => s.functors ≠ [] ∧ s.chronicle.state.frame = none
  | .handleRead now fired => s.functors = [] ∧ s.chronicle.Allowed (.handleRead now fired)
  | .runTimer => s.chronicle.Allowed .runTimer
  | .endRead now => s.chronicle.Allowed (.endRead now)

instance (s : State) (e : Event) : Decidable (Possible s e) := by
  cases e <;> unfold Possible <;> infer_instance

def State.queue (s : State) : List Functor := s.functors ++ s.pendingFunctors

/-- The loop thread does not cancel a timer that is still to be added. -/
def NotWaiting (s : State) : Event → Prop
  | .cancelTimerInLoop i => s.chronicle.state.frame = none → .addTimerInLoop i ∉ s.queue
  | _ => True

instance (s : State) (e : Event) : Decidable (NotWaiting s e) := by
  cases e <;> unfold NotWaiting <;> infer_instance

/-- The callback of a timer that has been cancelled does not run. -/
def Quiet (s : State) (e : Event) : Prop :=
  ∀ i ∈ s.cancelled, ∀ t ∈ step s e, t.chronicle.ledger.times i = s.chronicle.ledger.times i

instance (s : State) (e : Event) : Decidable (Quiet s e) :=
  inferInstanceAs (Decidable (∀ i ∈ _, ∀ t ∈ step s e, _))

/-- What every step of the queue keeps. -/
structure Later (c d : Chronicle) : Prop where
  records : ∀ (i : ℕ) (r : Record), c.ledger.records[i]? = some r → d.ledger.records[i]? = some r
  inserted : ∀ i ∈ c.ledger.inserted, i ∈ d.ledger.inserted
  deleted : ∀ i ∈ c.ledger.deleted, i ∈ d.ledger.deleted
  times : ∀ i ∈ c.ledger.deleted, d.ledger.times i = c.ledger.times i

variable {c d : Chronicle} {i j : ℕ} {r : Record}

theorem Later.refl (c : Chronicle) : Later c c where
  records _ _ hr := hr
  inserted _ hi := hi
  deleted _ hi := hi
  times _ _ := rfl

theorem mem_inserted_note {l : Ledger} (hi : i ∈ l.inserted) (s : TimerRuns.State)
    (e : TimerRuns.Event) : i ∈ (l.note s e).inserted := by
  cases e with
  | addTimerInLoop timer now => exact List.mem_append_left _ hi
  | runTimer =>
    rw [Ledger.note]
    split
    · exact hi
    · exact hi
  | _ => exact hi

theorem later_of_step (h : c.Kept) {e : TimerRuns.Event} (he : c.Allowed e)
    (hstep : c.step e = some d) : Later c d where
  records _ _ hr := h.record_step he hstep hr
  inserted i hi := by
    rw [(h.of_step he hstep).2.2]
    exact mem_inserted_note hi c.state e
  deleted _ hi := h.deleted_step he hstep hi
  times _ hi := h.times_step he hstep hi

def Fresh (c : Chronicle) (i : ℕ) : Prop :=
  ∃ p ∈ c.state.fresh, c.ledger.owner.find p = some i

theorem Fresh.record (hi : Fresh c i) (h : c.Kept) :
    ∃ r, c.ledger.Lives i r ∧ r.timer ∈ c.state.fresh := by
  obtain ⟨p, hp, ho⟩ := hi
  obtain ⟨j, r, hlives, rfl⟩ := h.known p (h.owned.fresh_live p hp)
  cases ho.symm.trans hlives.owner
  exact ⟨r, hlives, hp⟩

theorem Fresh.step (hi : Fresh c i) (h : c.Kept) {e : TimerRuns.Event} (he : c.Allowed e)
    (hstep : c.step e = some d)
    (hother : ∀ p now, e = .addTimerInLoop p now → c.ledger.owner.find p ≠ some i) :
    Fresh d i := by
  obtain ⟨p, hp, ho⟩ := hi
  obtain ⟨t, rfl, hmove, -⟩ := h.eq_of_step he hstep
  cases hmove with
  | @newTimer timer _ _ hnew =>
    refine ⟨p, OrderedMap.mem_insert.mpr (.inr hp), ?_⟩
    have hne : timer ≠ p := fun heq => hnew (heq ▸ h.owned.fresh_live p hp)
    exact (OrderedMap.find_insert_of_ne _ _ hne).trans ho
  | @add timer now _ _ _ _ =>
    refine ⟨p, OrderedMap.mem_erase.mpr ⟨?_, hp⟩, ho⟩
    rintro rfl
    exact hother _ now rfl ho
  | runTimer hf hremaining =>
    refine ⟨p, hp, ?_⟩
    rw [Ledger.delete, Ledger.note]
    split
    · exact ho
    · exact ho
  | _ => exact ⟨p, hp, ho⟩

theorem inserted_add (h : c.Kept) (hlives : c.ledger.Lives i r) {now : ℤ}
    (he : c.Allowed (.addTimerInLoop r.timer now))
    (hstep : c.step (.addTimerInLoop r.timer now) = some d) : i ∈ d.ledger.inserted := by
  rw [(h.of_step he hstep).2.2]
  change i ∈ c.ledger.inserted ++ (c.ledger.owner.find r.timer).toList
  rw [hlives.owner]
  exact List.mem_append_right _ (List.mem_singleton_self i)

/-- A timer that has been inserted is deleted when it is cancelled outside of `handleRead`. -/
theorem deleted_cancel (h : c.Kept) (hi : i ∈ c.ledger.inserted)
    (hr : c.ledger.records[i]? = some r) (hidle : c.state.frame = none)
    (hstep : c.step (.cancelTimerInLoop r.timerId) = some d) : i ∈ d.ledger.deleted := by
  rcases h.cancelled hi hr hstep with hdeleted | ⟨f, hf, -⟩
  · exact hdeleted
  · have hsame : d.state.frame = none := by
      have he : c.Allowed (.cancelTimerInLoop r.timerId) := trivial
      obtain ⟨hmove, -⟩ := h.of_step he hstep
      obtain ⟨t, l⟩ := d
      cases hmove with
      | cancel => exact hidle
      | cancelExpired _ hf => cases hidle.symm.trans hf
      | cancelNone => exact hidle
    cases hsame.symm.trans hf

def Functor.adds : Functor → Option ℕ
  | .addTimerInLoop i => some i
  | _ => none

def Functor.cancels : Functor → Option ℕ
  | .cancelTimerInLoop i => some i
  | _ => none

/-- A timer is made, queued and added once; functors are about timers whose ids were returned; and
a timer is not cancelled in front of its addition. -/
structure Queued (made returned : List ℕ) (queue : List Functor) : Prop where
  once : (made ++ queue.filterMap Functor.adds).Nodup
  unknown : ∀ i ∈ made, i ∉ returned
  known : ∀ f ∈ queue, ∀ i, f.adds = some i ∨ f.cancels = some i → i ∈ returned
  fifo : queue.Pairwise fun f g => ∀ i, f.cancels = some i → g.adds ≠ some i

variable {made returned : List ℕ} {queue : List Functor} {f : Functor}

theorem mem_adds : i ∈ queue.filterMap Functor.adds ↔ .addTimerInLoop i ∈ queue := by
  rw [List.mem_filterMap]
  constructor
  · rintro ⟨f, hf, hadds⟩
    cases f with
    | addTimerInLoop j =>
      cases hadds
      exact hf
    | _ => cases hadds
  · intro hf
    exact ⟨_, hf, rfl⟩

theorem queued_nil : Queued [] [] [] where
  once := List.nodup_nil
  unknown _ hi := absurd hi List.not_mem_nil
  known _ hf := absurd hf List.not_mem_nil
  fifo := List.Pairwise.nil

theorem Queued.make (h : Queued made returned queue) (hmade : i ∉ made)
    (hqueue : .addTimerInLoop i ∉ queue) (hreturned : i ∉ returned) :
    Queued (made ++ [i]) returned queue where
  once := by
    have hnew : i ∉ made ++ queue.filterMap Functor.adds := by
      rw [List.mem_append, mem_adds, not_or]
      exact ⟨hmade, hqueue⟩
    have hperm : (made ++ [i] ++ queue.filterMap Functor.adds).Perm
        (i :: (made ++ queue.filterMap Functor.adds)) := by
      rw [List.append_assoc]
      exact List.perm_middle
    exact hperm.nodup_iff.mpr (List.nodup_cons.mpr ⟨hnew, h.once⟩)
  unknown j hj := by
    rcases List.mem_append.mp hj with hj | hj
    · exact h.unknown j hj
    · rwa [List.mem_singleton.mp hj]
  known := h.known
  fifo := h.fifo

theorem Queued.passOn (h : Queued made returned queue) (i : ℕ) :
    Queued (made.erase i) (returned ++ [i]) queue where
  once := h.once.sublist (List.erase_sublist.append_right _)
  unknown j hj := by
    obtain ⟨hne, hmem⟩ := (List.Nodup.mem_erase_iff (List.nodup_append.mp h.once).1).mp hj
    rw [List.mem_append, List.mem_singleton, not_or]
    exact ⟨h.unknown j hmem, hne⟩
  known g hg j hj := List.mem_append_left _ (h.known g hg j hj)
  fifo := h.fifo

theorem Queued.push (h : Queued made returned queue) (hadds : f.adds = none)
    (hcancels : ∀ i, f.cancels = some i → i ∈ returned) :
    Queued made returned (queue ++ [f]) where
  once := by
    rw [List.filterMap_append, List.filterMap_cons_none hadds, List.filterMap_nil, List.append_nil]
    exact h.once
  unknown := h.unknown
  known g hg i hi := by
    rcases List.mem_append.mp hg with hg | hg
    · exact h.known g hg i hi
    · rw [List.mem_singleton.mp hg, hadds] at hi
      exact hcancels i (hi.resolve_left nofun)
  fifo := by
    refine List.pairwise_append.mpr ⟨h.fifo, List.pairwise_singleton _ _, ?_⟩
    intro g _ e he i _
    rw [List.mem_singleton.mp he, hadds]
    exact nofun

theorem Queued.pushAdd (h : Queued made returned queue) (hi : i ∈ made) :
    Queued (made.erase i) (returned ++ [i]) (queue ++ [.addTimerInLoop i]) where
  once := by
    have hperm : (made.erase i ++ (queue.filterMap Functor.adds ++ [i])).Perm
        (made ++ queue.filterMap Functor.adds) := by
      rw [← List.append_assoc]
      refine (List.perm_append_singleton i _).trans ?_
      exact ((List.perm_cons_erase hi).append_right _).symm
    rw [List.filterMap_append]
    exact hperm.nodup_iff.mpr h.once
  unknown := (h.passOn i).unknown
  known g hg j hj := by
    rcases List.mem_append.mp hg with hg | hg
    · exact List.mem_append_left _ (h.known g hg j hj)
    · rw [List.mem_singleton.mp hg] at hj
      rcases hj with hj | hj
      · cases hj
        exact List.mem_append_right _ (List.mem_singleton_self _)
      · cases hj
  fifo := by
    refine List.pairwise_append.mpr ⟨h.fifo, List.pairwise_singleton _ _, ?_⟩
    intro g hg e he j hj
    rw [List.mem_singleton.mp he]
    rintro ⟨⟩
    -- the id was not returned yet
    exact h.unknown i hi (h.known g hg i (.inr hj))

theorem Queued.pop (h : Queued made returned (f :: queue)) : Queued made returned queue where
  once := h.once.sublist (((List.sublist_cons_self f queue).filterMap _).append_left _)
  unknown := h.unknown
  known g hg := h.known g (List.mem_cons_of_mem f hg)
  fifo := (List.pairwise_cons.mp h.fifo).2

structure Inv (s : State) : Prop where
  kept : s.chronicle.Kept
  queued : Queued s.made s.returned s.queue
  fresh : ∀ i, i ∈ s.made ∨ .addTimerInLoop i ∈ s.queue → Fresh s.chronicle i
  added : ∀ i ∈ s.returned, i ∈ s.chronicle.ledger.inserted ∨ .addTimerInLoop i ∈ s.queue
  gone : ∀ i ∈ s.cancelled, i ∈ s.chronicle.ledger.deleted

theorem inv_init : Inv State.init where
  kept := Chronicle.kept_init
  queued := queued_nil
  fresh i hi := absurd hi (by rw [State.init, State.queue]; simp)
  added i hi := absurd hi List.not_mem_nil
  gone i hi := absurd hi List.not_mem_nil

variable {s t : State}

theorem Inv.record (h : Inv s) (hi : i ∈ s.returned) :
    ∃ r, s.chronicle.ledger.records[i]? = some r := by
  rcases h.added i hi with hinserted | hqueue
  · exact ⟨_, List.getElem?_eq_getElem (h.kept.inserted_lt i hinserted)⟩
  · obtain ⟨r, hlives, -⟩ := (h.fresh i (.inr hqueue)).record h.kept
    exact ⟨r, hlives.record⟩

theorem Inv.perform (h : Inv s) {e : TimerRuns.Event} (he : s.chronicle.Allowed e)
    (hadd : ∀ p now, e ≠ .addTimerInLoop p now) :
    ∃ c, s.chronicle.step e = some c ∧ Later s.chronicle c ∧ Inv { s with chronicle := c } := by
  obtain ⟨c, hstep, -, hkept⟩ := h.kept.step he
  have hlater := later_of_step h.kept he hstep
  refine ⟨c, hstep, hlater, hkept, h.queued, ?_, ?_, ?_⟩
  · intro i hi
    exact (h.fresh i hi).step h.kept he hstep fun p now heq => absurd heq (hadd p now)
  · intro i hi
    exact (h.added i hi).imp_left (hlater.inserted i)
  · intro i hi
    exact hlater.deleted i (h.gone i hi)

theorem Inv.newTimer (h : Inv s) {timer : ℕ} {time : ℤ} {intervalInSec : Double}
    (he : s.chronicle.Allowed (.newTimer timer time intervalInSec)) :
    ∃ t, step s (.newTimer timer time intervalInSec) = some t ∧ Later s.chronicle t.chronicle ∧
      Inv t := by
  obtain ⟨c, hstep, hlater, hinv⟩ := h.perform he fun _ _ => nofun
  have hlt : ∀ i, Fresh s.chronicle i → i ≠ s.chronicle.ledger.records.length := by
    rintro i hi rfl
    obtain ⟨r, hlives, -⟩ := hi.record h.kept
    exact absurd (List.getElem?_eq_some_iff.mp hlives.record).1 (lt_irrefl _)
  have hreturned : s.chronicle.ledger.records.length ∉ s.returned := by
    intro hmem
    obtain ⟨r, hr⟩ := h.record hmem
    exact absurd (List.getElem?_eq_some_iff.mp hr).1 (lt_irrefl _)
  refine ⟨{ s with
    chronicle := c
    made := s.made ++ [s.chronicle.ledger.records.length] }, ?_, hlater, hinv.kept, ?_, ?_,
    hinv.added, hinv.gone⟩
  · rw [step, State.perform, hstep]
    rfl
  · exact h.queued.make (fun hmem => hlt _ (h.fresh _ (.inl hmem)) rfl)
      (fun hmem => hlt _ (h.fresh _ (.inr hmem)) rfl) hreturned
  · intro i hi
    rw [List.mem_append, List.mem_singleton, or_right_comm] at hi
    rcases hi with hi | rfl
    · exact hinv.fresh i hi
    · obtain ⟨t, -, rfl⟩ := Option.map_eq_some_iff.mp hstep
      obtain ⟨hmove, -⟩ := h.kept.of_step he hstep
      cases hmove with
      | newTimer hnew =>
        exact ⟨timer, OrderedMap.mem_insert.mpr (.inl rfl), OrderedMap.find_insert_self ..⟩

theorem addTimerInLoop_eq {now : ℤ} (hr : s.chronicle.ledger.records[i]? = some r)
    (hstep : s.chronicle.step (.addTimerInLoop r.timer now) = some c) :
    addTimerInLoop s i now = some { s with chronicle := c } := by
  rw [addTimerInLoop, hr, Option.bind_some, State.perform, hstep]
  rfl

theorem Inv.add (h : Inv s) (hi : i ∈ s.made ∨ .addTimerInLoop i ∈ s.queue) (now : ℤ) :
    ∃ r c, s.chronicle.ledger.records[i]? = some r ∧
      s.chronicle.step (.addTimerInLoop r.timer now) = some c ∧ Later s.chronicle c ∧ c.Kept ∧
      i ∈ c.ledger.inserted ∧ ∀ j, j ≠ i → Fresh s.chronicle j → Fresh c j := by
  obtain ⟨r, hlives, hfresh⟩ := (h.fresh i hi).record h.kept
  have he : s.chronicle.Allowed (.addTimerInLoop r.timer now) := hfresh
  obtain ⟨c, hstep, -, hkept⟩ := h.kept.step he
  refine ⟨r, c, hlives.record, hstep, later_of_step h.kept he hstep, hkept,
    inserted_add h.kept hlives he hstep, ?_⟩
  intro j hj hfresh'
  refine hfresh'.step h.kept he hstep ?_
  rintro p now ⟨⟩
  rw [hlives.owner]
  intro heq
  exact hj (Option.some.inj heq).symm

theorem Inv.cancel (h : Inv s) (hi : ∃ r, s.chronicle.ledger.records[i]? = some r)
    (hinserted : s.chronicle.state.frame = none → i ∈ s.chronicle.ledger.inserted) :
    ∃ t, cancelTimerInLoop s i = some t ∧ Later s.chronicle t.chronicle ∧ Inv t := by
  obtain ⟨r, hr⟩ := hi
  have he : s.chronicle.Allowed (.cancelTimerInLoop r.timerId) := trivial
  obtain ⟨c, hstep, hlater, hinv⟩ := h.perform he fun _ _ => nofun
  rw [cancelTimerInLoop, hr, Option.bind_some, State.perform, hstep]
  refine ⟨_, rfl, ?_⟩
  split_ifs with hidle
  · refine ⟨hlater, hinv.kept, hinv.queued, hinv.fresh, hinv.added, ?_⟩
    intro j hj
    rcases List.mem_append.mp hj with hj | hj
    · exact hinv.gone j hj
    · rw [List.mem_singleton.mp hj]
      exact deleted_cancel h.kept (hinserted hidle) hr hidle hstep
  · exact ⟨hlater, hinv⟩

theorem queue_queueInLoop (s : State) (f : Functor) : (s.queueInLoop f).queue = s.queue ++ [f] :=
  (List.append_assoc ..).symm

theorem queue_of_functors {f : Functor} {functors : List Functor}
    (hs : s.functors = f :: functors) :
    s.queue = f :: State.queue { s with functors := functors } := by
  rw [State.queue, hs]
  rfl

theorem Inv.push (h : Inv s) {f : Functor} (hadds : f.adds = none)
    (hcancels : ∀ i, f.cancels = some i → i ∈ s.returned) : Inv (s.queueInLoop f) where
  kept := h.kept
  queued := by
    rw [queue_queueInLoop]
    exact h.queued.push hadds hcancels
  fresh i hi := by
    refine h.fresh i (hi.imp_right ?_)
    rw [queue_queueInLoop, List.mem_append, List.mem_singleton]
    rintro (hmem | rfl)
    · exact hmem
    · cases hadds
  added i hi := by
    refine (h.added i hi).imp_right ?_
    rw [queue_queueInLoop]
    exact List.mem_append_left _
  gone := h.gone

theorem Inv.pushAdd (h : Inv s) (hi : i ∈ s.made) :
    Inv ((s.queueInLoop (.addTimerInLoop i)).passOn i) := by
  have hqueue : ((s.queueInLoop (.addTimerInLoop i)).passOn i).queue =
      s.queue ++ [.addTimerInLoop i] := queue_queueInLoop s _
  refine ⟨h.kept, ?_, ?_, ?_, h.gone⟩
  · rw [hqueue]
    exact h.queued.pushAdd hi
  · rw [hqueue]
    intro j hj
    rcases hj with hj | hj
    · exact h.fresh j (.inl (List.mem_of_mem_erase hj))
    · rcases List.mem_append.mp hj with hj | hj
      · exact h.fresh j (.inr hj)
      · cases List.mem_singleton.mp hj
        exact h.fresh i (.inl hi)
  · rw [hqueue]
    intro j hj
    rcases List.mem_append.mp hj with hj | hj
    · exact (h.added j hj).imp_right (List.mem_append_left _)
    · rw [List.mem_singleton.mp hj]
      exact .inr (List.mem_append_right _ (List.mem_singleton_self _))

theorem Inv.addNow (h : Inv s) (hi : i ∈ s.made) (now : ℤ) :
    ∃ t, step s (.addTimerInLoop i now) = some t ∧ Later s.chronicle t.chronicle ∧ Inv t := by
  obtain ⟨r, c, hr, hstep, hlater, hkept, hinserted, hothers⟩ := h.add (.inl hi) now
  refine ⟨State.passOn { s with chronicle := c } i, ?_, hlater, hkept, h.queued.passOn i, ?_, ?_,
    ?_⟩
  · rw [step, addTimerInLoop_eq hr hstep]
    rfl
  · intro j hj
    have hne : j ≠ i := by
      rintro rfl
      rcases hj with hj | hj
      · exact List.Nodup.not_mem_erase (List.nodup_append.mp h.queued.once).1 hj
      · exact h.queued.unknown j hi (h.queued.known _ hj j (.inl rfl))
    exact hothers j hne (h.fresh j (hj.imp_left List.mem_of_mem_erase))
  · intro j hj
    rcases List.mem_append.mp hj with hj | hj
    · exact (h.added j hj).imp_left (hlater.inserted j)
    · rw [List.mem_singleton.mp hj]
      exact .inl hinserted
  · intro j hj
    exact hlater.deleted j (h.gone j hj)

theorem Inv.pop (h : Inv s) {f : Functor} {functors : List Functor}
    (hs : s.functors = f :: functors) (hadds : f.adds = none) :
    Inv { s with functors := functors } := by
  have hqueue := queue_of_functors hs
  have hiff : ∀ j, .addTimerInLoop j ∈ s.queue ↔
      .addTimerInLoop j ∈ State.queue { s with functors := functors } := by
    intro j
    rw [hqueue, List.mem_cons]
    refine or_iff_right ?_
    rintro rfl
    cases hadds
  refine ⟨h.kept, (hqueue ▸ h.queued).pop, ?_, ?_, h.gone⟩
  · intro j hj
    exact h.fresh j (hj.imp_right (hiff j).mpr)
  · intro j hj
    exact (h.added j hj).imp_right (hiff j).mp

/-- A functor is called. Its timer was queued in front of the cancellation. -/
theorem Inv.callFunctor (h : Inv s) {f : Functor} {functors : List Functor}
    (hs : s.functors = f :: functors) (now : ℤ) :
    ∃ t, callFunctor { s with functors := functors } now f = some t ∧
      Later s.chronicle t.chronicle ∧ Inv t := by
  have hqueue := queue_of_functors hs
  have hqueued := h.queued
  rw [hqueue] at hqueued
  cases f with
  | other => exact ⟨_, rfl, Later.refl _, h.pop hs rfl⟩
  | cancelTimerInLoop i =>
    have hreturned : i ∈ s.returned := hqueued.known _ List.mem_cons_self i (.inr rfl)
    have hpop := h.pop hs rfl
    refine hpop.cancel (h.record hreturned) ?_
    intro _
    rcases hpop.added i hreturned with hinserted | hmem
    · exact hinserted
    · exact absurd rfl ((List.pairwise_cons.mp hqueued.fifo).1 _ hmem i rfl)
  | addTimerInLoop i =>
    have hi : .addTimerInLoop i ∈ s.queue := by
      rw [hqueue]
      exact List.mem_cons_self
    obtain ⟨r, c, hr, hstep, hlater, hkept, hinserted, hothers⟩ := h.add (.inr hi) now
    refine ⟨_, addTimerInLoop_eq hr hstep, hlater, hkept, hqueued.pop, ?_, ?_, ?_⟩
    · intro j hj
      have hne : j ≠ i := by
        rintro rfl
        have honce := List.nodup_append.mp hqueued.once
        rcases hj with hj | hj
        · exact honce.2.2 j hj j (mem_adds.mpr List.mem_cons_self) rfl
        · exact (List.nodup_cons.mp honce.2.1).1 (mem_adds.mpr hj)
      refine hothers j hne (h.fresh j (hj.imp_right ?_))
      rw [hqueue]
      exact List.mem_cons_of_mem _
    · intro j hj
      by_cases hji : j = i
      · rw [hji]
        exact .inl hinserted
      · refine (h.added j hj).imp (hlater.inserted j) ?_
        rw [hqueue]
        intro hmem
        refine List.mem_of_ne_of_mem ?_ hmem
        rintro ⟨⟩
        exact hji rfl
    · intro j hj
      exact hlater.deleted j (h.gone j hj)

/-- Every step keeps the invariant, and calls no callback of a timer that is gone. -/
theorem step_inv (h : Inv s) {e : Event} (he : Possible s e) (hwait : NotWaiting s e) :
    ∃ t, step s e = some t ∧ Later s.chronicle t.chronicle ∧ Inv t := by
  have hsame := Later.refl s.chronicle
  have hperform : ∀ e : TimerRuns.Event, s.chronicle.Allowed e →
      (∀ p now, e ≠ .addTimerInLoop p now) →
        ∃ t, s.perform e = some t ∧ Later s.chronicle t.chronicle ∧ Inv t := by
    intro e he hadd
    obtain ⟨c, hstep, hlater, hinv⟩ := h.perform he hadd
    exact ⟨_, by rw [State.perform, hstep]; rfl, hlater, hinv⟩
  cases e with
  | newTimer timer time intervalInSec => exact h.newTimer he
  | addTimer i => exact ⟨_, rfl, hsame, h.pushAdd he⟩
  | cancelTimer i =>
    refine ⟨_, rfl, hsame, h.push rfl ?_⟩
    rintro j ⟨⟩
    exact he
  | queueInLoop => exact ⟨_, rfl, hsame, h.push rfl nofun⟩
  | addTimerInLoop i now => exact h.addNow he now
  | cancelTimerInLoop i =>
    refine h.cancel (h.record he) ?_
    intro hidle
    exact (h.added i he).resolve_right (hwait hidle)
  | doPendingFunctors =>
    refine ⟨_, rfl, hsame, ?_⟩
    have hqueue : State.queue { s with functors := s.pendingFunctors, pendingFunctors := [] } =
        s.queue := by
      rw [State.queue, State.queue, he.1]
      exact List.append_nil _
    exact ⟨h.kept, hqueue ▸ h.queued, hqueue ▸ h.fresh, hqueue ▸ h.added, h.gone⟩
  | callFunctor now =>
    obtain ⟨f, functors, hs⟩ := List.exists_cons_of_ne_nil he.1
    simp only [step, hs]
    exact h.callFunctor hs now
  | handleRead now fired => exact hperform _ he.2 fun _ _ => nofun
  | runTimer => exact hperform _ he fun _ _ => nofun
  | endRead now => exact hperform _ he fun _ _ => nofun

/-- In every interleaving in which the loop thread cancels no timer that is still to be added, no
assertion fails, and the callback of a timer never runs after `cancelTimerInLoop` has run for it
outside of `handleRead`. -/
theorem cancel_not_lost {events : List Event} (hpossible : Along step Possible State.init events)
    (hwait : Along step NotWaiting State.init events) :
    (∃ s, runFrom step State.init events = some s ∧ Inv s) ∧
      Along step Quiet State.init events := by
  have hboth := along_and hpossible hwait
  constructor
  · refine runFrom_progress ?_ inv_init hboth
    intro s e h he
    obtain ⟨t, ht, -, hinv⟩ := step_inv h he.1 he.2
    exact ⟨t, ht, hinv⟩
  · refine along_of_invariant (I := Inv) ?_ ?_ inv_init hboth
    · intro s e h he i hi t ht
      obtain ⟨t', ht', hlater, -⟩ := step_inv h he.1 he.2
      cases ht.symm.trans ht'
      exact hlater.times i (h.gone i hi)
    · intro s e t h he ht
      obtain ⟨t', ht', -, hinv⟩ := step_inv h he.1 he.2
      cases ht.symm.trans ht'
      exact hinv

/-- Another thread adds a timer and cancels it, and the loop thread adds and cancels one. -/
def cancelledRun : List Event :=
  [.newTimer 16 1000000 (.ofNat 0), .addTimer 0, .cancelTimer 0, .newTimer 32 1000000 (.ofNat 1),
    .addTimerInLoop 1 0, .cancelTimerInLoop 1, .doPendingFunctors, .callFunctor 0, .callFunctor 0,
    .handleRead 1000000 true, .endRead 1000000]

theorem cancelledRun_quiet :
    (∃ s, runFrom step State.init cancelledRun = some s ∧ Inv s) ∧
      Along step Quiet State.init cancelledRun :=
  cancel_not_lost (by decide +kernel) (by decide +kernel)

/-- The loop thread cancels the timer that another thread has added, but finds it not yet there. -/
def overtakenRun : List Event :=
  [.newTimer 16 1000000 (.ofNat 0), .addTimer 0, .cancelTimerInLoop 0, .doPendingFunctors,
    .callFunctor 0,
    .handleRead 1000000 true, .runTimer]

theorem overtakenRun_not_quiet :
    Along step Possible State.init overtakenRun ∧ (runFrom step State.init overtakenRun).isSome ∧
      ¬Along step Quiet State.init overtakenRun := by
  decide +kernel

end TimerThreads

end Matelib
