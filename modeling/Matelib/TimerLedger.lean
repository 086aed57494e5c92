import Matelib.Segment
import Matelib.TimerSteps

/-!
# The ledger of the timers

Addresses are used again, so a timer is named by its position in the list of all timers that were
ever made. The ledger tells which of them have been inserted and deleted, and when their callbacks
ran. The main result is that every inserted timer is deleted exactly once.
-/

namespace Matelib

namespace TimerRuns

open TimerQueue Transition

/-- A timer as `addTimer` makes it. -/
structure Record where
  timer : ℕ
  time : ℤ
  intervalInSec : Double
  deriving DecidableEq

def Record.repeats (r : Record) : Bool := r.intervalInSec.positive

def Record.timerId (r : Record) : Entry := ⟨r.time, r.timer⟩

/-- `owner` maps an address to the timer that was made there last, and `runs` has every callback
that ran with the time that its `handleRead` had read. -/
structure Ledger where
  records : List Record
  owner : OrderedMap ℕ ℕ
  inserted : List ℕ
  deleted : List ℕ
  runs : List (ℕ × ℤ)
  deriving DecidableEq

/-- The addresses that have been deleted between two states of the heap. -/
def freed (heap heap' : Heap) : List ℕ := (heap.entries.map Prod.fst).filter (· ∉ heap')

namespace Ledger

def empty : Ledger := ⟨[], .empty, [], [], []⟩

def newTimer (l : Ledger) (r : Record) : Ledger :=
  { l with records := l.records ++ [r], owner := l.owner.insert r.timer l.records.length }

def insert (l : Ledger) (timer : ℕ) : Ledger :=
  { l with inserted := l.inserted ++ (l.owner.find timer).toList }

def run (l : Ledger) (timer : ℕ) (now : ℤ) : Ledger :=
  { l with runs := l.runs ++ ((l.owner.find timer).map fun i => (i, now)).toList }

def delete (l : Ledger) (timers : List ℕ) : Ledger :=
  { l with deleted := l.deleted ++ timers.filterMap l.owner.find }

/-- What an event does, apart from deletions. -/
def note (l : Ledger) (s : State) : Event → Ledger
  | .newTimer timer time intervalInSec => l.newTimer ⟨timer, time, intervalInSec⟩
  | .addTimerInLoop timer _ => l.insert timer
  | .runTimer => match s.frame with
    | some ⟨_, entry :: _, now⟩ => l.run entry.timer now
    | _ => l
  | _ => l

def times (l : Ledger) (i : ℕ) : List ℤ := (l.runs.filter fun a => a.1 = i).map Prod.snd

theorem times_concat {l l' : Ledger} {j : ℕ} {now : ℤ} (h : l'.runs = l.runs ++ [(j, now)])
    (i : ℕ) : l'.times i = if j = i then l.times i ++ [now] else l.times i := by
  rw [times, h, List.filter_append, List.map_append, List.filter_singleton]
  by_cases heq : j = i
  · rw [if_pos heq, decide_eq_true heq]
    rfl
  · rw [if_neg heq, decide_eq_false heq]
    exact List.append_nil _

theorem times_run {l : Ledger} {p j : ℕ} (howner : l.owner.find p = some j) (now : ℤ) (i : ℕ) :
    (l.run p now).times i = if j = i then l.times i ++ [now] else l.times i := by
  apply times_concat
  rw [run, howner, Option.map_some, Option.toList_some]

/-- The timer has been made, and not been deleted. -/
structure Lives (l : Ledger) (i : ℕ) (r : Record) : Prop where
  record : l.records[i]? = some r
  owner : l.owner.find r.timer = some i
  deleted : i ∉ l.deleted

end Ledger

structure Chronicle where
  state : State
  ledger : Ledger
  deriving DecidableEq

namespace Chronicle

def init : Chronicle := ⟨State.init, .empty⟩

def step (c : Chronicle) (e : Event) : Option Chronicle :=
  (perform c.state e).map fun t =>
    ⟨t, (c.ledger.note c.state e).delete (freed c.state.heap t.heap)⟩

def Allowed (c : Chronicle) (e : Event) : Prop := TimerRuns.Allowed c.state e

instance (c : Chronicle) (e : Event) : Decidable (c.Allowed e) :=
  inferInstanceAs (Decidable (TimerRuns.Allowed c.state e))

/-- Where a live timer is: made and not yet inserted, registered, or expired. -/
def Placed (c : Chronicle) (i : ℕ) (r : Record) : Prop :=
  (r.timer ∈ c.state.fresh ∧ i ∉ c.ledger.inserted ∧
    ∃ t, c.state.heap.find r.timer = some t ∧ t.expiration = r.time) ∨
  (i ∈ c.ledger.inserted ∧ (r.timerId ∈ c.state.queue.timers ∨
    ∃ f, c.state.frame = some f ∧ r.timerId ∈ f.expired))

/-- The ledger goes with the state. -/
structure Kept (c : Chronicle) : Prop where
  owned : Owned c.state
  named : ∀ p i, c.ledger.owner.find p = some i → ∃ r, c.ledger.records[i]? = some r ∧ r.timer = p
  known : ∀ p ∈ c.state.heap, ∃ i r, c.ledger.Lives i r ∧ r.timer = p
  owner : ∀ i r, c.ledger.records[i]? = some r → i ∉ c.ledger.deleted → c.ledger.Lives i r
  placed : ∀ i r, c.ledger.Lives i r → c.Placed i r
  inserted_lt : ∀ i ∈ c.ledger.inserted, i < c.ledger.records.length
  deleted_lt : ∀ i ∈ c.ledger.deleted, i < c.ledger.records.length
  deleted_nodup : c.ledger.deleted.Nodup

theorem kept_init : Kept init where
  owned := owned_init
  named _ _ howner := nomatch howner
  known p hp := absurd hp (OrderedMap.not_mem_empty p)
  owner _ _ hr := nomatch hr
  placed _ _ hlives := nomatch hlives.record
  inserted_lt _ hi := absurd hi List.not_mem_nil
  deleted_lt _ hi := absurd hi List.not_mem_nil
  deleted_nodup := List.nodup_nil

variable {c : Chronicle} {i j : ℕ} {r r' : Record}

theorem Kept.mem_heap (h : c.Kept) (hlives : c.ledger.Lives i r) : r.timer ∈ c.state.heap := by
  rcases h.placed i r hlives with ⟨hfresh, -⟩ | ⟨-, hmem | ⟨f, hf, hmem⟩⟩
  · exact h.owned.fresh_live r.timer hfresh
  · exact h.owned.mem_heap hmem
  · exact (h.owned.frame f hf).mem_heap hmem

theorem lives_unique {l : Ledger} (hi : l.Lives i r) (hj : l.Lives j r')
    (htimer : r.timer = r'.timer) :
    i = j ∧ r = r' := by
  have howner := hi.owner
  rw [htimer, hj.owner, Option.some.injEq] at howner
  subst howner
  refine ⟨rfl, ?_⟩
  have hrecord := hi.record
  rw [hj.record, Option.some.injEq] at hrecord
  exact hrecord.symm

theorem Kept.registered (h : c.Kept) (hlives : c.ledger.Lives i r) {e : Entry}
    (he : e ∈ c.state.queue.timers) (htimer : e.timer = r.timer) : e = r.timerId := by
  rcases h.placed i r hlives with ⟨hfresh, -⟩ | ⟨-, hmem | ⟨f, hf, hmem⟩⟩
  · exact absurd hfresh (htimer ▸ h.owned.fresh_apart e he)
  · exact h.owned.inj e he _ hmem htimer
  · exact absurd htimer ((h.owned.frame f hf).apart _ hmem e he)

theorem Kept.expired (h : c.Kept) (hlives : c.ledger.Lives i r) {f : Frame}
    (hf : c.state.frame = some f) {e : Entry} (he : e ∈ f.expired) (htimer : e.timer = r.timer) :
    e = r.timerId := by
  have hframe := h.owned.frame f hf
  rcases h.placed i r hlives with ⟨hfresh, -⟩ | ⟨-, hmem | ⟨f', hf', hmem⟩⟩
  · exact absurd hfresh (htimer ▸ hframe.apart_fresh e he)
  · exact absurd htimer.symm (hframe.apart e he _ hmem)
  · cases hf.symm.trans hf'
    exact List.inj_on_of_nodup_map hframe.nodup he hmem htimer

theorem mem_freed {heap heap' : Heap} {p : ℕ} : p ∈ freed heap heap' ↔ p ∈ heap ∧ p ∉ heap' := by
  rw [freed, List.mem_filter, List.mem_map, decide_eq_true_eq]
  apply and_congr_left'
  rw [OrderedMap.mem_iff_entries]
  constructor
  · rintro ⟨⟨_, v⟩, hv, rfl⟩
    exact ⟨v, hv⟩
  · rintro ⟨v, hv⟩
    exact ⟨(p, v), hv, rfl⟩

theorem freed_nodup (heap heap' : Heap) : (freed heap heap').Nodup :=
  List.Nodup.filter _ ((List.pairwise_map.mpr heap.sorted).imp fun hlt => hlt.ne)

theorem Kept.mem_deleted (h : c.Kept) {heap : Heap} {i : ℕ} :
    i ∈ (c.ledger.delete (freed c.state.heap heap)).deleted ↔
      i ∈ c.ledger.deleted ∨ ∃ r, c.ledger.Lives i r ∧ r.timer ∉ heap := by
  rw [Ledger.delete, List.mem_append, List.mem_filterMap]
  apply or_congr_right
  constructor
  · rintro ⟨p, hp, howner⟩
    obtain ⟨hmem, hnot⟩ := mem_freed.mp hp
    obtain ⟨j, r, hlives, rfl⟩ := h.known p hmem
    cases hlives.owner.symm.trans howner
    exact ⟨r, hlives, hnot⟩
  · rintro ⟨r, hlives, hnot⟩
    exact ⟨r.timer, mem_freed.mpr ⟨h.mem_heap hlives, hnot⟩, hlives.owner⟩

theorem Kept.nodup_delete (h : c.Kept) (heap : Heap) :
    (c.ledger.delete (freed c.state.heap heap)).deleted.Nodup := by
  rw [Ledger.delete, List.nodup_append]
  refine ⟨h.deleted_nodup, ?_, ?_⟩
  · apply (freed_nodup c.state.heap heap).filterMap
    intro p p' i hp hp'
    obtain ⟨r, hr, rfl⟩ := h.named p i hp
    obtain ⟨r', hr', rfl⟩ := h.named p' i hp'
    cases hr.symm.trans hr'
    rfl
  · intro i hi j hj heq
    subst heq
    obtain ⟨p, hp, howner⟩ := List.mem_filterMap.mp hj
    obtain ⟨k, r, hlives, rfl⟩ := h.known p (mem_freed.mp hp).1
    cases hlives.owner.symm.trans howner
    exact hlives.deleted hi

theorem Kept.of_move (h : c.Kept) {t : State} {l : Ledger} (hrecords : l.records = c.ledger.records)
    (howner : l.owner = c.ledger.owner) (hdeleted : l.deleted = c.ledger.deleted)
    (hinserted : ∀ i ∈ l.inserted, i ∈ c.ledger.inserted ∨ ∃ p, c.ledger.owner.find p = some i)
    (howned : Owned t) (hsub : ∀ p ∈ t.heap, p ∈ c.state.heap)
    (hplaced : ∀ i r, c.ledger.Lives i r → r.timer ∈ t.heap → Placed ⟨t, l⟩ i r) :
    Kept ⟨t, l.delete (freed c.state.heap t.heap)⟩ := by
  have hmem : ∀ i, i ∈ (l.delete (freed c.state.heap t.heap)).deleted ↔
      i ∈ c.ledger.deleted ∨ ∃ r, c.ledger.Lives i r ∧ r.timer ∉ t.heap := by
    intro i
    rw [← h.mem_deleted, Ledger.delete, Ledger.delete, howner, hdeleted]
  have hlives : ∀ i r, (l.delete (freed c.state.heap t.heap)).Lives i r ↔
      c.ledger.Lives i r ∧ r.timer ∈ t.heap := by
    intro i r
    constructor
    · rintro ⟨hr, ho, hd⟩
      rw [hmem, not_or] at hd
      have hlives : c.ledger.Lives i r := ⟨hrecords ▸ hr, howner ▸ ho, hd.1⟩
      exact ⟨hlives, not_not.mp fun hnot => hd.2 ⟨r, hlives, hnot⟩⟩
    · rintro ⟨hlives, hlive⟩
      refine ⟨hrecords.symm ▸ hlives.record, howner.symm ▸ hlives.owner, ?_⟩
      rw [hmem]
      rintro (hd | ⟨r', hlives', hnot⟩)
      · exact hlives.deleted hd
      · cases hlives.record.symm.trans hlives'.record
        exact hnot hlive
  refine ⟨howned, ?_, ?_, ?_, ?_, ?_, ?_, ?_⟩
  · intro p i ho
    obtain ⟨r, hr, htimer⟩ := h.named p i (howner ▸ ho)
    exact ⟨r, hrecords.symm ▸ hr, htimer⟩
  · intro p hp
    obtain ⟨i, r, hl, rfl⟩ := h.known p (hsub p hp)
    exact ⟨i, r, (hlives i r).mpr ⟨hl, hp⟩, rfl⟩
  · intro i r hr hd
    have hnot := mt (hmem i).mpr hd
    rw [not_or] at hnot
    have hl := h.owner i r (hrecords ▸ hr) hnot.1
    exact (hlives i r).mpr ⟨hl, not_not.mp fun hdead => hnot.2 ⟨r, hl, hdead⟩⟩
  · intro i r hl
    obtain ⟨hl, hlive⟩ := (hlives i r).mp hl
    exact hplaced i r hl hlive
  · intro i hi
    change i < l.records.length
    rw [hrecords]
    rcases hinserted i hi with hi | ⟨p, hp⟩
    · exact h.inserted_lt i hi
    · obtain ⟨r, hr, -⟩ := h.named p i hp
      exact (List.getElem?_eq_some_iff.mp hr).1
  · intro i hi
    change i < l.records.length
    rw [hrecords]
    rcases (hmem i).mp hi with hi | ⟨r, hl, -⟩
    · exact h.deleted_lt i hi
    · exact (List.getElem?_eq_some_iff.mp hl.record).1
  · have hnodup := h.nodup_delete t.heap
    rw [Ledger.delete] at hnodup ⊢
    rw [howner, hdeleted]
    exact hnodup

theorem getElem?_newTimer {l : Ledger} {r r' : Record} {i : ℕ} :
    (l.newTimer r).records[i]? = some r' ↔
      l.records[i]? = some r' ∨ i = l.records.length ∧ r = r' :=
  Segment.getElem?_concat_eq_some

theorem Kept.lives_newTimer (h : c.Kept) {timer : ℕ} (hnew : timer ∉ c.state.heap) {time : ℤ}
    {intervalInSec : Double} {i : ℕ} {r : Record} :
    (c.ledger.newTimer ⟨timer, time, intervalInSec⟩).Lives i r ↔
      c.ledger.Lives i r ∨ i = c.ledger.records.length ∧ ⟨timer, time, intervalInSec⟩ = r := by
  constructor
  · rintro ⟨hr, ho, hd⟩
    rcases getElem?_newTimer.mp hr with hr | hr
    · exact .inl (h.owner i r hr hd)
    · exact .inr hr
  · rintro (hl | ⟨rfl, rfl⟩)
    · refine ⟨getElem?_newTimer.mpr (.inl hl.record), ?_, hl.deleted⟩
      have hne : timer ≠ r.timer := fun heq => hnew (heq ▸ h.mem_heap hl)
      exact (OrderedMap.find_insert_of_ne _ _ hne).trans hl.owner
    · refine ⟨getElem?_newTimer.mpr (.inr ⟨rfl, rfl⟩), OrderedMap.find_insert_self .., ?_⟩
      intro hd
      exact lt_irrefl _ (h.deleted_lt _ hd)

theorem Kept.newTimer (h : c.Kept) {timer : ℕ} {time : ℤ} {intervalInSec : Double}
    (hnew : timer ∉ c.state.heap) {t : State} (howned : Owned t)
    (ht : t = { c.state with
      heap := c.state.heap.insert timer ⟨time, intervalInSec⟩
      fresh := c.state.fresh.insert timer () }) :
    Kept ⟨t, (c.ledger.newTimer ⟨timer, time, intervalInSec⟩).delete
      (freed c.state.heap t.heap)⟩ := by
  subst ht
  have hfreed : freed c.state.heap (c.state.heap.insert timer ⟨time, intervalInSec⟩) = [] := by
    apply List.eq_nil_iff_forall_not_mem.mpr
    intro p hp
    obtain ⟨hmem, hnot⟩ := mem_freed.mp hp
    exact hnot (OrderedMap.mem_insert.mpr (Or.inr hmem))
  have hledger : (c.ledger.newTimer ⟨timer, time, intervalInSec⟩).delete [] =
      c.ledger.newTimer ⟨timer, time, intervalInSec⟩ := by
    rw [Ledger.delete, List.filterMap_nil, List.append_nil]
  simp only [hfreed, hledger]
  have hrecord : ∀ i r, (c.ledger.newTimer ⟨timer, time, intervalInSec⟩).records[i]? = some r ↔ _ :=
    fun _ _ => getElem?_newTimer
  have hlives : ∀ i r, (c.ledger.newTimer ⟨timer, time, intervalInSec⟩).Lives i r ↔ _ :=
    fun _ _ => h.lives_newTimer hnew
  refine ⟨howned, ?_, ?_, ?_, ?_, ?_, ?_, h.deleted_nodup⟩
  · intro p i ho
    change (c.ledger.owner.insert timer c.ledger.records.length).find p = some i at ho
    rw [OrderedMap.find_insert] at ho
    split_ifs at ho with heq
    · cases ho
      exact ⟨_, (hrecord _ _).mpr (.inr ⟨rfl, rfl⟩), heq⟩
    · obtain ⟨r, hr, htimer⟩ := h.named p i ho
      exact ⟨r, (hrecord i r).mpr (.inl hr), htimer⟩
  · intro p hp
    rcases OrderedMap.mem_insert.mp hp with rfl | hp
    · exact ⟨_, _, (hlives _ _).mpr (.inr ⟨rfl, rfl⟩), rfl⟩
    · obtain ⟨i, r, hl, htimer⟩ := h.known p hp
      exact ⟨i, r, (hlives i r).mpr (.inl hl), htimer⟩
  · intro i r hr hd
    apply (hlives i r).mpr
    rcases (hrecord i r).mp hr with hr | hr
    · exact .inl (h.owner i r hr hd)
    · exact .inr hr
  · intro i r hl
    rcases (hlives i r).mp hl with hl | ⟨rfl, rfl⟩
    · have hne : timer ≠ r.timer := fun heq => hnew (heq ▸ h.mem_heap hl)
      rcases h.placed i r hl with ⟨hfresh, hnot, t, ht, htime⟩ | hplaced
      · refine .inl ⟨OrderedMap.mem_insert.mpr (.inr hfresh), hnot, t, ?_, htime⟩
        exact (OrderedMap.find_insert_of_ne _ _ hne).trans ht
      · exact .inr hplaced
    · refine .inl ⟨OrderedMap.mem_insert.mpr (.inl rfl), ?_, ⟨time, intervalInSec⟩,
        OrderedMap.find_insert_self .., rfl⟩
      intro hi
      exact lt_irrefl _ (h.inserted_lt _ hi)
  · intro i hi
    change i < (c.ledger.records ++ [_]).length
    rw [List.length_append]
    exact Nat.lt_add_right _ (h.inserted_lt i hi)
  · intro i hi
    change i < (c.ledger.records ++ [_]).length
    rw [List.length_append]
    exact Nat.lt_add_right _ (h.deleted_lt i hi)

theorem Kept.add (h : c.Kept) {timer : ℕ} {now : ℤ} {x : Timer} {fd : Timerfd}
    (hfresh : timer ∈ c.state.fresh) (hx : c.state.heap.find timer = some x) {t : State}
    (howned : Owned t)
    (ht : t = { c.state with
      queue := { c.state.queue with
        timers := c.state.queue.timers.insert ⟨x.expiration, timer⟩ (), timerfd := fd }
      fresh := c.state.fresh.erase timer
      clock := now }) :
    Kept ⟨t, (c.ledger.insert timer).delete (freed c.state.heap t.heap)⟩ := by
  subst ht
  obtain ⟨j, rj, hj, htimer⟩ := h.known timer (h.owned.fresh_live timer hfresh)
  have howner : c.ledger.owner.find timer = some j := htimer ▸ hj.owner
  have hinserted : ∀ i, i ∈ (c.ledger.insert timer).inserted ↔ i ∈ c.ledger.inserted ∨ i = j := by
    intro i
    rw [Ledger.insert, howner, List.mem_append, Option.toList_some, List.mem_singleton]
  refine h.of_move (l := c.ledger.insert timer) rfl rfl rfl ?_ howned (fun _ hp => hp) ?_
  · intro i hi
    rcases (hinserted i).mp hi with hi | rfl
    · exact .inl hi
    · exact .inr ⟨timer, howner⟩
  · intro i r hl _
    rcases h.placed i r hl with ⟨hfresh', hnot, t, ht, htime⟩ | ⟨hmem, hplace⟩
    · by_cases heq : r.timer = timer
      · -- this is the timer that is inserted
        obtain ⟨rfl, rfl⟩ := lives_unique hl hj (heq.trans htimer.symm)
        rw [heq, hx, Option.some.injEq] at ht
        refine .inr ⟨(hinserted i).mpr (.inr rfl), .inl (OrderedMap.mem_insert.mpr (.inl ?_))⟩
        rw [Record.timerId, heq, ← htime, ht]
      · refine .inl ⟨OrderedMap.mem_erase.mpr ⟨heq, hfresh'⟩, ?_, t, ht, htime⟩
        rw [hinserted, not_or]
        refine ⟨hnot, ?_⟩
        rintro rfl
        cases hl.record.symm.trans hj.record
        exact heq htimer
    · refine .inr ⟨(hinserted i).mpr (.inl hmem), ?_⟩
      exact hplace.imp_left fun hpending => OrderedMap.mem_insert.mpr (.inr hpending)

theorem Kept.of_entries (h : c.Kept) {t : State} {l : Ledger}
    (hrecords : l.records = c.ledger.records) (howner : l.owner = c.ledger.owner)
    (hdeleted : l.deleted = c.ledger.deleted) (hinserted : l.inserted = c.ledger.inserted)
    (howned : Owned t) (hsub : ∀ p ∈ t.heap, p ∈ c.state.heap) (hfresh : t.fresh = c.state.fresh)
    (hkeep : ∀ p ∈ t.fresh, t.heap.find p = c.state.heap.find p)
    (hpending : ∀ e ∈ c.state.queue.timers, e.timer ∈ t.heap →
      e ∈ t.queue.timers ∨ ∃ f, t.frame = some f ∧ e ∈ f.expired)
    (hexpired : ∀ f, c.state.frame = some f → ∀ e ∈ f.expired, e.timer ∈ t.heap →
      e ∈ t.queue.timers ∨ ∃ f, t.frame = some f ∧ e ∈ f.expired) :
    Kept ⟨t, l.delete (freed c.state.heap t.heap)⟩ := by
  refine h.of_move hrecords howner hdeleted ?_ howned hsub ?_
  · intro i hi
    exact .inl (hinserted ▸ hi)
  · intro i r hl hlive
    rcases h.placed i r hl with ⟨hmem, hnot, x, hx, htime⟩ | ⟨hmem, hplace⟩
    · have hmem' : r.timer ∈ t.fresh := hfresh.symm ▸ hmem
      refine .inl ⟨hmem', hinserted.symm ▸ hnot, x, ?_, htime⟩
      rw [hkeep _ hmem', hx]
    · refine .inr ⟨hinserted.symm ▸ hmem, ?_⟩
      rcases hplace with hplace | ⟨f, hf, hplace⟩
      · exact hpending _ hplace hlive
      · exact hexpired f hf _ hplace hlive

/-- An event that is allowed happens, and the ledger goes on with the state. -/
theorem Kept.step (h : c.Kept) {e : Event} (he : c.Allowed e) :
    ∃ d, c.step e = some d ∧ Move c.state e d.state ∧ d.Kept := by
  obtain ⟨t, hperform, hmove, howned⟩ := h.owned.perform he
  refine ⟨⟨t, (c.ledger.note c.state e).delete (freed c.state.heap t.heap)⟩, ?_, hmove, ?_⟩
  · rw [Chronicle.step, hperform, Option.map_some]
  cases hmove with
  | newTimer hnew => exact h.newTimer hnew howned rfl
  | add hmem hx => exact h.add hmem hx howned rfl
  | @cancel timerId hmem =>
    refine h.of_entries (l := c.ledger) rfl rfl rfl rfl howned ?_ rfl ?_ ?_ ?_
    · intro p hp
      exact (OrderedMap.mem_erase.mp hp).2
    · intro p hp
      exact OrderedMap.find_erase_of_ne _ fun heq => h.owned.fresh_apart timerId hmem (heq ▸ hp)
    · intro e he hlive
      refine .inl (OrderedMap.mem_erase.mpr ⟨?_, he⟩)
      rintro rfl
      exact (OrderedMap.mem_erase.mp hlive).1 rfl
    · intro f hf e he _
      exact .inr ⟨f, hf, he⟩
  | cancelExpired hmem hf =>
    refine h.of_entries (l := c.ledger) rfl rfl rfl rfl howned (fun _ hp => hp) rfl
      (fun _ _ => rfl) ?_ ?_
    · intro e he _
      exact .inl he
    · intro f hf e he _
      exact .inr ⟨f, hf, he⟩
  | cancelNone hmem hf =>
    refine h.of_entries (l := c.ledger) rfl rfl rfl rfl howned (fun _ hp => hp) rfl
      (fun _ _ => rfl) ?_ ?_
    · intro e he _
      exact .inl he
    · intro f hf e he _
      exact .inr ⟨f, hf, he⟩
  | @handleRead now fired expired rest fd hf hexpired hrest =>
    refine h.of_entries (l := c.ledger) rfl rfl rfl rfl howned (fun _ hp => hp) rfl
      (fun _ _ => rfl) ?_ ?_
    · intro e he _
      by_cases hdue : e.time ≤ now
      · exact .inr ⟨_, rfl, (hexpired e).mpr ⟨he, hdue⟩⟩
      · exact .inl ((hrest e).mpr ⟨he, not_le.mp hdue⟩)
    · intro f hf' e _ _
      cases hf.symm.trans hf'
  | @runTimer f entry rest hf hremaining =>
    have hrun : ∀ l, l = c.ledger.note c.state .runTimer → l = c.ledger.run entry.timer f.now := by
      rintro l rfl
      obtain ⟨expired, remaining, now⟩ := f
      change remaining = entry :: rest at hremaining
      subst hremaining
      rw [Ledger.note, hf]
    rw [hrun _ rfl]
    refine h.of_entries (l := c.ledger.run entry.timer f.now) rfl rfl rfl rfl howned
      (fun _ hp => hp) rfl
      (fun _ _ => rfl) ?_ ?_
    · intro e he _
      exact .inl he
    · intro f' hf' e he _
      cases hf.symm.trans hf'
      exact .inr ⟨_, rfl, he⟩
  | @endRead now f timers heap fd hf hremaining hreset =>
    have hframe := h.owned.frame f hf
    refine h.of_entries (l := c.ledger) rfl rfl rfl rfl howned ?_ rfl ?_ ?_ ?_
    · intro p hp
      exact hreset.subset hframe hp
    · intro p hp
      exact hreset.fresh hframe hp
    · intro e he _
      exact .inl ((hreset.mem e).mpr (.inl he))
    · intro f' hf' e he hlive
      cases hf.symm.trans hf'
      obtain ⟨x, hx⟩ := hframe.live e he
      by_cases hr : restarts c.state.queue.cancelingTimers e x = true
      · exact .inl ((hreset.mem e).mpr (.inr ⟨x, he, hx, hr⟩))
      · have hnone := hreset.own e he x hx
        rw [if_neg hr] at hnone
        exact absurd hnone hlive

def destroy (c : Chronicle) : Option Ledger :=
  ((c.state.queue.timers.entries.map Prod.fst).foldlM (fun heap e => free heap e.timer)
    c.state.heap).map fun heap => c.ledger.delete (freed c.state.heap heap)

theorem freeAll_spec {es : List Entry} {heap : Heap} (hlive : ∀ e ∈ es, e.timer ∈ heap)
    (hnodup : (es.map Entry.timer).Nodup) :
    ∃ heap', es.foldlM (fun heap e => free heap e.timer) heap = some heap' ∧
      ∀ p, p ∈ heap' ↔ p ∈ heap ∧ p ∉ es.map Entry.timer := by
  induction es generalizing heap with
  | nil => exact ⟨heap, rfl, by simp⟩
  | cons e es ih =>
    rw [List.forall_mem_cons] at hlive
    rw [List.map_cons, List.nodup_cons] at hnodup
    have hlive' : ∀ d ∈ es, d.timer ∈ heap.erase e.timer := by
      intro d hd
      refine OrderedMap.mem_erase.mpr ⟨?_, hlive.2 d hd⟩
      intro heq
      exact hnodup.1 (heq ▸ List.mem_map_of_mem hd)
    obtain ⟨heap', hfold, hmem⟩ := ih hlive' hnodup.2
    refine ⟨heap', ?_, ?_⟩
    · rw [List.foldlM_cons, free_of_mem hlive.1]
      exact hfold
    · intro p
      rw [hmem, OrderedMap.mem_erase, List.map_cons, List.mem_cons]
      tauto

def pointers (c : Chronicle) : List ℕ := (c.state.queue.timers.entries.map Prod.fst).map Entry.timer

theorem mem_pointers {p : ℕ} :
    p ∈ c.pointers ↔ ∃ e ∈ c.state.queue.timers, e.timer = p := by
  rw [pointers, List.mem_map]
  simp only [List.mem_map, OrderedMap.mem_iff_entries]
  constructor
  · rintro ⟨e, ⟨⟨_, v⟩, hv, rfl⟩, rfl⟩
    exact ⟨_, ⟨v, hv⟩, rfl⟩
  · rintro ⟨e, ⟨v, hv⟩, rfl⟩
    exact ⟨e, ⟨(e, v), hv, rfl⟩, rfl⟩

theorem Kept.pointers_nodup (h : c.Kept) : c.pointers.Nodup := by
  apply List.Nodup.map_on
  · intro e he e' he' heq
    obtain ⟨⟨_, v⟩, hv, rfl⟩ := List.mem_map.mp he
    obtain ⟨⟨_, v'⟩, hv', rfl⟩ := List.mem_map.mp he'
    exact h.owned.inj _ (OrderedMap.mem_iff_entries.mpr ⟨v, hv⟩) _
      (OrderedMap.mem_iff_entries.mpr ⟨v', hv'⟩) heq
  · exact (List.pairwise_map.mpr c.state.queue.timers.sorted).imp fun hlt => hlt.ne

theorem Kept.pending (h : c.Kept) (hidle : c.state.frame = none) (hlives : c.ledger.Lives i r) :
    r.timerId ∈ c.state.queue.timers ↔ i ∈ c.ledger.inserted := by
  rcases h.placed i r hlives with ⟨hfresh, hnot, -⟩ | ⟨hmem, hpending | ⟨f, hf, -⟩⟩
  · refine iff_of_false ?_ hnot
    intro hmem
    exact h.owned.fresh_apart _ hmem hfresh
  · exact iff_of_true hpending hmem
  · cases hidle.symm.trans hf

theorem Kept.mem_pointers_iff (h : c.Kept) (hidle : c.state.frame = none) (p : ℕ) :
    p ∈ c.pointers ↔
      p ∈ c.state.heap ∧ ∃ i ∈ c.ledger.inserted, c.ledger.owner.find p = some i := by
  rw [mem_pointers]
  constructor
  · rintro ⟨e, he, rfl⟩
    have hlive := h.owned.mem_heap he
    obtain ⟨i, r, hl, htimer⟩ := h.known _ hlive
    rw [h.registered hl he htimer.symm, h.pending hidle hl] at he
    exact ⟨hlive, i, he, htimer ▸ hl.owner⟩
  · rintro ⟨hlive, i, hi, ho⟩
    obtain ⟨j, r, hl, rfl⟩ := h.known p hlive
    cases hl.owner.symm.trans ho
    exact ⟨_, (h.pending hidle hl).mpr hi, rfl⟩

theorem Kept.destroy (h : c.Kept) (hidle : c.state.frame = none) :
    ∃ l, c.destroy = some l ∧ ∀ i ∈ l.inserted, l.deleted.count i = 1 := by
  have hlive : ∀ e ∈ c.state.queue.timers.entries.map Prod.fst, e.timer ∈ c.state.heap := by
    intro e he
    obtain ⟨⟨_, v⟩, hv, rfl⟩ := List.mem_map.mp he
    exact h.owned.mem_heap (OrderedMap.mem_iff_entries.mpr ⟨v, hv⟩)
  obtain ⟨heap, hfree, hheap⟩ := freeAll_spec hlive h.pointers_nodup
  refine ⟨c.ledger.delete (freed c.state.heap heap), ?_, ?_⟩
  · rw [Chronicle.destroy, hfree, Option.map_some]
  · intro i hi
    apply List.count_eq_one_of_mem (h.nodup_delete heap)
    apply h.mem_deleted.mpr
    by_cases hd : i ∈ c.ledger.deleted
    · exact .inl hd
    · have hl := h.owner i _ (List.getElem?_eq_getElem (h.inserted_lt i hi)) hd
      refine .inr ⟨_, hl, ?_⟩
      rw [hheap, not_and_not_right]
      intro _
      exact mem_pointers.mpr ⟨_, (h.pending hidle hl).mpr hi, rfl⟩

theorem kept_run {events : List Event} (h : Along Chronicle.step Allowed init events) :
    ∃ c, runFrom Chronicle.step init events = some c ∧ c.Kept := by
  apply runFrom_progress _ kept_init h
  intro c e hkept he
  obtain ⟨d, hstep, -, hd⟩ := hkept.step he
  exact ⟨d, hstep, hd⟩

end Chronicle

/-- Whatever is added and cancelled, also by callbacks, the queue uses live timers only; outside
`handleRead` it points to the live timers that have been inserted, to each of them once; and after
its destructor every timer that was ever inserted has been deleted exactly once. -/
theorem timers_owned {events : List Event}
    (h : Along Chronicle.step Chronicle.Allowed Chronicle.init events) :
    ∃ c, runFrom Chronicle.step Chronicle.init events = some c ∧ (c.state.frame = none →
      c.pointers.Nodup ∧
      (∀ p, p ∈ c.pointers ↔
        p ∈ c.state.heap ∧ ∃ i ∈ c.ledger.inserted, c.ledger.owner.find p = some i) ∧
      ∃ l, c.destroy = some l ∧ ∀ i ∈ l.inserted, l.deleted.count i = 1) := by
  obtain ⟨c, hrun, hkept⟩ := Chronicle.kept_run h
  refine ⟨c, hrun, ?_⟩
  intro hidle
  exact ⟨hkept.pointers_nodup, hkept.mem_pointers_iff hidle, hkept.destroy hidle⟩

/-- A repeating timer, a one-shot timer and a second repeating timer expire together; a callback
cancels the first and the third, and adds another timer. -/
def crossCancelRun : List Event :=
  [.newTimer 16 1000000 (.ofNat 1), .addTimerInLoop 16 0, .newTimer 32 1000000 (.ofNat 0),
    .addTimerInLoop 32 0, .newTimer 48 1000000 (.ofScientific 5 (-1)), .addTimerInLoop 48 0,
    .handleRead 1000000 true, .runTimer, .runTimer, .cancelTimerInLoop ⟨1000000, 16⟩,
    .cancelTimerInLoop ⟨1000000, 48⟩, .cancelTimerInLoop ⟨1000000, 48⟩,
    .newTimer 64 3000000 (.ofNat 0), .addTimerInLoop 64 1000000, .runTimer, .endRead 1000000,
    .cancelTimerInLoop ⟨1000000, 32⟩]

theorem crossCancelRun_owned :
    ∃ c, runFrom Chronicle.step Chronicle.init crossCancelRun = some c ∧ (c.state.frame = none →
      c.pointers.Nodup ∧
      (∀ p, p ∈ c.pointers ↔
        p ∈ c.state.heap ∧ ∃ i ∈ c.ledger.inserted, c.ledger.owner.find p = some i) ∧
      ∃ l, c.destroy = some l ∧ ∀ i ∈ l.inserted, l.deleted.count i = 1) :=
  timers_owned (by decide +kernel)

end TimerRuns

end Matelib
