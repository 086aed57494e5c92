import Matelib.TimerBatch

/-!
# Timers that share an id

A `TimerId` is the time and the address of its timer. When a timer has been deleted, another one can
be made at its address for the same time, and `cancelTimer` with the old id then finds the other
timer. The main result says in which runs every call leaves the timers of all other ids alone.
-/

namespace Matelib

namespace TimerIds

open TimerQueue TimerRuns Transition

/-- What the loop thread does: `cancelTimer` is called with the id of the timer `i`, and `queue` is
any other event of the queue. -/
inductive Call where
  | queue (e : Event)
  | cancelTimer (i : ℕ)
  deriving DecidableEq

def Call.event (c : Chronicle) : Call → Option Event
  | .queue e => some e
  | .cancelTimer i => (c.ledger.records[i]?).map fun r => .cancelTimerInLoop r.timerId

def step (c : Chronicle) (a : Call) : Option Chronicle := (a.event c).bind c.step

/-- An id comes from `addTimer`. -/
def Allowed (c : Chronicle) : Call → Prop
  | .queue (.cancelTimerInLoop _) => False
  | .queue e => c.Allowed e
  | .cancelTimer i => i < c.ledger.records.length

instance (c : Chronicle) (a : Call) : Decidable (Allowed c a) := by
  unfold Allowed
  split <;> infer_instance

/-- The timer stays registered and alive, and `reset` will restart it as before. -/
structure Untouched (c d : Chronicle) (j : ℕ) (r : Record) : Prop where
  registered : r.timerId ∈ c.state.queue.timers → r.timerId ∈ d.state.queue.timers
  lives : d.ledger.Lives j r
  restarts : ∀ f, c.state.frame = some f → ∀ t, WillRestart c.state f r.timerId t →
    WillRestart d.state f r.timerId t

/-- `cancelTimer` touches no timer but its own. -/
def OnlyOwn (c : Chronicle) : Call → Prop
  | .queue _ => True
  | .cancelTimer i => ∀ d, step c (.cancelTimer i) = some d → ∀ j r, j ≠ i → c.ledger.Lives j r →
    Untouched c d j r

/-- No other timer with the id is registered or will be restarted. -/
def Unshared (c : Chronicle) : Call → Prop
  | .queue _ => True
  | .cancelTimer i => ∀ own, c.ledger.records[i]? = some own → ∀ j r, j ≠ i → c.ledger.Lives j r →
    r.timerId = own.timerId → r.timerId ∉ c.state.queue.timers ∧
      ∀ f, c.state.frame = some f → ∀ t, ¬WillRestart c.state f r.timerId t

variable {c d : Chronicle} {i j : ℕ} {r own : Record}

instance (l : Ledger) (i : ℕ) (r : Record) : Decidable (l.Lives i r) :=
  decidable_of_iff (l.records[i]? = some r ∧ l.owner.find r.timer = some i ∧ i ∉ l.deleted)
    ⟨fun ⟨h₁, h₂, h₃⟩ => ⟨h₁, h₂, h₃⟩, fun h => ⟨h.1, h.2, h.3⟩⟩

instance (s : State) (f : Frame) (e : Entry) (t : Timer) : Decidable (WillRestart s f e t) :=
  inferInstanceAs (Decidable (_ ∧ _ ∧ _))

theorem unshared_cancelTimer : Unshared c (.cancelTimer i) ↔
    ∀ own ∈ c.ledger.records[i]?, ∀ j < c.ledger.records.length, ∀ r ∈ c.ledger.records[j]?,
      j ≠ i → c.ledger.Lives j r → r.timerId = own.timerId → r.timerId ∉ c.state.queue.timers ∧
        ∀ f ∈ c.state.frame, ∀ t ∈ c.state.heap.find r.timerId.timer,
          ¬WillRestart c.state f r.timerId t := by
  constructor
  · intro h own hown j _ r _ hne hlives hid
    obtain ⟨hregistered, hrestarts⟩ := h own hown j r hne hlives hid
    exact ⟨hregistered, fun f hf t _ => hrestarts f hf t⟩
  · intro h own hown j r hne hlives hid
    obtain ⟨hj, -⟩ := List.getElem?_eq_some_iff.mp hlives.record
    obtain ⟨hregistered, hrestarts⟩ := h own hown j hj r hlives.record hne hlives hid
    exact ⟨hregistered, fun f hf t ht => hrestarts f hf t ht.2.1 ht⟩

instance (c : Chronicle) : ∀ a, Decidable (Unshared c a)
  | .queue _ => isTrue trivial
  | .cancelTimer _ => decidable_of_iff _ unshared_cancelTimer.symm

theorem unshared_of_lives (hown : c.ledger.Lives i own) : Unshared c (.cancelTimer i) := by
  intro own' hr j r hne hlives hid
  cases hown.record.symm.trans hr
  exact absurd (Chronicle.lives_unique hlives hown (congrArg Entry.timer hid)).1 hne

theorem step_cancelTimer (hr : c.ledger.records[i]? = some own) :
    step c (.cancelTimer i) = c.step (.cancelTimerInLoop own.timerId) := by
  rw [step, Call.event, hr, Option.map_some, Option.bind_some]

theorem step_kept (h : c.Kept) {a : Call} (ha : Allowed c a) :
    ∃ d, step c a = some d ∧ d.Kept := by
  cases a with
  | queue e =>
    have he : c.Allowed e := by
      cases e with
      | cancelTimerInLoop timerId => exact ha.elim
      | _ => exact ha
    obtain ⟨d, hstep, -, hd⟩ := h.step he
    exact ⟨d, hstep, hd⟩
  | cancelTimer i =>
    have hown := List.getElem?_eq_getElem ha
    rw [step_cancelTimer hown]
    obtain ⟨d, hstep, -, hd⟩ := h.step (e := .cancelTimerInLoop _) trivial
    exact ⟨d, hstep, hd⟩

theorem untouched_of_ne (h : c.Kept) (hlives : c.ledger.Lives j r) (hid : r.timerId ≠ own.timerId)
    (hstep : c.step (.cancelTimerInLoop own.timerId) = some d) : Untouched c d j r := by
  have he : c.Allowed (.cancelTimerInLoop own.timerId) := trivial
  obtain ⟨t, rfl, hmove, -⟩ := h.eq_of_step he hstep
  cases hmove with
  | cancel hmem =>
    have hne : own.timer ≠ r.timer := fun heq => hid (h.registered hlives hmem heq).symm
    refine ⟨fun hin => OrderedMap.mem_erase.mpr ⟨hid, hin⟩, ?_, ?_⟩
    · exact h.lives_step he hstep hlives (OrderedMap.mem_erase.mpr ⟨hne.symm, h.mem_heap hlives⟩)
    · rintro f - t ⟨hexpired, hfind, hrestarts⟩
      exact ⟨hexpired, (OrderedMap.find_erase_of_ne _ hne).trans hfind, hrestarts⟩
  | cancelExpired hmem hf =>
    refine ⟨fun hin => hin, h.lives_step he hstep hlives (h.mem_heap hlives), ?_⟩
    rintro f - t ⟨hexpired, hfind, hrestarts⟩
    refine ⟨hexpired, hfind, ?_⟩
    simp only [restarts, Bool.and_eq_true, decide_eq_true_eq, OrderedMap.mem_insert, not_or]
      at hrestarts ⊢
    exact ⟨hrestarts.1, hid, hrestarts.2⟩
  | cancelNone hmem hf =>
    exact ⟨fun hin => hin, h.lives_step he hstep hlives (h.mem_heap hlives), fun _ _ _ hr => hr⟩

theorem untouched_of_idle (h : c.Kept) (hlives : c.ledger.Lives j r) (hid : r.timerId = own.timerId)
    (hstep : c.step (.cancelTimerInLoop own.timerId) = some d)
    (hregistered : r.timerId ∉ c.state.queue.timers)
    (hrestarts : ∀ f, c.state.frame = some f → ∀ t, ¬WillRestart c.state f r.timerId t) :
    Untouched c d j r := by
  have he : c.Allowed (.cancelTimerInLoop own.timerId) := trivial
  obtain ⟨t, rfl, hmove, -⟩ := h.eq_of_step he hstep
  refine ⟨fun hin => absurd hin hregistered, ?_, fun f hf t ht => absurd ht (hrestarts f hf t)⟩
  cases hmove with
  | cancel hmem => exact absurd hmem (hid ▸ hregistered)
  | cancelExpired hmem hf => exact h.lives_step he hstep hlives (h.mem_heap hlives)
  | cancelNone hmem hf => exact h.lives_step he hstep hlives (h.mem_heap hlives)

theorem idle_of_untouched (h : c.Kept) (hid : r.timerId = own.timerId)
    (hstep : c.step (.cancelTimerInLoop own.timerId) = some d) (huntouched : Untouched c d j r) :
    r.timerId ∉ c.state.queue.timers ∧
      ∀ f, c.state.frame = some f → ∀ t, ¬WillRestart c.state f r.timerId t := by
  have he : c.Allowed (.cancelTimerInLoop own.timerId) := trivial
  obtain ⟨t, rfl, hmove, -⟩ := h.eq_of_step he hstep
  constructor
  · intro hin
    have hstays := huntouched.registered hin
    rw [hid] at hin hstays
    cases hmove with
    | cancel hmem => exact (OrderedMap.mem_erase.mp hstays).1 rfl
    | cancelExpired hmem hf => exact hmem hin
    | cancelNone hmem hf => exact hmem hin
  · intro f hf t hrestart
    have hstays := (huntouched.restarts f hf t hrestart).2.2
    have hnot : r.timerId ∉ c.state.queue.timers := by
      intro hin
      exact (h.owned.frame f hf).apart _ hrestart.1 _ hin rfl
    rw [hid] at hnot hstays
    cases hmove with
    | cancel hmem => exact hnot hmem
    | cancelExpired hmem hf =>
      have hcanceling : own.timerId ∈ c.state.queue.cancelingTimers.insert own.timerId () :=
        OrderedMap.mem_insert.mpr (.inl rfl)
      rw [restarts, decide_eq_false (not_not.mpr hcanceling), Bool.and_false] at hstays
      exact Bool.false_ne_true hstays
    | cancelNone hmem hf' => cases hf.symm.trans hf'

theorem onlyOwn_iff (h : c.Kept) {a : Call} (ha : Allowed c a) : OnlyOwn c a ↔ Unshared c a := by
  cases a with
  | queue e => exact Iff.rfl
  | cancelTimer i =>
    obtain ⟨d, hstep, -⟩ := step_kept h ha
    obtain ⟨own, hown⟩ : ∃ own, c.ledger.records[i]? = some own :=
      ⟨_, List.getElem?_eq_getElem ha⟩
    rw [step_cancelTimer hown] at hstep
    constructor
    · intro honly own' hr j r hne hlives hid
      cases hown.symm.trans hr
      exact idle_of_untouched h hid hstep
        (honly d ((step_cancelTimer hown).trans hstep) j r hne hlives)
    · intro hunshared d' hstep' j r hne hlives
      rw [step_cancelTimer hown, hstep] at hstep'
      cases hstep'
      by_cases hid : r.timerId = own.timerId
      · obtain ⟨hregistered, hrestarts⟩ := hunshared _ hown j r hne hlives hid
        exact untouched_of_idle h hlives hid hstep hregistered hrestarts
      · exact untouched_of_ne h hlives hid hstep

/-- A run of the queue never fails, and its calls of `cancelTimer` touch no timer but their own
exactly when none of them uses an id that another timer has which is registered or will be
restarted. -/
theorem onlyOwn_iff_unshared {calls : List Call} (h : Along step Allowed Chronicle.init calls) :
    (∃ c, runFrom step Chronicle.init calls = some c) ∧
      (Along step OnlyOwn Chronicle.init calls ↔ Along step Unshared Chronicle.init calls) := by
  have hkeep : ∀ c a d, c.Kept → Allowed c a → step c a = some d → d.Kept := by
    intro c a d hc ha hstep
    obtain ⟨d', hstep', hd⟩ := step_kept hc ha
    cases hstep.symm.trans hstep'
    exact hd
  constructor
  · obtain ⟨c, hc, -⟩ := runFrom_progress (fun c a hc ha => step_kept hc ha) Chronicle.kept_init h
    exact ⟨c, hc⟩
  · constructor
    · intro honly
      exact along_of_invariant (P := fun c a => Allowed c a ∧ OnlyOwn c a)
        (fun c a hc ha => (onlyOwn_iff hc ha.1).mp ha.2)
        (fun c a d hc ha hstep => hkeep c a d hc ha.1 hstep) Chronicle.kept_init (along_and h honly)
    · intro hunshared
      exact along_of_invariant (P := fun c a => Allowed c a ∧ Unshared c a)
        (fun c a hc ha => (onlyOwn_iff hc ha.1).mpr ha.2)
        (fun c a d hc ha hstep => hkeep c a d hc ha.1 hstep) Chronicle.kept_init
        (along_and h hunshared)

/-- A timer is cancelled, and half a second later another one is made at its address for the same
time. Then the first timer is cancelled again. -/
def sharedIdCalls : List Call :=
  [.queue (.newTimer 16 1000000 (.ofNat 0)), .queue (.addTimerInLoop 16 0), .cancelTimer 0,
    .queue (.newTimer 16 1000000 (.ofNat 0)), .queue (.addTimerInLoop 16 500000), .cancelTimer 0]

/-- The second timer is made for another time, and the callback of the third cancels both again. -/
def ownIdCalls : List Call :=
  [.queue (.newTimer 16 1000000 (.ofNat 0)), .queue (.addTimerInLoop 16 0), .cancelTimer 0,
    .queue (.newTimer 16 2000000 (.ofNat 1)), .queue (.addTimerInLoop 16 500000), .cancelTimer 0,
    .queue (.newTimer 32 2000000 (.ofNat 0)), .queue (.addTimerInLoop 32 500000),
    .queue (.handleRead 2000000 true), .queue .runTimer, .queue .runTimer, .cancelTimer 0,
    .cancelTimer 1, .queue (.endRead 2000000)]

theorem sharedIdCalls_iff :
    ((∃ c, runFrom step Chronicle.init sharedIdCalls = some c) ∧
      (Along step OnlyOwn Chronicle.init sharedIdCalls ↔
        Along step Unshared Chronicle.init sharedIdCalls)) ∧
    Along step OnlyOwn Chronicle.init ownIdCalls :=
  ⟨onlyOwn_iff_unshared (by decide +kernel),
    (onlyOwn_iff_unshared (by decide +kernel)).2.mpr (by decide +kernel)⟩

theorem sharedIdCalls_touches :
    ¬∀ calls, Along step Allowed Chronicle.init calls →
      Along step OnlyOwn Chronicle.init calls := by
  intro hall
  let r : Record := ⟨16, 1000000, .ofNat 0⟩
  have hrun : (runFrom step Chronicle.init (sharedIdCalls.take 5)).any (fun c =>
      (c.ledger.records[1]? = some r ∧ c.ledger.owner.find 16 = some 1 ∧ 1 ∉ c.ledger.deleted) ∧
      r.timerId ∈ c.state.queue.timers ∧ (step c (.cancelTimer 0)).any fun d =>
        r.timerId ∉ d.state.queue.timers) = true := by
    decide +kernel
  obtain ⟨c, hc, hcond⟩ := (Option.any_eq_true _ _).mp hrun
  obtain ⟨⟨hr, howner, hdeleted⟩, hregistered, hcancel⟩ := of_decide_eq_true hcond
  obtain ⟨d, hd, hgone⟩ := (Option.any_eq_true _ _).mp hcancel
  have honly := hall (sharedIdCalls.take 5 ++ [.cancelTimer 0]) (by decide +kernel)
  have hlast := ((along_append hc).mp honly).2.1 d hd 1 r (by decide) ⟨hr, howner, hdeleted⟩
  exact of_decide_eq_true hgone (hlast.registered hregistered)

end TimerIds

end Matelib
