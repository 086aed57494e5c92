import Matelib.OrderedMap
import Matelib.Timestamp

/-!
# The timer queue

`TimerQueue` of an event loop: the ordered set of registered timers, the set of timers cancelled
while expired ones run, and the timer descriptor. Timers live in a heap of addresses. Times are
microseconds without a bound. A function fails (`none`) when an assertion does, or when it uses or
deletes a timer that is not alive.
-/

namespace Matelib

open Timestamp

structure Timer where
  expiration : ℤ
  intervalInSec : Double
  deriving DecidableEq

namespace Timer

def repeats (t : Timer) : Bool := t.intervalInSec.positive

def restart (t : Timer) (now : ℤ) : Timer :=
  { t with expiration := if t.repeats then addTime now t.intervalInSec else 0 }

end Timer

namespace TimerQueue

/-- A pair of a time and an address, ordered lexicographically. A `TimerId` is such a pair, too. -/
structure Entry where
  time : ℤ
  timer : ℕ
  deriving DecidableEq, Repr

instance : LinearOrder Entry :=
  LinearOrder.lift' (fun e : Entry => toLex (e.time, e.timer)) fun e e' h => by
    cases e
    cases e'
    cases h
    rfl

theorem Entry.lt_iff {e e' : Entry} :
    e < e' ↔ e.time < e'.time ∨ e.time = e'.time ∧ e.timer < e'.timer :=
  Prod.Lex.lt_iff

theorem Entry.le_iff {e e' : Entry} :
    e ≤ e' ↔ e.time < e'.time ∨ e.time = e'.time ∧ e.timer ≤ e'.timer :=
  Prod.Lex.le_iff

theorem Entry.time_le {e e' : Entry} (h : e ≤ e') : e.time ≤ e'.time := by
  rcases Entry.le_iff.mp h with h | ⟨h, _⟩
  · exact h.le
  · exact h.le

def UINTPTR_MAX : ℕ := 2 ^ 64 - 1

abbrev TimerSet := OrderedSet Entry
abbrev Heap := OrderedMap ℕ Timer

def free (heap : Heap) (timer : ℕ) : Option Heap :=
  if timer ∈ heap then some (heap.erase timer) else none

structure Timespec where
  tv_sec : ℤ
  tv_nsec : ℤ
  deriving DecidableEq, Repr

def howMuchTimeFromNow (time now : ℤ) : Timespec :=
  let microseconds := if time - now < 100 then 100 else time - now
  ⟨microseconds / 1000000, microseconds % 1000000 * 1000⟩

/-- The descriptor: whether it is armed, when that was done last, and when it then was to fire. -/
structure Timerfd where
  armed : Bool
  armedAt : ℤ
  deadline : ℤ
  deriving DecidableEq, Repr

/-- `resetTimerfd` at the time `now`; the descriptor fires once. -/
def resetTimerfd (expiration now : ℤ) : Timerfd :=
  let ts := howMuchTimeFromNow expiration now
  ⟨true, now, now + (ts.tv_sec * 1000000 + ts.tv_nsec / 1000)⟩

/-- `readTimerfd`, which finds that the descriptor has `fired` or not. -/
def readTimerfd (fd : Timerfd) (fired : Bool) : Timerfd :=
  { fd with armed := fd.armed && !fired }

theorem resetTimerfd_eq (expiration now : ℤ) :
    resetTimerfd expiration now = ⟨true, now, max expiration (now + 100)⟩ := by
  simp only [resetTimerfd, howMuchTimeFromNow, Timerfd.mk.injEq, true_and]
  split_ifs <;> omega

end TimerQueue

open TimerQueue

structure TimerQueue where
  timers : TimerSet
  callingExpiredTimers : Bool
  cancelingTimers : TimerSet
  timerfd : Timerfd
  deriving DecidableEq

namespace TimerQueue

def init : TimerQueue := ⟨OrderedMap.empty, false, OrderedMap.empty, ⟨false, 0, 0⟩⟩

def earliestChanged (q : TimerQueue) (time : ℤ) : Bool :=
  match q.timers.front? with
  | none => true
  | some front => time < front.time

/-- `addTimerInLoop`; `now` is the time at which the descriptor is armed. -/
def addTimerInLoop (q : TimerQueue) (heap : Heap) (timer : ℕ) (now : ℤ) : Option TimerQueue :=
  (heap.find timer).bind fun t =>
    let entry : Entry := ⟨t.expiration, timer⟩
    if entry ∈ q.timers then none
    else
      let q' := { q with timers := q.timers.insert entry () }
      some (if q.earliestChanged t.expiration
        then { q' with timerfd := resetTimerfd t.expiration now } else q')

def cancelTimerInLoop (q : TimerQueue) (heap : Heap) (timerId : Entry) :
    Option (TimerQueue × Heap) :=
  if timerId ∈ q.timers then
    (free heap timerId.timer).map fun heap =>
      ({ q with timers := q.timers.erase timerId }, heap)
  else if q.callingExpiredTimers then
    some ({ q with cancelingTimers := q.cancelingTimers.insert timerId () }, heap)
  else some (q, heap)

def sentry (now : ℤ) : Entry := ⟨now, UINTPTR_MAX⟩

/-- `getExpired`: the expired entries, which are removed from the set. -/
def getExpired (timers : TimerSet) (now : ℤ) : Option (List Entry × TimerSet) :=
  let rest := timers.fromBound (sentry now)
  if rest.front?.all fun first => now < first.time then
    some (timers.keysBelow (sentry now), rest)
  else none

/-- `handleRead` up to the loop that runs the callbacks. -/
def beginExpired (q : TimerQueue) (now : ℤ) (fired : Bool) : Option (TimerQueue × List Entry) :=
  (getExpired q.timers now).map fun (expired, timers) =>
    ({ timers := timers
       callingExpiredTimers := true
       cancelingTimers := OrderedMap.empty
       timerfd := readTimerfd q.timerfd fired }, expired)

/-- The entry is restarted by `reset`: its timer repeats and was not cancelled. -/
def restarts (cancelingTimers : TimerSet) (entry : Entry) (t : Timer) : Bool :=
  t.repeats && entry ∉ cancelingTimers

/-- One round of the loop of `reset`. The entry keeps the time under which it was registered. -/
def resetEntry (cancelingTimers : TimerSet) (now : ℤ) (st : TimerSet × Heap) (entry : Entry) :
    Option (TimerSet × Heap) :=
  (st.2.find entry.timer).bind fun t =>
    if restarts cancelingTimers entry t then
      some (st.1.insert entry (), st.2.insert entry.timer (t.restart now))
    else (free st.2 entry.timer).map fun heap => (st.1, heap)

/-- `reset`; `clock` is the time at which the descriptor is armed. -/
def reset (q : TimerQueue) (heap : Heap) (expired : List Entry) (now clock : ℤ) :
    Option (TimerQueue × Heap) :=
  (expired.foldlM (resetEntry q.cancelingTimers now) (q.timers, heap)).bind fun (timers, heap) =>
    match timers.front? with
    | none => some ({ q with timers := timers }, heap)
    | some first => (heap.find first.timer).map fun t =>
      ({ q with timers := timers, timerfd := resetTimerfd t.expiration clock }, heap)

/-- `handleRead` after the loop that runs the callbacks. -/
def endExpired (q : TimerQueue) (heap : Heap) (expired : List Entry) (now clock : ℤ) :
    Option (TimerQueue × Heap) :=
  { q with callingExpiredTimers := false }.reset heap expired now clock

theorem earliestChanged_eq_false {q : TimerQueue} {time : ℤ} (h : q.earliestChanged time = false) :
    ∃ front ∈ q.timers, front.time ≤ time ∧ ∀ e ∈ q.timers, front ≤ e := by
  unfold earliestChanged at h
  cases hfront : q.timers.front? with
  | none => simp only [hfront, Bool.true_eq_false] at h
  | some front =>
    simp only [hfront, decide_eq_false_iff_not, not_lt] at h
    obtain ⟨hmem, hle⟩ := OrderedMap.front?_eq_some hfront
    exact ⟨front, hmem, h, hle⟩

theorem lt_of_earliestChanged {q : TimerQueue} {time : ℤ} (h : q.earliestChanged time = true)
    {e : Entry} (he : e ∈ q.timers) : time < e.time := by
  unfold earliestChanged at h
  cases hfront : q.timers.front? with
  | none => exact absurd he (OrderedMap.front?_eq_none.mp hfront e)
  | some front =>
    simp only [hfront, decide_eq_true_eq] at h
    exact h.trans_le (Entry.time_le ((OrderedMap.front?_eq_some hfront).2 e he))

theorem lt_sentry {e : Entry} {now : ℤ} (he : e.timer < UINTPTR_MAX) :
    e < sentry now ↔ e.time ≤ now := by
  rw [Entry.lt_iff, sentry]
  constructor
  · rintro (h | ⟨h, _⟩)
    · exact h.le
    · exact h.le
  · intro h
    rcases h.lt_or_eq with h | h
    · exact Or.inl h
    · exact Or.inr ⟨h, he⟩

theorem getExpired_spec {timers : TimerSet} (h : ∀ e ∈ timers, e.timer < UINTPTR_MAX) (now : ℤ) :
    ∃ expired rest, getExpired timers now = some (expired, rest) ∧
      (∀ e, e ∈ expired ↔ e ∈ timers ∧ e.time ≤ now) ∧
      (∀ e, e ∈ rest ↔ e ∈ timers ∧ now < e.time) ∧ expired.Pairwise (· < ·) := by
  have hrest : ∀ e, e ∈ timers.fromBound (sentry now) ↔ e ∈ timers ∧ now < e.time := by
    intro e
    rw [OrderedMap.mem_fromBound]
    apply and_congr_right
    intro he
    rw [← not_lt, lt_sentry (h e he), not_le]
  have hassert : (timers.fromBound (sentry now)).front?.all (fun first => now < first.time) =
      true := by
    cases hfront : (timers.fromBound (sentry now)).front? with
    | none => rfl
    | some first =>
      rw [Option.all_some, decide_eq_true_eq]
      exact ((hrest first).mp (OrderedMap.front?_eq_some hfront).1).2
  refine ⟨_, _, ?_, ?_, hrest, timers.keysBelow_sorted (sentry now)⟩
  · rw [getExpired, if_pos hassert]
  · intro e
    rw [OrderedMap.mem_keysBelow]
    apply and_congr_right
    intro he
    exact lt_sentry (h e he)

theorem free_of_mem {heap : Heap} {timer : ℕ} (h : timer ∈ heap) :
    free heap timer = some (heap.erase timer) := by
  rw [free, if_pos h]

end TimerQueue

end Matelib
