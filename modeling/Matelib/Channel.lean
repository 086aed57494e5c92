import Mathlib.Tactic

/-!
# Channels: event masks and their dispatch

A channel pairs a descriptor with the mask of events it is interested in and with its state in the
poller. The mask operations change the mask only; that each of them ends in `update()` is modelled
where the poller is, by the callers. `dispatch` is the order in which `handleEvent` runs the
callbacks for the events that `epoll_wait` reported.
-/

namespace Matelib

abbrev Events := BitVec 32

namespace Events

def EPOLLIN : Events := 0x001
def EPOLLPRI : Events := 0x002
def EPOLLOUT : Events := 0x004
def EPOLLERR : Events := 0x008
def EPOLLHUP : Events := 0x010
def EPOLLRDHUP : Events := 0x2000

def has (mask bits : Events) : Bool := mask &&& bits != 0

theorem has_or (mask a b : Events) : mask.has (a ||| b) = (mask.has a || mask.has b) := by
  have hand : mask &&& (a ||| b) = mask &&& a ||| mask &&& b := by
    ext i hi
    simp only [BitVec.getElem_and, BitVec.getElem_or, Bool.and_or_distrib_left]
  have hzero : mask &&& a ||| mask &&& b = 0 ↔ mask &&& a = 0 ∧ mask &&& b = 0 :=
    BitVec.or_eq_zero_iff
  rw [has, has, has, hand, Bool.eq_iff_iff]
  simp only [bne_iff_ne, ne_eq, Bool.or_eq_true, hzero]
  tauto

end Events

/-- The states of a channel in the poller: never seen, watched, and kept but not watched. -/
inductive ChannelState where
  | kNew
  | kAdded
  | kDeleted
  deriving DecidableEq, Repr

structure Channel where
  fd : ℕ
  events : Events
  state : ChannelState
  deriving DecidableEq, Repr

namespace Channel

open Events

def kNoneEvent : Events := 0
def kReadEvent : Events := EPOLLIN ||| EPOLLPRI
def kWriteEvent : Events := EPOLLOUT

def new (fd : ℕ) : Channel := ⟨fd, kNoneEvent, .kNew⟩

def enableReading (c : Channel) : Channel := { c with events := c.events ||| kReadEvent }
def disableReading (c : Channel) : Channel := { c with events := c.events &&& ~~~kReadEvent }
def enableWriting (c : Channel) : Channel := { c with events := c.events ||| kWriteEvent }
def disableWriting (c : Channel) : Channel := { c with events := c.events &&& ~~~kWriteEvent }
def disableAll (c : Channel) : Channel := { c with events := kNoneEvent }
def isWriting (c : Channel) : Bool := c.events.has kWriteEvent
def isNoneEvent (c : Channel) : Bool := c.events == kNoneEvent

@[simp] theorem isWriting_enableWriting (c : Channel) : c.enableWriting.isWriting = true := by
  have h : (c.events ||| kWriteEvent) &&& kWriteEvent = kWriteEvent := by
    ext i hi
    simp only [BitVec.getElem_and, BitVec.getElem_or]
    cases c.events[i] <;> simp
  simp only [isWriting, enableWriting, has, h]
  decide

@[simp] theorem isWriting_disableWriting (c : Channel) : c.disableWriting.isWriting = false := by
  have h : c.events &&& ~~~kWriteEvent &&& kWriteEvent = 0 := by
    ext i hi
    simp only [BitVec.getElem_and, BitVec.getElem_not]
    cases c.events[i] <;> simp
  simp only [isWriting, disableWriting, has, h]
  decide

/-- The callbacks that `handleEvent` may run. -/
inductive Callback where
  | closeCallback
  | errorCallback
  | readCallback
  | writeCallback
  deriving DecidableEq, Repr

/-- The callbacks of `handleEvent` for a reported mask, in the order in which they run. The error
callback is only for descriptors above zero. -/
def dispatch (fd : ℕ) (revents : Events) : List Callback :=
  (if revents.has EPOLLHUP && !revents.has EPOLLIN then [.closeCallback] else []) ++
  (if revents.has EPOLLERR && 0 < fd then [.errorCallback] else []) ++
  (if revents.has (EPOLLIN ||| EPOLLPRI ||| EPOLLRDHUP) then [.readCallback] else []) ++
  (if revents.has EPOLLOUT then [.writeCallback] else [])

end Channel

end Matelib
