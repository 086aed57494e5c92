import Mathlib.Data.Fintype.Basic
import Mathlib.Logic.Function.Basic
import Mathlib.Data.List.Lex
import Matelib.ConnectionName
import Matelib.EpollPoller
import Matelib.Token
import Matelib.Transition

/-!
# A server and its connections

A `TcpServer` with its base loop and any number of io loops. A connection is named by its position
in the list of all connections that were ever made. Each loop thread has a list of tasks for its
current iteration and the queue of functors that other tasks put in; one step runs the first task of
one thread up to the next point where the thread calls user code or touches what it shares with
other threads. A task fails where an assertion fails, where the code aborts, and where it uses a
connection that has been freed.

A `TcpConnectionShptr` is held by the map, by a functor and by the arguments of a callback. What
user code holds only delays the destructor, so `free` may come at any time after the last of these
is gone. Of a poller only the channels of connections are modelled: the other descriptors of a loop
stay open, so the kernel never hands out one of them.
-/

namespace Matelib

namespace TcpServer

open TcpConnection

/-- What happens to a connection, for its history. -/
inductive Life where
  | event
  | established
  | callback (connected : Bool)
  | handleClose
  | cleanup
  | erased
  | destroyed (noneEvent : Bool)
  | removed
  | freed
  deriving DecidableEq

structure Connection (ι : Type*) where
  loop : ι
  name : Bytes
  conn : TcpConnection
  history : List Life

/-- What a loop thread has to do. The tasks from `connectionEstablished` on are functors or, like
`cleanupCallback` and `remove`, the rest of a function that has called user code. `user` is other
user code: a timer, a functor, or the handler of another channel. -/
inductive Task where
  | handleConnection
  | handleEvent (c : ℕ) (revents : Events)
  | callback (c : ℕ) (callback : Channel.Callback)
  | eventHandled (c : ℕ)
  | user
  | connectionCallback (c : ℕ)
  | messageCallback (c : ℕ)
  | cleanupCallback (c : ℕ)
  | connectionEstablished (c : ℕ)
  | removeConnectionInLoop (c : ℕ)
  | connectionDestroyed (c : ℕ)
  | remove (c : ℕ)
  deriving DecidableEq

/-- The parts of an iteration of `EventLoop::loop`; `eventHandling_` is set in `dispatch`. -/
inductive Phase where
  | poll
  | dispatch
  | functors
  deriving DecidableEq

structure Loop where
  phase : Phase
  activeChannels : List ℕ
  tasks : List Task
  pendingFunctors : List Task
  poller : EpollPoller ℕ

/-- `eventHandling_`, the connections among `activeChannels_`, and that of
`currentHandingChannel_`. -/
structure Handling where
  eventHandling : Bool
  activeChannels : List ℕ
  currentChannel : Option ℕ

/-- The assertion of `EventLoop::removeChannel`. -/
def Handling.MayRemove (h : Handling) (c : ℕ) : Prop :=
  h.eventHandling = true → h.currentChannel = some c ∨ c ∉ h.activeChannels

instance (h : Handling) (c : ℕ) : Decidable (h.MayRemove c) :=
  inferInstanceAs (Decidable (_ = _ → _))

def Loop.handling (loop : Loop) : Handling where
  eventHandling := loop.phase = .dispatch
  activeChannels := loop.activeChannels
  currentChannel := loop.tasks.findSome? fun
    | .eventHandled c => some c
    | _ => none

structure State (ι : Type*) where
  nextConnId : ℕ
  next : ℕ
  connectionMap : OrderedMap Bytes ℕ
  conns : List (Connection ι)
  loops : ι → Loop

/-- `loops` is empty when the server has no io threads. -/
structure Config (ι : Type*) where
  baseLoop : ι
  loops : List ι

variable {ι : Type*}

def State.init : State ι where
  nextConnId := 0
  next := 0
  connectionMap := .empty
  conns := []
  loops _ := ⟨.poll, [], [], [], .empty⟩

/-- What the kernel answers in a step, for the tasks that ask it: a new connection with its two
addresses, the result of `readFd`, and that of `::write`. -/
structure Kernel where
  accepted : Option (ℕ × InetAddress × InetAddress)
  read : ℤ
  write : WriteResult

/-- What `epoll_wait` reports: a descriptor of a connection, the listening socket, or another
channel of the loop. -/
inductive Reported where
  | connection (fd : ℕ) (revents : Events)
  | accept
  | other

def Reported.fd? : Reported → Option ℕ
  | .connection fd _ => some fd
  | _ => none

inductive Event (ι : Type*) where
  | poll (l : ι) (active : List Reported)
  | doPendingFunctors (l : ι)
  | iterationEnds (l : ι)
  | run (l : ι) (k : Kernel)
  | send (l : ι) (c : ℕ) (data : Bytes) (w : WriteResult)
  | shutdown (l : ι) (c : ℕ)
  | queueInLoop (l : ι)
  | free (c : ℕ)

variable [DecidableEq ι]

def State.setLoop (s : State ι) (l : ι) (loop : Loop) : State ι :=
  { s with loops := Function.update s.loops l loop }

/-- The thread of `l` does `tasks` next. -/
def State.push (s : State ι) (l : ι) (tasks : List Task) : State ι :=
  s.setLoop l { s.loops l with tasks := tasks ++ (s.loops l).tasks }

def State.queueInLoop (s : State ι) (l : ι) (task : Task) : State ι :=
  s.setLoop l { s.loops l with pendingFunctors := (s.loops l).pendingFunctors ++ [task] }

/-- `target->runInLoop` in the thread of `l`. -/
def State.runInLoop (s : State ι) (l target : ι) (task : Task) : State ι :=
  if l = target then s.push l [task] else s.queueInLoop target task

def State.setConn (s : State ι) (c : ℕ) (x : Connection ι) : State ι :=
  { s with conns := s.conns.set c x }

def Connection.fd (x : Connection ι) : ℕ := x.conn.channel.fd

def Connection.add (x : Connection ι) (life : List Life) : Connection ι :=
  { x with history := x.history ++ life }

/-- A connection that may be used: it has not been freed. -/
def State.deref (s : State ι) (c : ℕ) : Option (Connection ι) :=
  match s.conns[c]? with
  | some x => if .freed ∈ x.history then none else some x
  | none => none

/-- The same with `assertInLoopThread` of its loop. -/
def State.derefIn (s : State ι) (l : ι) (c : ℕ) : Option (Connection ι) :=
  match s.deref c with
  | some x => if x.loop = l then some x else none
  | none => none

def updates (effects : List Effect) : List Events :=
  effects.filterMap fun
    | .update events => some events
    | _ => none

def tasks (c : ℕ) (effects : List Effect) : List Task :=
  effects.filterMap fun
    | .connectionCallback _ => some (.connectionCallback c)
    | .cleanupCallback => some (.cleanupCallback c)
    | .remove => some (.remove c)
    | _ => none

def callbacks (effects : List Effect) : List Life :=
  effects.filterMap fun
    | .connectionCallback connected => some (.callback connected)
    | _ => none

/-- `Channel::update` for each new mask. -/
def updateChannel (p : EpollPoller ℕ) (c : ℕ) (channel : Channel) :
    List Events → Option (EpollPoller ℕ × Channel)
  | [] => some (p, channel)
  | events :: rest =>
    (p.updateChannel c { channel with events }).bind fun r =>
      updateChannel r.1 c { channel with state := r.2 } rest

def settle (s : State ι) (l : ι) (c : ℕ) (x : Connection ι) (r : TcpConnection × List Effect) :
    Option (State ι) :=
  (updateChannel (s.loops l).poller c r.1.channel (updates r.2)).map fun u =>
    let x' := { x with conn := { r.1 with channel := u.2 }, history := x.history ++ callbacks r.2 }
    ((s.setConn c x').setLoop l { s.loops l with poller := u.1 }).push l (tasks c r.2)

/-- The loop of the pool that comes next, and the index behind it. -/
def getNextLoop (cfg : Config ι) (next : ℕ) : Option (ι × ℕ) :=
  if cfg.loops = [] then some (cfg.baseLoop, next)
  else cfg.loops[next]?.map fun l => (l, (next + 1) % cfg.loops.length)

/-- `none` in `accepted` is a failed `accept4`. -/
def handleConnection (cfg : Config ι) (s : State ι) (l : ι)
    (accepted : Option (ℕ × InetAddress × InetAddress)) : Option (State ι) :=
  if l ≠ cfg.baseLoop then none
  else match accepted with
  | none => some s
  | some (connfd, localAddr, peerAddr) =>
    let connName := connName s.nextConnId localAddr connfd peerAddr
    (getNextLoop cfg s.next).map fun (ioLoop, next) =>
      let c := s.conns.length
      State.runInLoop
        { s with
          nextConnId := (s.nextConnId + 1) % 2 ^ 32
          next
          connectionMap := s.connectionMap.insert connName c
          conns := s.conns ++ [⟨ioLoop, connName, .new connfd, []⟩] }
        l ioLoop (.connectionEstablished c)

def handleEvent (s : State ι) (l : ι) (c : ℕ) (revents : Events) : Option (State ι) :=
  (s.derefIn l c).map fun x =>
    (s.setConn c (x.add [.event])).push l
      ((Channel.dispatch x.fd revents).map (Task.callback c) ++ [.eventHandled c])

def handleClose (s : State ι) (l : ι) (c : ℕ) : Option (State ι) :=
  (s.derefIn l c).bind fun x =>
    x.conn.handleClose.bind (settle s l c (x.add [.handleClose]))

/-- `n` is the result of `readFd`. `handleError` only logs. -/
def handleRead (s : State ι) (l : ι) (c : ℕ) (n : ℤ) : Option (State ι) :=
  (s.derefIn l c).bind fun _ =>
    if 0 < n then some (s.push l [.messageCallback c])
    else if n = 0 then handleClose s l c
    else some s

def handleWrite (s : State ι) (l : ι) (c : ℕ) (w : WriteResult) : Option (State ι) :=
  (s.derefIn l c).bind fun x => (x.conn.handleWrite w).bind (settle s l c x)

def connectionEstablished (s : State ι) (l : ι) (c : ℕ) : Option (State ι) :=
  (s.derefIn l c).bind fun x =>
    settle s l c (x.add [.established]) x.conn.connectionEstablished

def connectionDestroyed (s : State ι) (l : ι) (c : ℕ) : Option (State ι) :=
  (s.derefIn l c).bind fun x =>
    settle s l c (x.add [.destroyed x.conn.channel.isNoneEvent]) x.conn.connectionDestroyed

def removeConnection (cfg : Config ι) (s : State ι) (l : ι) (c : ℕ) : Option (State ι) :=
  (s.deref c).map fun x =>
    (s.setConn c (x.add [.cleanup])).runInLoop l cfg.baseLoop (.removeConnectionInLoop c)

def removeConnectionInLoop (cfg : Config ι) (s : State ι) (l : ι) (c : ℕ) : Option (State ι) :=
  if l ≠ cfg.baseLoop then none
  else (s.deref c).map fun x =>
    State.queueInLoop
      { s.setConn c (x.add [.erased]) with connectionMap := s.connectionMap.erase x.name }
      x.loop (.connectionDestroyed c)

/-- `Channel::remove`. -/
def remove (s : State ι) (l : ι) (c : ℕ) : Option (State ι) :=
  (s.derefIn l c).bind fun x =>
    if ¬(s.loops l).handling.MayRemove c then none
    else ((s.loops l).poller.removeChannel c x.conn.channel).map fun u =>
      let channel := { x.conn.channel with state := u.2 }
      let x' := { x with conn := { x.conn with channel }, history := x.history ++ [.removed] }
      (s.setConn c x').setLoop l { s.loops l with poller := u.1 }

def runTask (cfg : Config ι) (s : State ι) (l : ι) (k : Kernel) : Task → Option (State ι)
  | .handleConnection => handleConnection cfg s l k.accepted
  | .handleEvent c revents => handleEvent s l c revents
  | .callback c .closeCallback => handleClose s l c
  | .callback c .errorCallback => (s.derefIn l c).map fun _ => s
  | .callback c .readCallback => handleRead s l c k.read
  | .callback c .writeCallback => handleWrite s l c k.write
  | .eventHandled c => (s.derefIn l c).map fun _ => s
  | .user | .connectionCallback _ | .messageCallback _ => some s
  | .cleanupCallback c => removeConnection cfg s l c
  | .connectionEstablished c => connectionEstablished s l c
  | .removeConnectionInLoop c => removeConnectionInLoop cfg s l c
  | .connectionDestroyed c => connectionDestroyed s l c
  | .remove c => remove s l c

/-- The entries of `activeChannels_`, through the channels in `data.ptr`. -/
def activeTask (p : EpollPoller ℕ) : Reported → Option Task
  | .connection fd revents => (p.interest.find fd).map fun r => .handleEvent r.1 revents
  | .accept => some .handleConnection
  | .other => some .user

/-- `~TcpConnection` with `~Channel`, whose assertion fails in `handleEvent`, and `::close`. -/
def free (s : State ι) (c : ℕ) : Option (State ι) :=
  (s.deref c).bind fun x =>
    if .eventHandled c ∈ (s.loops x.loop).tasks then none
    else
      let s := s.setConn c (x.add [.freed])
      some { s with loops := fun l => { s.loops l with poller := (s.loops l).poller.close x.fd } }

def activeChannel (p : EpollPoller ℕ) (reported : Reported) : Option ℕ :=
  reported.fd?.bind fun fd => (p.interest.find fd).map Prod.fst

def step (cfg : Config ι) (s : State ι) : Event ι → Option (State ι)
  | .poll l active => some (s.setLoop l { s.loops l with
      phase := .dispatch
      activeChannels := active.filterMap (activeChannel (s.loops l).poller)
      tasks := active.filterMap (activeTask (s.loops l).poller) })
  | .doPendingFunctors l => some (s.setLoop l { s.loops l with
      phase := .functors
      tasks := (s.loops l).pendingFunctors
      pendingFunctors := [] })
  | .iterationEnds l => some (s.setLoop l { s.loops l with phase := .poll })
  | .run l k => match (s.loops l).tasks with
    | [] => none
    | task :: rest => runTask cfg (s.setLoop l { s.loops l with tasks := rest }) l k task
  | .send l c data w => (s.derefIn l c).bind fun x => settle s l c x (x.conn.send data w)
  | .shutdown l c => (s.derefIn l c).bind fun x => settle s l c x x.conn.shutdown
  | .queueInLoop l => some (s.queueInLoop l .user)
  | .free c => free s c

/-- The connection that a task keeps alive: a functor has a copy of the pointer, and a callback gets
`shared_from_this()`. -/
def Task.holds : Task → Option ℕ
  | .connectionCallback c => some c
  | .messageCallback c => some c
  | .connectionEstablished c => some c
  | .removeConnectionInLoop c => some c
  | .connectionDestroyed c => some c
  | .remove c => some c
  | _ => none

def Task.isUser : Task → Bool
  | .user => true
  | .connectionCallback _ => true
  | .messageCallback _ => true
  | _ => false

def State.work (s : State ι) (l : ι) : List Task := (s.loops l).tasks ++ (s.loops l).pendingFunctors

def State.Held (s : State ι) (c : ℕ) : Prop :=
  (∃ a ∈ s.connectionMap.entries, a.2 = c) ∨ ∃ l, ∃ t ∈ s.work l, t.holds = some c

open Events in
/-- A hang-up without input comes without the other two events of the read callback. -/
def PlainHangup (revents : Events) : Prop :=
  revents.has EPOLLHUP = true → revents.has EPOLLIN = false →
    revents.has (EPOLLPRI ||| EPOLLRDHUP) = false

/-- `epoll_wait` reports descriptors of the interest list, and new connections to the base loop. -/
def MayReport (cfg : Config ι) (s : State ι) (l : ι) : Reported → Prop
  | .connection fd revents => fd ∈ (s.loops l).poller.interest ∧ PlainHangup revents
  | .accept => l = cfg.baseLoop
  | .other => True

/-- It reports each descriptor at most once. -/
def Reports (cfg : Config ι) (s : State ι) (l : ι) (active : List Reported) : Prop :=
  (∀ reported ∈ active, MayReport cfg s l reported) ∧ (active.filterMap Reported.fd?).Nodup

/-- The kernel hands out a descriptor that is closed, and `::write` takes at most what it is
offered. -/
def Answers (s : State ι) (k : Kernel) : Task → Prop
  | .handleConnection => ∀ a ∈ k.accepted,
    a.1 < 2 ^ 31 ∧ ∀ x ∈ s.conns, .freed ∈ x.history ∨ x.fd ≠ a.1
  | .callback c .writeCallback => ∀ x ∈ s.conns[c]?,
    k.write.Contract x.conn.outputBuffer.readableBytes
  | _ => True

/-- User code runs in the thread of `l`, with a pointer to connection `c` of this loop. -/
def MayUse (s : State ι) (l : ι) (c : ℕ) : Prop :=
  (s.loops l).tasks.head?.any Task.isUser = true ∧
    ∃ x ∈ s.conns[c]?, x.loop = l ∧ .freed ∉ x.history

def Possible (cfg : Config ι) (s : State ι) : Event ι → Prop
  | .poll l active => (s.loops l).phase = .poll ∧ Reports cfg s l active
  | .doPendingFunctors l => (s.loops l).phase = .dispatch ∧ (s.loops l).tasks = []
  | .iterationEnds l => (s.loops l).phase = .functors ∧ (s.loops l).tasks = []
  | .run l k => ∃ t ∈ (s.loops l).tasks.head?, Answers s k t
  | .send l c data w => MayUse s l c ∧ w.Contract data.length
  | .shutdown l c => MayUse s l c
  | .queueInLoop _ => True
  | .free c => ¬ s.Held c ∧ ∃ x ∈ s.conns[c]?, .freed ∉ x.history

instance (revents : Events) : Decidable (PlainHangup revents) :=
  inferInstanceAs (Decidable (_ → _ → _))

instance (cfg : Config ι) (s : State ι) (l : ι) : ∀ reported, Decidable (MayReport cfg s l reported)
  | .connection _ _ => inferInstanceAs (Decidable (_ ∧ _))
  | .accept => inferInstanceAs (Decidable (_ = _))
  | .other => inferInstanceAs (Decidable True)

instance (s : State ι) (k : Kernel) : ∀ t, Decidable (Answers s k t)
  | .handleConnection => inferInstanceAs (Decidable (∀ a ∈ k.accepted, _))
  | .callback _ .writeCallback => inferInstanceAs (Decidable (∀ x ∈ s.conns[_]?, _))
  | .callback _ .closeCallback => inferInstanceAs (Decidable True)
  | .callback _ .errorCallback => inferInstanceAs (Decidable True)
  | .callback _ .readCallback => inferInstanceAs (Decidable True)
  | .handleEvent _ _ => inferInstanceAs (Decidable True)
  | .eventHandled _ => inferInstanceAs (Decidable True)
  | .user => inferInstanceAs (Decidable True)
  | .connectionCallback _ => inferInstanceAs (Decidable True)
  | .messageCallback _ => inferInstanceAs (Decidable True)
  | .cleanupCallback _ => inferInstanceAs (Decidable True)
  | .connectionEstablished _ => inferInstanceAs (Decidable True)
  | .removeConnectionInLoop _ => inferInstanceAs (Decidable True)
  | .connectionDestroyed _ => inferInstanceAs (Decidable True)
  | .remove _ => inferInstanceAs (Decidable True)

instance (s : State ι) (l : ι) (c : ℕ) : Decidable (MayUse s l c) :=
  inferInstanceAs (Decidable (_ ∧ _))

instance [Fintype ι] (cfg : Config ι) (s : State ι) : ∀ e, Decidable (Possible cfg s e)
  | .poll _ _ => inferInstanceAs (Decidable (_ ∧ _ ∧ _))
  | .doPendingFunctors _ => inferInstanceAs (Decidable (_ ∧ _))
  | .iterationEnds _ => inferInstanceAs (Decidable (_ ∧ _))
  | .run _ _ => inferInstanceAs (Decidable (∃ t ∈ _, _))
  | .send _ _ _ _ => inferInstanceAs (Decidable (_ ∧ _))
  | .shutdown l c => inferInstanceAs (Decidable (MayUse s l c))
  | .queueInLoop _ => inferInstanceAs (Decidable True)
  | .free _ => inferInstanceAs (Decidable (¬(_ ∨ _) ∧ _))

end TcpServer

end Matelib
