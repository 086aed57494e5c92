import Matelib.TcpConnection

/-!
# Clients

`TcpClient` in its loop thread, on one socket from construction to destruction. The functions
return the client with the list of its effects on the outside, in their order: the system calls
`::connect` and `::close` on the socket, the repetitions that `runAfter` schedules, the calls of the
user's callbacks with the state that the client then has, and the effects of its connection. In the
loop thread `runInLoop` runs at once. `initConnection` is marked by an effect of its own.
-/

namespace Matelib

namespace TcpClient

inductive State where
  | kDisconnected
  | kConnected
  | kConnectError
  deriving DecidableEq, Repr

/-- The error number that `::connect` leaves, or `success` when it returns zero. -/
inductive SavedError where
  | success
  | EISCONN
  | EINPROGRESS
  | EINTR
  | EAGAIN
  | EADDRINUSE
  | EADDRNOTAVAIL
  | ECONNREFUSED
  | ENETUNREACH
  | EACCES
  | EPERM
  | EAFNOSUPPORT
  | EALREADY
  | EBADF
  | EFAULT
  | ENOTSOCK
  | other (code : ℕ)
  deriving DecidableEq, Repr

inductive Effect where
  | connect (sockfd : ℕ)
  | close (sockfd : ℕ)
  | runAfter (retryDelayMs : ℤ)
  | initConnection
  | conn (effect : TcpConnection.Effect)
  | connectionCallback (state : State)
  | cleanupCallback
  | queueConnectionDestroyed
  deriving DecidableEq, Repr

def maxRetryDelayMs : ℤ := 30 * 1000
def maxRetryTimes : ℕ := 10

end TcpClient

/-- The callbacks of the user are there or not. -/
structure TcpClient where
  state : TcpClient.State
  connectTimes : ℕ
  sockfd : ℕ
  retryDelayMs : ℤ
  conn : TcpConnection
  connectionCallback : Bool
  cleanupCallback : Bool
  deriving DecidableEq

namespace TcpClient

def new (sockfd : ℕ) (retryDelayMs : ℤ) : TcpClient :=
  ⟨.kDisconnected, 0, sockfd, retryDelayMs, .new sockfd, false, false⟩

def setConnectionCallback (c : TcpClient) : TcpClient := { c with connectionCallback := true }
def setCleanupCallback (c : TcpClient) : TcpClient := { c with cleanupCallback := true }
def connected (c : TcpClient) : Bool := c.state == .kConnected
def connectError (c : TcpClient) : Bool := c.state == .kConnectError

def report (c : TcpClient) : List Effect :=
  if c.connectionCallback then [.connectionCallback c.state] else []

def onConnection (c : TcpClient) (connected : Bool) : TcpClient × List Effect :=
  let c := { c with state := if connected then .kConnected else .kDisconnected }
  (c, c.report)

def onCleanup (c : TcpClient) : List Effect :=
  (if c.cleanupCallback then [.cleanupCallback] else []) ++ [.queueConnectionDestroyed]

def settle (c : TcpClient) : List TcpConnection.Effect → TcpClient × List Effect
  | [] => (c, [])
  | .connectionCallback connected :: effects =>
    let r := c.onConnection connected
    let rest := r.1.settle effects
    (rest.1, r.2 ++ rest.2)
  | .cleanupCallback :: effects =>
    let rest := c.settle effects
    (rest.1, c.onCleanup ++ rest.2)
  | effect :: effects =>
    let rest := c.settle effects
    (rest.1, .conn effect :: rest.2)

/-- It returns the socket. -/
def initConnection (c : TcpClient) : TcpClient × ℤ × List Effect :=
  let r := c.conn.connectionEstablished
  let s := { c with connectTimes := 0, conn := r.1 }.settle r.2
  (s.1, c.sockfd, .initConnection :: s.2)

/-- The end of `connect` after an error that is not retried. -/
def giveUp (c : TcpClient) : TcpClient × ℤ × List Effect :=
  let c := { c with state := .kConnectError }
  (c, -1, .close c.sockfd :: c.report)

def nextDelay (retryDelayMs : ℤ) : ℤ :=
  if 0 < retryDelayMs ∧ retryDelayMs < maxRetryDelayMs then retryDelayMs * 2 else retryDelayMs

def retry (c : TcpClient) : TcpClient × ℤ × List Effect :=
  ({ c with retryDelayMs := nextDelay c.retryDelayMs }, 0, [.runAfter c.retryDelayMs])

/-- The `switch` over what `::connect` left. -/
def answer (c : TcpClient) : SavedError → TcpClient × ℤ × List Effect
  | .success | .EISCONN => c.initConnection
  | .EINPROGRESS | .EINTR | .EAGAIN | .EADDRINUSE | .EADDRNOTAVAIL | .ECONNREFUSED
  | .ENETUNREACH => c.retry
  | .EACCES | .EPERM | .EAFNOSUPPORT | .EALREADY | .EBADF | .EFAULT | .ENOTSOCK
  | .other _ => c.giveUp

/-- The counter after the test of `connect`. -/
def attempted (c : TcpClient) : TcpClient := { c with connectTimes := c.connectTimes + 1 }

/-- `savedError` is what `::connect` leaves, if it is called. -/
def connect (c : TcpClient) (savedError : SavedError) : TcpClient × ℤ × List Effect :=
  if c.connectTimes < maxRetryTimes then
    let r := c.attempted.answer savedError
    (r.1, r.2.1, .connect c.sockfd :: r.2.2)
  else c.attempted.giveUp

def send (c : TcpClient) (data : Bytes) (w : TcpConnection.WriteResult) : TcpClient × List Effect :=
  let r := c.conn.send data w
  { c with conn := r.1 }.settle r.2

/-- `none` when the assertion in `Buffer::retrieve` fails. -/
def handleWrite (c : TcpClient) (w : TcpConnection.WriteResult) :
    Option (TcpClient × List Effect) :=
  (c.conn.handleWrite w).map fun r => { c with conn := r.1 }.settle r.2

def shutdown (c : TcpClient) : TcpClient × List Effect :=
  let r := c.conn.shutdown
  { c with state := .kDisconnected, conn := r.1 }.settle r.2

/-- `none` when the assertion of the connection about its state fails. -/
def handleClose (c : TcpClient) : Option (TcpClient × List Effect) :=
  c.conn.handleClose.map fun r => { c with conn := r.1 }.settle r.2

def connectionDestroyed (c : TcpClient) : TcpClient × List Effect :=
  let r := c.conn.connectionDestroyed
  { c with conn := r.1 }.settle r.2

def SavedError.succeeds : SavedError → Bool
  | .success | .EISCONN => true
  | _ => false

def SavedError.retries : SavedError → Bool
  | .EINPROGRESS | .EINTR | .EAGAIN | .EADDRINUSE | .EADDRNOTAVAIL | .ECONNREFUSED
  | .ENETUNREACH => true
  | _ => false

variable {c : TcpClient} {savedError : SavedError}

theorem answer_success (h : savedError.succeeds = true) :
    c.answer savedError = c.initConnection := by
  cases savedError <;> first | rfl | cases h

theorem answer_retry (h : savedError.retries = true) : c.answer savedError = c.retry := by
  cases savedError <;> first | rfl | cases h

theorem answer_fatal (hs : savedError.succeeds = false) (hr : savedError.retries = false) :
    c.answer savedError = c.giveUp := by
  cases savedError <;> first | rfl | exact absurd hs (by decide) | exact absurd hr (by decide)

theorem connect_of_lt (hc : c.connectTimes < maxRetryTimes) :
    c.connect savedError = ((c.attempted.answer savedError).1, (c.attempted.answer savedError).2.1,
      .connect c.sockfd :: (c.attempted.answer savedError).2.2) := by
  rw [connect, if_pos hc]

theorem connect_exhausted (hc : maxRetryTimes ≤ c.connectTimes) :
    c.connect savedError = c.attempted.giveUp := by
  rw [connect, if_neg (not_lt.mpr hc)]

end TcpClient

end Matelib
