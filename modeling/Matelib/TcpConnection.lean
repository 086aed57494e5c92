import Matelib.Channel
import Matelib.ValidBuffer
import Matelib.Transition

/-!
# Connections

`TcpConnection` as it runs in its loop thread. Every function returns the connection with the list
of its effects on the outside, in their order: channel updates and the removal of the channel, the
bytes that `::write` accepted, `::shutdown(SHUT_WR)` with the bytes that were then still in the
output buffer, and the callbacks.
-/

namespace Matelib

namespace TcpConnection

inductive State where
  | kConnecting
  | kConnected
  | kDisconnecting
  | kDisconnected
  deriving DecidableEq, Repr

inductive Errno where
  | EWOULDBLOCK
  | EPIPE
  | other (code : ℕ)
  deriving DecidableEq, Repr

/-- What a call of `::write` returns, with the error number it leaves. -/
structure WriteResult where
  ret : ℤ
  errno : Errno
  deriving DecidableEq, Repr

/-- The largest count that one `write` transfers on Linux. -/
def maxTransfer : ℕ := 0x7ffff000

/-- The contract of `::write` for a request of `len` bytes: a count of at most `len`, which the
kernel caps at `maxTransfer`, or `-1`. -/
def WriteResult.Contract (w : WriteResult) (len : ℕ) : Prop :=
  w.ret = -1 ∨ (0 ≤ w.ret ∧ w.ret ≤ len ∧ w.ret ≤ maxTransfer)

instance (w : WriteResult) (len : ℕ) : Decidable (w.Contract len) :=
  inferInstanceAs (Decidable (_ ∨ _))

/-- The peer has not closed its end: a failing `::write` does not report `EPIPE`. -/
def WriteResult.NoPipe (w : WriteResult) : Prop := w.ret = -1 → w.errno ≠ .EPIPE

instance (w : WriteResult) : Decidable w.NoPipe := inferInstanceAs (Decidable (_ → _))

def toInt (n : ℤ) : ℤ := (BitVec.ofInt 32 n).toInt

theorem toInt_eq_self {n : ℤ} (hlow : -2147483648 ≤ n) (hhigh : n < 2147483648) : toInt n = n := by
  rw [toInt, BitVec.toInt_ofInt]
  apply Int.bmod_eq_of_le <;> simp <;> omega

inductive Effect where
  | update (events : Events)
  | write (accepted : Bytes)
  | shutdownWrite (pending : Bytes)
  | connectionCallback (connected : Bool)
  | cleanupCallback
  | remove
  deriving DecidableEq, Repr

end TcpConnection

structure TcpConnection where
  state : TcpConnection.State
  channel : Channel
  outputBuffer : ValidBuffer
  deriving DecidableEq

namespace TcpConnection

open Channel

def new (sockfd : ℕ) : TcpConnection := ⟨.kConnecting, .new sockfd, .empty⟩

def connected (c : TcpConnection) : Bool := c.state == .kConnected

def connectionEstablished (c : TcpConnection) : TcpConnection × List Effect :=
  let c := { c with state := .kConnected, channel := c.channel.enableReading }
  (c, [.update c.channel.events, .connectionCallback c.connected])

def sendInThread (c : TcpConnection) (data : Bytes) (w : WriteResult) :
    TcpConnection × List Effect :=
  if c.state = .kDisconnected then (c, [])
  else
    let direct := !c.channel.isWriting && c.outputBuffer.readableBytes == 0
    let ret := if direct then toInt w.ret else 0
    let error := direct && ret < 0 && w.errno == .EPIPE
    let nwrote := ret.toNat
    let remaining := data.length - nwrote
    let written : List Effect := if direct then [.write (data.take w.ret.toNat)] else []
    if !error && 0 < remaining then
      -- the kernel took only a part: the rest waits in the output buffer
      let c := { c with outputBuffer := c.outputBuffer.append ((data.drop nwrote).take remaining) }
      if !c.channel.isWriting then
        let c := { c with channel := c.channel.enableWriting }
        (c, written ++ [.update c.channel.events])
      else (c, written)
    else (c, written)

/-- The three overloads of `send` in the loop thread: they differ only in how the bytes are passed,
and none of them consumes the caller's data. -/
def send (c : TcpConnection) (data : Bytes) (w : WriteResult) : TcpConnection × List Effect :=
  if c.state = .kConnected then c.sendInThread data w else (c, [])

def shutdownInLoop (c : TcpConnection) : List Effect :=
  if !c.channel.isWriting then [.shutdownWrite c.outputBuffer.readable] else []

def shutdown (c : TcpConnection) : TcpConnection × List Effect :=
  if c.state = .kConnected then
    let c := { c with state := .kDisconnecting }
    (c, c.shutdownInLoop)
  else (c, [])

/-- `none` when the assertion in `Buffer::retrieve` fails. -/
def handleWrite (c : TcpConnection) (w : WriteResult) : Option (TcpConnection × List Effect) :=
  if c.channel.isWriting then
    let written : Effect := .write (c.outputBuffer.readable.take w.ret.toNat)
    if 0 < w.ret then
      (c.outputBuffer.retrieve w.ret.toNat).map fun rest =>
        let c := { c with outputBuffer := rest }
        if c.outputBuffer.readableBytes = 0 then
          let c := { c with channel := c.channel.disableWriting }
          (c, [written, .update c.channel.events] ++
            if c.state = .kDisconnecting then c.shutdownInLoop else [])
        else (c, [written])
    else some (c, [written])
  else some (c, [])

/-- `none` when the assertion about the state fails. -/
def handleClose (c : TcpConnection) : Option (TcpConnection × List Effect) :=
  if c.state = .kConnected ∨ c.state = .kDisconnecting then
    let c := { c with state := .kDisconnected, channel := c.channel.disableAll }
    some (c, [.update c.channel.events, .connectionCallback c.connected, .cleanupCallback])
  else none

def connectionDestroyed (c : TcpConnection) : TcpConnection × List Effect :=
  if c.state = .kConnected then
    let c := { c with state := .kDisconnected, channel := c.channel.disableAll }
    (c, [.update c.channel.events, .connectionCallback c.connected, .remove])
  else (c, [.remove])

end TcpConnection

end Matelib
