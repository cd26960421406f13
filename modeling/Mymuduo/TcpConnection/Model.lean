import Mymuduo.Buffer.Queue
import Mymuduo.Poller.Model

/-!
# TcpConnection/Model — `TcpConnection`, method by method

A connection acts on three things it does not own: its poller, the queue of functors of its loop and
the socket.  The poller travels with the record, the queue holds what this connection has put there,
and `socketCalls` lists what was done to the socket, with the bytes each `::write` accepted.

A method that calls back into user code or into the server ends, here, where the first callback
begins; what is then still to do is the business of the loop that runs it.  `::write` and `::readv`
take the kernel's answer as an argument.
-/

namespace Mymuduo

/-- `StateE`. -/
inductive StateE
  | kDisconnected
  | kconnecting
  | kConnected
  | kDisconnecting
  deriving DecidableEq, Repr

/-- The enumerator's value, which is what a condition tests. -/
def StateE.toNat : StateE → ℕ
  | kDisconnected => 0
  | kconnecting => 1
  | kConnected => 2
  | kDisconnecting => 3

/-- What a connection, or the server on its behalf, queues in the loop; a `sendInLoop` remembers
the thread that called `send`. -/
inductive PendingFunctor (τ : Type*)
  | connectDestoryed
  | sendInLoop (caller : τ) (data : List Byte)
  | shutdownInLoop
  | writeCompleteCallback
  | highWaterMarkCallback (size : ℕ)
  deriving DecidableEq, Repr

/-- A call on the socket: `::write`, with what it accepted, or `shutdownWrite`. -/
inductive SocketCall
  | write (accepted : List Byte)
  | shutdownWrite
  deriving DecidableEq, Repr

/-- The bytes a call put on the wire. -/
def SocketCall.accepted : SocketCall → List Byte
  | write accepted => accepted
  | shutdownWrite => []

def SocketCall.isWrite : SocketCall → Bool
  | write _ => true
  | shutdownWrite => false

/-- A connection, on a channel at address `addr`; the two optional callbacks are known by being
set. -/
structure TcpConnection (κ τ : Type*) where
  addr : κ
  state_ : StateE
  channel_ : Channel
  inputBuffer_ : SafeBuffer
  outputBuffer_ : SafeBuffer
  highWaterMark_ : ℕ
  writeCompleteCallback_ : Bool
  highWaterMarkCallback_ : Bool
  poller_ : EPollPoller κ
  pendingFunctors_ : List (PendingFunctor τ)
  socketCalls : List SocketCall

namespace TcpConnection

variable {κ τ : Type*}

/-- The default of `highWaterMark_`. -/
def kHighWaterMark : ℕ := 64 * 1024 * 1024

/-- The constructor. -/
def new (addr : κ) (sockfd : ℤ) (poller : EPollPoller κ) : TcpConnection κ τ where
  addr
  state_ := .kconnecting
  channel_ := .new sockfd
  inputBuffer_ := .new Buffer.kInitialSize
  outputBuffer_ := .new Buffer.kInitialSize
  highWaterMark_ := kHighWaterMark
  writeCompleteCallback_ := false
  highWaterMarkCallback_ := false
  poller_ := poller
  pendingFunctors_ := []
  socketCalls := []

variable (c : TcpConnection κ τ)

/-- The bytes the kernel has accepted. -/
def written : List Byte := c.socketCalls.flatMap SocketCall.accepted

/-- The write side of the socket is shut. -/
def WriteShut : Prop := SocketCall.shutdownWrite ∈ c.socketCalls

/-! ## What the methods are made of -/

def setState (state : StateE) : TcpConnection κ τ := { c with state_ := state }

/-- `if (state_ = state)`: the assignment, and its value as a condition. -/
def assignState (state : StateE) : Bool × TcpConnection κ τ :=
  (state.toNat != 0, { c with state_ := state })

/-- `loop_->queueInLoop`. -/
def queueInLoop (cb : PendingFunctor τ) : TcpConnection κ τ :=
  { c with pendingFunctors_ := c.pendingFunctors_ ++ [cb] }

/-- A callback is queued where its condition holds. -/
def queueIf (b : Bool) (cb : PendingFunctor τ) : TcpConnection κ τ :=
  if b then c.queueInLoop cb else c

theorem queueIf_eq (b : Bool) (cb : PendingFunctor τ) :
    c.queueIf b cb =
      { c with pendingFunctors_ := c.pendingFunctors_ ++ if b then [cb] else [] } := by
  cases b <;> simp [queueIf, queueInLoop]

/-- A call on `channel_`, which goes through the loop to the poller. -/
def onChannel (op : ChannelOp) : TcpConnection κ τ :=
  let r := op.call c.channel_ c.addr c.poller_
  { c with poller_ := r.1, channel_ := r.2 }

/-- `::write(channel_->fd(), data, …)`. -/
def write (data : List Byte) (r : WriteResult) : TcpConnection κ τ :=
  { c with socketCalls := c.socketCalls ++ [.write (data.take r.n.toNat)] }

/-- `socket_->shutdownWrite()`. -/
def shutdownWrite : TcpConnection κ τ :=
  { c with socketCalls := c.socketCalls ++ [.shutdownWrite] }

/-! ## Sending -/

/-- The locals of `sendInLoop`. -/
structure SendLocals where
  nwrote : ℕ
  remaining : ℕ
  faultError : Bool

/-- The first half of `sendInLoop`: the direct write, when nothing is waiting. -/
def writeDirectly (data : List Byte) (r : WriteResult) : SendLocals × TcpConnection κ τ :=
  if !c.channel_.isWriting && c.outputBuffer_.readableBytes == 0 then
    let c := c.write data r
    if 0 < r.n then
      let remaining := data.length - r.n.toNat
      (⟨r.n.toNat, remaining, false⟩,
        c.queueIf (remaining == 0 && c.writeCompleteCallback_) .writeCompleteCallback)
    else
      -- `errno` is read even where the call has not set it, and again after the log line
      (⟨0, data.length, r.errno != EWOULDBLOCK && (r.logged == EPIPE || r.logged == ECONNRESET)⟩, c)
  else (⟨0, data.length, false⟩, c)

/-- The second half: what is left goes to the buffer, and the channel asks for `EPOLLOUT`. -/
def bufferRemaining (data : List Byte) (l : SendLocals) : TcpConnection κ τ :=
  if !l.faultError && 0 < l.remaining then
    let oldLen := c.outputBuffer_.readableBytes
    let c := c.queueIf (oldLen + l.remaining ≥ c.highWaterMark_ && oldLen < c.highWaterMark_ &&
      c.highWaterMarkCallback_) (.highWaterMarkCallback (oldLen + l.remaining))
    let c := { c with
      outputBuffer_ := c.outputBuffer_.append ((data.drop l.nwrote).take l.remaining) }
    if !c.channel_.isWriting then c.onChannel .enableWriting else c
  else c

/-- `sendInLoop`.  The guard assigns: its condition is false, and `state_` is `kDisconnected`. -/
def sendInLoop (data : List Byte) (r : WriteResult) : TcpConnection κ τ :=
  let (disconnected, c) := c.assignState .kDisconnected
  if disconnected then c
  else
    let (l, c) := c.writeDirectly data r
    c.bufferRemaining data l

def shutdownInLoop : TcpConnection κ τ :=
  if !c.channel_.isWriting then c.shutdownWrite else c

/-- `handleWrite`; `writeFd` offers the kernel the readable bytes (`SafeBuffer.writeFd_eq`). -/
def handleWrite (r : WriteResult) : TcpConnection κ τ :=
  if c.channel_.isWriting then
    let c := c.write c.outputBuffer_.content r
    if 0 < r.n then
      let c := { c with outputBuffer_ := c.outputBuffer_.retrieve r.n.toNat }
      if c.outputBuffer_.readableBytes = 0 then
        let c := c.onChannel .disableWriting
        let c := c.queueIf c.writeCompleteCallback_ .writeCompleteCallback
        if c.state_ = .kDisconnecting then c.shutdownInLoop else c
      else c
    else c
  else c

/-! ## Opening and closing -/

/-- `connectEstablished`, up to `connectionCallback_`. -/
def connectEstablished : TcpConnection κ τ := (c.setState .kConnected).onChannel .enableReading

/-- `handleClose`, up to `connectionCallback_`. -/
def handleClose : TcpConnection κ τ := (c.setState .kDisconnected).onChannel .disableAll

def connectDestoryed : TcpConnection κ τ :=
  let c :=
    if c.state_ = .kConnected then (c.setState .kDisconnected).onChannel .disableAll else c
  c.onChannel .remove

/-- `handleRead`, up to its callback: a read of nothing is the peer's close, and `handleError` only
reports. -/
def handleRead (k : ReadvResult) : TcpConnection κ τ :=
  let c := { c with inputBuffer_ := c.inputBuffer_.readFd k }
  if k = .data [] then c.handleClose else c

end TcpConnection

end Mymuduo
