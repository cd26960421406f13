import Mymuduo.TcpConnection.OutputStream

/-!
# TcpConnection/Session — a connection among its threads, its loop and its server

One thread runs the loop; any thread may call `send` and `shutdown`.  An action is a point at which
another thread's can come in between: the test of `state_` in `send`, what `send` does then, the
test, the store and the rest of `shutdown`.  A method the loop's thread runs touches `state_` at one
point only, and what it queues besides are callbacks of the user, who may make the same calls at any
other moment anyway; so a method is one action.

The loop's thread takes one functor at a time from the front of the queue — which is what a loop is
(`EventLoop.simulation`) — or reports an event.  `todo` is what it has still to do of the event or
method it is at; calls of its own it makes from user code only.
-/

namespace Mymuduo

open Machinery TcpConnection

/-- How far a thread is in `send` or `shutdown`. -/
inductive Call
  | idle
  /-- `send` has found `kConnected` -/
  | sending (data : List Byte)
  /-- `shutdown` has passed its test -/
  | shutTested
  /-- and has stored `kDisconnecting` -/
  | shutStored
  deriving DecidableEq, Repr

def Call.isSending : Call → Bool
  | sending _ => true
  | idle | shutTested | shutStored => false

/-- Between the test of `shutdown` and its end. -/
def Call.isShutting : Call → Bool
  | shutTested | shutStored => true
  | idle | sending _ => false

/-- What the loop's thread has still to do: the branches of an event, a callback of the user, and
the server's `removeConnection`. -/
inductive Task
  | closeCallback
  | errorCallback
  | readCallback
  | writeCallback
  | user
  | removeConnection
  deriving DecidableEq, Repr

/-- `handleEventWithGuard`: the callbacks an event asks for, in order. -/
def Channel.handleEventWithGuard (revents_ : Mask) : List Task :=
  (if revents_ &&& EPOLLHUP ≠ 0#32 ∧ revents_ &&& EPOLLIN = 0#32 then [.closeCallback] else []) ++
  (if revents_ &&& EPOLLERR ≠ 0#32 then [.errorCallback] else []) ++
  (if revents_ &&& (EPOLLIN ||| EPOLLPRI) ≠ 0#32 then [.readCallback] else []) ++
  (if revents_ &&& EPOLLOUT ≠ 0#32 then [.writeCallback] else [])

/-- What the kernel would answer to the calls a step may make. -/
structure Answer where
  write : WriteResult
  readv : ReadvResult

variable {κ τ : Type*}

/-- The method a branch of an event runs; `handleError` only reports. -/
def Task.method (k : Answer) : Task → Option (Method τ)
  | closeCallback => some .handleClose
  | readCallback => some (.handleRead k.readv)
  | writeCallback => some (.handleWrite k.write)
  | errorCallback | user | removeConnection => none

/-- The method a functor runs. -/
def PendingFunctor.method (k : Answer) : PendingFunctor τ → Option (Method τ)
  | connectDestoryed => some .connectDestoryed
  | sendInLoop caller data => some (.sendInLoop caller data k.write)
  | shutdownInLoop => some .shutdownInLoop
  | writeCompleteCallback | highWaterMarkCallback _ => none

namespace TcpConnection.Method

/-- The callbacks a method ends with. -/
def callbacks : Method τ → List Task
  | connectEstablished => [.user]
  | handleClose => [.user, .removeConnection]
  | handleRead (.data []) => [.user, .removeConnection]
  | handleRead (.data (_ :: _)) => [.user]
  | connectDestoryed | sendInLoop _ _ _ | shutdownInLoop | handleRead (.fail _) | handleWrite _ => []

/-- The message a method sends, with its caller. -/
def message : Method τ → List (τ × List Byte)
  | sendInLoop caller data _ => [(caller, data)]
  | connectEstablished | connectDestoryed | shutdownInLoop | handleRead _ | handleWrite _
  | handleClose => []

def isSendInLoop : Method τ → Bool
  | sendInLoop _ _ _ => true
  | connectEstablished | connectDestoryed | shutdownInLoop | handleRead _ | handleWrite _
  | handleClose => false

def isEstablish : Method τ → Bool
  | connectEstablished => true
  | connectDestoryed | sendInLoop _ _ _ | shutdownInLoop | handleRead _ | handleWrite _
  | handleClose => false

end TcpConnection.Method

/-- A connection with all that acts on it.  `established` and `closed` say which
methods have run; `sent` lists the calls of `send` that have returned and `ran` the messages
`sendInLoop` has run on. -/
structure Session (κ τ : Type*) where
  conn : TcpConnection κ τ
  call : τ → Call
  todo : List Task
  /-- the channel is among the loop's `activeChannels_`, its turn still to come -/
  active : Bool
  /-- the server's `removeConnectionInLoop` still to come -/
  removals : ℕ
  established : Bool
  closed : Bool
  sent : List (τ × List Byte)
  ran : List (τ × List Byte)
  shutdownReturned : Bool

namespace Session

/-- The actions.  `others` is whatever the other channels of the loop do to its poller, `consume` a
callback's `retrieve` on the input buffer, and `destroy` the server's destructor. -/
inductive Action (κ τ : Type*)
  | connectEstablished
  | send (t : τ) (data : List Byte)
  | sendRun (t : τ) (k : Answer)
  | shutdown (t : τ)
  | shutdownStore (t : τ)
  | shutdownRun (t : τ)
  | functor (k : Answer)
  | poll (revents : Mask)
  | dispatch
  | task (k : Answer)
  | ret
  | removeConnection
  | destroy (t : τ)
  | others (p : EPollPoller κ)
  | consume (len : ℕ)

/-- Before anything has happened. -/
def new (conn : TcpConnection κ τ) : Session κ τ :=
  ⟨conn, fun _ => .idle, [], false, 0, false, false, [], [], false⟩

variable [DecidableEq τ] (threadId_ : τ) (s : Session κ τ)

/-- The loop's thread is in user code, and makes no call. -/
def userCode : Bool := s.todo.head? = none || s.todo.head? = some .user

/-- The method an action runs. -/
def method : Action κ τ → Option (Method τ)
  | .connectEstablished => some .connectEstablished
  | .sendRun t k =>
      match s.call t with
      | .sending data => if t = threadId_ then some (.sendInLoop t data k.write) else none
      | .idle | .shutTested | .shutStored => none
  | .shutdownRun t => if t = threadId_ then some .shutdownInLoop else none
  | .functor k => s.conn.pendingFunctors_.head?.bind (PendingFunctor.method k)
  | .task k => s.todo.head?.bind (Task.method k)
  | .destroy t => if t = threadId_ then some .connectDestoryed else none
  | .send _ _ | .shutdown _ | .shutdownStore _ | .poll _ | .dispatch | .ret | .removeConnection
  | .others _ | .consume _ => none

/-- What an action does apart from its method. -/
def book : Action κ τ → Session κ τ
  | .connectEstablished => s
  | .send t data =>
      if s.conn.state_ = .kConnected then
        { s with call := Function.update s.call t (.sending data) }
      else { s with sent := s.sent ++ [(t, data)] }
  | .sendRun t _ =>
      match s.call t with
      | .sending data =>
          { s with
            call := Function.update s.call t .idle
            sent := s.sent ++ [(t, data)]
            conn := if t = threadId_ then s.conn else s.conn.queueInLoop (.sendInLoop t data) }
      | .idle | .shutTested | .shutStored => s
  | .shutdown t =>
      if s.conn.state_ = .kDisconnected then
        { s with call := Function.update s.call t .shutTested }
      else { s with shutdownReturned := true }
  | .shutdownStore t =>
      { s with
        conn := s.conn.setState .kDisconnecting
        call := Function.update s.call t .shutStored }
  | .shutdownRun t =>
      { s with
        call := Function.update s.call t .idle
        shutdownReturned := true
        conn := if t = threadId_ then s.conn else s.conn.queueInLoop .shutdownInLoop }
  | .functor _ =>
      { s with
        conn := { s.conn with pendingFunctors_ := s.conn.pendingFunctors_.tail }
        todo := if s.conn.pendingFunctors_.head?.any PendingFunctor.isCallback then [.user] else [] }
  | .poll revents =>
      { s with
        conn := { s.conn with channel_ := s.conn.channel_.set_revents revents }
        active := true }
  | .dispatch =>
      { s with
        active := false
        todo := Channel.handleEventWithGuard s.conn.channel_.revents_ }
  | .task _ =>
      { s with
        todo := s.todo.tail
        removals := s.removals + if s.todo.head? = some .removeConnection then 1 else 0 }
  | .ret => { s with todo := s.todo.tail }
  | .removeConnection =>
      { s with removals := s.removals - 1, conn := s.conn.queueInLoop .connectDestoryed }
  | .destroy t =>
      { s with conn := if t = threadId_ then s.conn else s.conn.queueInLoop .connectDestoryed }
  | .others p => { s with conn := { s.conn with poller_ := p } }
  | .consume len =>
      { s with conn := { s.conn with inputBuffer_ := s.conn.inputBuffer_.retrieve len } }

/-- A method runs: its callbacks come before what was still to do. -/
def perform (m : Method τ) : Session κ τ :=
  { s with
    conn := m.run s.conn
    todo := m.callbacks ++ s.todo
    established := s.established || m.isEstablish
    closed := s.closed || m.closes
    ran := s.ran ++ m.message }

/-- The kernel may report these events: the channel is registered, with this address, and they are
among those it asked for or those reported unasked. -/
def Reports (revents : Mask) : Prop :=
  (s.conn.poller_.interest s.conn.channel_.fd_).elim False fun ev =>
    ev.ptr = s.conn.addr ∧ revents &&& ~~~(ev.events ||| EPOLLERR ||| EPOLLHUP) = 0#32

/-- What an action needs apart from the kernel's answers. -/
def Ready : Action κ τ → Prop
  | .connectEstablished => s.established = false ∧ s.todo = [] ∧ s.call threadId_ = .idle
  | .send t _ | .shutdown t =>
      s.established = true ∧ s.call t = .idle ∧ (t = threadId_ → s.userCode)
  | .sendRun t _ => (s.call t).isSending
  | .shutdownStore t => s.call t = .shutTested
  | .shutdownRun t => s.call t = .shutStored
  | .functor _ =>
      s.conn.pendingFunctors_ ≠ [] ∧ s.todo = [] ∧ s.active = false ∧ s.call threadId_ = .idle
  | .poll revents =>
      s.Reports revents ∧ s.todo = [] ∧ s.active = false ∧ s.call threadId_ = .idle
  | .dispatch => s.active = true ∧ s.todo = [] ∧ s.call threadId_ = .idle
  | .task _ => s.userCode = false ∧ s.call threadId_ = .idle
  | .ret => s.todo.head? = some .user ∧ s.call threadId_ = .idle
  | .removeConnection => 0 < s.removals
  | .destroy t =>
      s.established = true ∧ (t = threadId_ → s.userCode ∧ s.call threadId_ = .idle)
  | .others p =>
      p.interest s.conn.channel_.fd_ = s.conn.poller_.interest s.conn.channel_.fd_ ∧
        p.channels_ s.conn.channel_.fd_ = s.conn.poller_.channels_ s.conn.channel_.fd_
  | .consume _ => s.todo.head? = some .user

instance [DecidableEq κ] (revents : Mask) : Decidable (s.Reports revents) := by
  unfold Reports
  cases s.conn.poller_.interest s.conn.channel_.fd_ with
  | none => exact isFalse id
  | some ev => exact inferInstanceAs (Decidable (_ ∧ _))

instance Ready.decidable [DecidableEq κ] : ∀ a, Decidable (s.Ready threadId_ a)
  | .connectEstablished => inferInstanceAs (Decidable (_ ∧ _ ∧ _))
  | .send _ _ => inferInstanceAs (Decidable (_ ∧ _ ∧ (_ → _)))
  | .shutdown _ => inferInstanceAs (Decidable (_ ∧ _ ∧ (_ → _)))
  | .sendRun _ _ => inferInstanceAs (Decidable (_ = _))
  | .shutdownStore _ => inferInstanceAs (Decidable (_ = _))
  | .shutdownRun _ => inferInstanceAs (Decidable (_ = _))
  | .functor _ => inferInstanceAs (Decidable (_ ∧ _ ∧ _ ∧ _))
  | .poll _ => inferInstanceAs (Decidable (Reports _ _ ∧ _ ∧ _ ∧ _))
  | .dispatch => inferInstanceAs (Decidable (_ ∧ _ ∧ _))
  | .task _ => inferInstanceAs (Decidable (_ ∧ _))
  | .ret => inferInstanceAs (Decidable (_ ∧ _))
  | .removeConnection => inferInstanceAs (Decidable (_ < _))
  | .destroy _ => inferInstanceAs (Decidable (_ ∧ (_ → _ ∧ _)))
  | .others _ => inferInstanceAs (Decidable (_ ∧ _))
  | .consume _ => inferInstanceAs (Decidable (_ = _))

/-- **The session**: an action is what it does to its callers' state, then its method. -/
def steps : Machine (Session κ τ) (Action κ τ) where
  enabled s a := s.Ready threadId_ a ∧
    ∀ m ∈ s.method threadId_ a, m.Allowed (s.book threadId_ a).conn
  next s a :=
    match s.method threadId_ a with
    | none => s.book threadId_ a
    | some m => (s.book threadId_ a).perform m

instance [DecidableEq κ] (a : Action κ τ) : Decidable ((steps threadId_).enabled s a) :=
  inferInstanceAs (Decidable (_ ∧ ∀ m ∈ s.method threadId_ a, _))

end Session

end Mymuduo
