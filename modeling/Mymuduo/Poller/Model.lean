import Mymuduo.Kernel.Epoll

/-!
# Poller/Model — `Channel` and `EPollPoller`

A channel is a descriptor, the events it asks for, and an index that records what its poller has
done about it.  Every member function that changes the events ends in `update`, which goes through
the owner loop to `EPollPoller::updateChannel`; so a call takes the poller along and returns it with
the channel.  `self` is the channel's address.
-/

namespace Mymuduo

/-- `index_`: what the poller has done about a channel (`-1`, `1` and `2` in the source). -/
inductive Index
  | kNew
  | kAdded
  | kDeleted
  deriving DecidableEq, Repr

structure Channel where
  fd_ : ℤ
  events_ : Mask
  revents_ : Mask
  index_ : Index
  deriving DecidableEq, Repr

namespace Channel

def kNoneEvent : Mask := 0#32
def kReadEvent : Mask := EPOLLIN ||| EPOLLPRI
def kWriteEvent : Mask := EPOLLOUT

/-- The constructor. -/
def new (fd : ℤ) : Channel := ⟨fd, kNoneEvent, kNoneEvent, .kNew⟩

variable (c : Channel)

def isNoneEvent : Bool := c.events_ == kNoneEvent
def isWriting : Bool := c.events_ &&& kWriteEvent != 0#32
def isReading : Bool := c.events_ &&& kReadEvent != 0#32

def set_index (idx : Index) : Channel := { c with index_ := idx }
def set_revents (revt : Mask) : Channel := { c with revents_ := revt }

end Channel

/-- The poller: `channels_`, the interest set behind `epollfd_`, and what `update` reported —
the failed calls, and whether one of them was a `LOG_FATAL`, which exits the process. -/
structure EPollPoller (κ : Type*) where
  channels_ : ℤ → Option κ
  interest : InterestSet κ
  ctlErrors : List (CtlOp × ℤ × Errno)
  exited : Bool

namespace EPollPoller

variable {κ : Type*}

/-- A poller as the constructor leaves it. -/
def new : EPollPoller κ := ⟨fun _ => none, fun _ => none, [], false⟩

variable (p : EPollPoller κ) (self : κ) (channel : Channel)

def update (operation : CtlOp) : EPollPoller κ :=
  match epoll_ctl p.interest operation channel.fd_ ⟨channel.events_, self⟩ with
  | .ok interest => { p with interest }
  | .error errno =>
      { p with
        ctlErrors := p.ctlErrors ++ [(operation, channel.fd_, errno)]
        exited := p.exited || operation != .EPOLL_CTL_DEL }

def updateChannel : EPollPoller κ × Channel :=
  if channel.index_ = .kNew ∨ channel.index_ = .kDeleted then
    let p := if channel.index_ = .kNew then
        { p with channels_ := Function.update p.channels_ channel.fd_ (some self) }
      else p
    let channel := channel.set_index .kAdded
    (p.update self channel .EPOLL_CTL_ADD, channel)
  else if channel.isNoneEvent then
    (p.update self channel .EPOLL_CTL_DEL, channel.set_index .kDeleted)
  else
    (p.update self channel .EPOLL_CTL_MOD, channel)

def removeChannel : EPollPoller κ × Channel :=
  let p := { p with channels_ := Function.update p.channels_ channel.fd_ none }
  let p := if channel.index_ = .kAdded then p.update self channel .EPOLL_CTL_DEL else p
  (p, channel.set_index .kNew)

/-- A descriptor that is closed leaves the interest set: the kernel takes it out. -/
def closed (fd : ℤ) : EPollPoller κ := { p with interest := Function.update p.interest fd none }

/-- `Poller::hasChannel`. -/
def hasChannel [DecidableEq κ] : Bool := p.channels_ channel.fd_ == some self

end EPollPoller

/-! ## The channel's own calls -/

namespace Channel

variable {κ : Type*} (c : Channel) (self : κ) (p : EPollPoller κ)

/-- The new mask goes to the poller. -/
def update (events : Mask) : EPollPoller κ × Channel :=
  p.updateChannel self { c with events_ := events }

def enableReading : EPollPoller κ × Channel := c.update self p (c.events_ ||| kReadEvent)
def disalbeReading : EPollPoller κ × Channel := c.update self p (c.events_ &&& ~~~kReadEvent)
def enableWriting : EPollPoller κ × Channel := c.update self p (c.events_ ||| kWriteEvent)
def disableWriting : EPollPoller κ × Channel := c.update self p (c.events_ &&& ~~~kWriteEvent)
def disableAll : EPollPoller κ × Channel := c.update self p kNoneEvent
def remove : EPollPoller κ × Channel := p.removeChannel self c

end Channel

/-- The calls a channel's owner may make. -/
inductive ChannelOp
  | enableReading
  | disalbeReading
  | enableWriting
  | disableWriting
  | disableAll
  | remove
  deriving DecidableEq, Repr

namespace ChannelOp

variable {κ : Type*}

def call (op : ChannelOp) (c : Channel) (self : κ) (p : EPollPoller κ) :
    EPollPoller κ × Channel :=
  match op with
  | enableReading => c.enableReading self p
  | disalbeReading => c.disalbeReading self p
  | enableWriting => c.enableWriting self p
  | disableWriting => c.disableWriting self p
  | disableAll => c.disableAll self p
  | remove => c.remove self p

end ChannelOp

end Mymuduo
