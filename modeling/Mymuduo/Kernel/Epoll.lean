import Mathlib.Data.Int.Notation
import Mathlib.Logic.Function.Basic
import Mymuduo.Kernel.Syscall

/-!
# Kernel/Epoll — an epoll instance's interest set

`epoll_ctl` is modelled by what it does to the interest set: `EPOLL_CTL_ADD` needs an unregistered
descriptor, `EPOLL_CTL_MOD` and `EPOLL_CTL_DEL` a registered one, and a call that has what it needs
succeeds.  The `data` of an entry is the `Channel*` the library stores there, of type `κ`.
-/

namespace Mymuduo

/-- An `int` of epoll event bits. -/
abbrev Mask := BitVec 32

def EPOLLIN : Mask := 0x001#32
def EPOLLPRI : Mask := 0x002#32
def EPOLLOUT : Mask := 0x004#32
def EPOLLERR : Mask := 0x008#32
def EPOLLHUP : Mask := 0x010#32

def EEXIST : Errno := 17
def ENOENT : Errno := 2

/-- The operations of `epoll_ctl`. -/
inductive CtlOp
  | EPOLL_CTL_ADD
  | EPOLL_CTL_MOD
  | EPOLL_CTL_DEL
  deriving DecidableEq, Repr

/-- An `epoll_event`, with `data` used as a pointer. -/
structure EpollEvent (κ : Type*) where
  events : Mask
  ptr : κ
  deriving DecidableEq, Repr

/-- The interest set: the event each registered descriptor was registered with. -/
abbrev InterestSet (κ : Type*) := ℤ → Option (EpollEvent κ)

variable {κ : Type*}

/-- `epoll_ctl`, which fails exactly on a call made in the wrong state. -/
def epoll_ctl (s : InterestSet κ) (op : CtlOp) (fd : ℤ) (event : EpollEvent κ) :
    Except Errno (InterestSet κ) :=
  match op, s fd with
  | .EPOLL_CTL_ADD, none => .ok (Function.update s fd (some event))
  | .EPOLL_CTL_ADD, some _ => .error EEXIST
  | .EPOLL_CTL_MOD, some _ => .ok (Function.update s fd (some event))
  | .EPOLL_CTL_DEL, some _ => .ok (Function.update s fd none)
  | .EPOLL_CTL_MOD, none => .error ENOENT
  | .EPOLL_CTL_DEL, none => .error ENOENT

end Mymuduo
