import Mathlib.Algebra.Group.Nat.Defs
import Mathlib.Data.List.Basic
import Mathlib.Logic.Function.Basic
import Mymuduo.Machinery.Machine

/-!
# EventLoop/Model — `EventLoop`, one step at a time

One thread runs `loop()`; every thread, that one included, may call `queueInLoop` and `quit`.  An
action is what no other thread can interleave with: the push or the swap under `mutex_`, the store
to `quit_`, the test and write of `wakeup()`, a return of `epoll_wait`.  The loop thread makes its
own calls only where user code runs, in a handler, in a functor or outside `loop()`, and does not
move on before they return.

    outside ──enter──▸ test ──▸ poll ──pollReturn──▸ dispatch ──doPendingFunctors──▸ swap
                        ▴                                                             │
                        └──────donePendingFunctors────── run (functor by functor) ◂───┘

`pushed` and `executed` record the functors in the order their push took `mutex_` and in the order
they were started; `stale` counts the ones at the front of the queue that were there before `loop()`
was entered.
-/

namespace Mymuduo

open Machinery

/-- The largest count an eventfd holds. -/
def eventfdMax : ℕ := 2 ^ 64 - 2

/-- `write(wakeupFd_, &one, 8)` on a non-blocking eventfd, which refuses what does not fit. -/
def eventfd_write (counter : ℕ) : ℕ := if counter < eventfdMax then counter + 1 else counter

/-- A write leaves the eventfd readable, whether or not it was refused. -/
theorem eventfd_write_pos (counter : ℕ) : 0 < eventfd_write counter := by
  unfold eventfd_write
  split
  case isTrue => exact Nat.succ_pos _
  case isFalse h => exact Nat.lt_of_lt_of_le (by decide) (Nat.not_lt.mp h)

/-- Where the loop thread is. -/
inductive LoopPc
  /-- not in `loop()` -/
  | outside
  /-- at `while (!quit_)` -/
  | test
  /-- in `epoll_wait` -/
  | poll
  /-- handling `activeChannels_`;
  `wakeup` says that `wakeupChannel_` is among those still to come -/
  | dispatch (wakeup : Bool)
  /-- in `doPendingFunctors`, before the swap -/
  | swap
  /-- in `doPendingFunctors`, inside a functor or between two -/
  | run (inFunctor : Bool)
  deriving DecidableEq, Repr

/-- The points at which the loop thread runs code of the user. -/
def LoopPc.userCode : LoopPc → Bool
  | outside | dispatch _ | run true => true
  | test | poll | swap | run false => false

/-- A call of `doPendingFunctors` is in progress. -/
def LoopPc.inDoPendingFunctors : LoopPc → Bool
  | swap | run _ => true
  | outside | test | poll | dispatch _ => false

/-- How far a thread is in `queueInLoop` or `quit`. -/
inductive CallPc
  | idle
  /-- has pushed, `wakeup()` to come -/
  | pushed
  /-- has stored `quit_`, `wakeup()` to come -/
  | stored
  deriving DecidableEq, Repr

/-- The loop, with the threads that call it (`τ`) and the functors it is given (`φ`). -/
structure EventLoop (τ φ : Type*) where
  quit_ : Bool
  callingPendingFunctors_ : Bool
  pendingFunctors_ : List φ
  wakeupFd_ : ℕ
  pc : LoopPc
  /-- the rest of the local batch of `doPendingFunctors` -/
  functors : List φ
  call : τ → CallPc
  pushed : List φ
  executed : List φ
  stale : ℕ

namespace EventLoop

variable {τ φ : Type*}

/-- A loop as the constructor leaves it. -/
def new : EventLoop τ φ :=
  ⟨false, false, [], 0, .outside, [], fun _ => .idle, [], [], 0⟩

/-- The steps of `loop()`, and those of the calls. -/
inductive Action (τ φ : Type*)
  | enter
  | test
  | pollReturn (wakeup : Bool)
  | handleRead
  | doPendingFunctors
  | swap
  | beginFunctor
  | endFunctor
  | donePendingFunctors
  | push (t : τ) (cb : φ)
  | store (t : τ)
  | wakeup (t : τ)
  deriving DecidableEq, Repr

variable (s : EventLoop τ φ)

/-- `wakeup()`. -/
def wakeup : EventLoop τ φ := { s with wakeupFd_ := eventfd_write s.wakeupFd_ }

/-- `EventLoop::handleRead`: the read resets the counter. -/
def handleRead : EventLoop τ φ := { s with wakeupFd_ := 0 }

variable [DecidableEq τ] (threadId_ : τ)

/-- The push of `queueInLoop`. -/
def push (t : τ) (cb : φ) : EventLoop τ φ :=
  { s with
    pendingFunctors_ := s.pendingFunctors_ ++ [cb]
    pushed := s.pushed ++ [cb]
    call := Function.update s.call t .pushed }

/-- The store of `quit`. -/
def store (t : τ) : EventLoop τ φ :=
  { s with quit_ := true, call := Function.update s.call t .stored }

/-- The test a call makes before `wakeup()`: `queueInLoop` wakes the loop unless its own thread
calls between two batches, `quit` unless its own thread calls. -/
def wakes (t : τ) : Bool :=
  match s.call t with
  | .idle => false
  | .pushed => t ≠ threadId_ || s.callingPendingFunctors_
  | .stored => t ≠ threadId_

/-- The rest of a call. -/
def finish (t : τ) : EventLoop τ φ :=
  let s' := if s.wakes threadId_ t then s.wakeup else s
  { s' with call := Function.update s.call t .idle }

/-! ### What the rest of a call leaves alone -/

section finish

variable {s threadId_} {t : τ}

@[simp] theorem finish_call :
    (s.finish threadId_ t).call = Function.update s.call t .idle := by
  unfold finish
  split <;> rfl

@[simp] theorem finish_pc : (s.finish threadId_ t).pc = s.pc := by
  unfold finish
  split <;> rfl

@[simp] theorem finish_quit : (s.finish threadId_ t).quit_ = s.quit_ := by
  unfold finish
  split <;> rfl

@[simp] theorem finish_calling :
    (s.finish threadId_ t).callingPendingFunctors_ = s.callingPendingFunctors_ := by
  unfold finish
  split <;> rfl

@[simp] theorem finish_pending :
    (s.finish threadId_ t).pendingFunctors_ = s.pendingFunctors_ := by
  unfold finish
  split <;> rfl

@[simp] theorem finish_stale : (s.finish threadId_ t).stale = s.stale := by
  unfold finish
  split <;> rfl

@[simp] theorem finish_functors : (s.finish threadId_ t).functors = s.functors := by
  unfold finish
  split <;> rfl

@[simp] theorem finish_pushed : (s.finish threadId_ t).pushed = s.pushed := by
  unfold finish
  split <;> rfl

@[simp] theorem finish_executed : (s.finish threadId_ t).executed = s.executed := by
  unfold finish
  split <;> rfl

theorem finish_wakeupFd : (s.finish threadId_ t).wakeupFd_ =
    if s.wakes threadId_ t then eventfd_write s.wakeupFd_ else s.wakeupFd_ := by
  unfold finish
  split <;> rfl

end finish

/-- **The loop and its callers.** -/
def steps : Machine (EventLoop τ φ) (Action τ φ) where
  enabled s
    | .enter => s.pc = .outside ∧ s.call threadId_ = .idle
    | .test => s.pc = .test
    | .pollReturn wakeup => s.pc = .poll ∧ (wakeup → 0 < s.wakeupFd_)
    | .handleRead => s.pc = .dispatch true ∧ s.call threadId_ = .idle
    | .doPendingFunctors => s.pc = .dispatch false ∧ s.call threadId_ = .idle
    | .swap => s.pc = .swap
    | .beginFunctor => s.pc = .run false ∧ s.functors ≠ []
    | .endFunctor => s.pc = .run true ∧ s.call threadId_ = .idle
    | .donePendingFunctors => s.pc = .run false ∧ s.functors = []
    | .push t _ | .store t => s.call t = .idle ∧ (t = threadId_ → s.pc.userCode)
    | .wakeup t => s.call t ≠ .idle
  next s
    | .enter => { s with quit_ := false, pc := .test, stale := s.pendingFunctors_.length }
    | .test => { s with pc := if s.quit_ then .outside else .poll }
    | .pollReturn wakeup => { s with pc := .dispatch wakeup }
    | .handleRead => { s.handleRead with pc := .dispatch false }
    | .doPendingFunctors => { s with callingPendingFunctors_ := true, functors := [], pc := .swap }
    | .swap =>
        { s with
          functors := s.pendingFunctors_
          pendingFunctors_ := []
          pc := .run false
          stale := 0 }
    | .beginFunctor =>
        { s with
          functors := s.functors.tail
          executed := s.executed ++ s.functors.take 1
          pc := .run true }
    | .endFunctor => { s with pc := .run false }
    | .donePendingFunctors => { s with callingPendingFunctors_ := false, pc := .test }
    | .push t cb => s.push t cb
    | .store t => s.store t
    | .wakeup t => s.finish threadId_ t

instance (s : EventLoop τ φ) : ∀ a, Decidable ((steps threadId_).enabled s a)
  | .enter => inferInstanceAs (Decidable (_ ∧ _))
  | .test => inferInstanceAs (Decidable (_ = _))
  | .pollReturn _ => inferInstanceAs (Decidable (_ ∧ (_ → _)))
  | .handleRead => inferInstanceAs (Decidable (_ ∧ _))
  | .doPendingFunctors => inferInstanceAs (Decidable (_ ∧ _))
  | .swap => inferInstanceAs (Decidable (_ = _))
  | .beginFunctor => inferInstanceAs (Decidable (_ ∧ s.functors ≠ []))
  | .endFunctor => inferInstanceAs (Decidable (_ ∧ _))
  | .donePendingFunctors => inferInstanceAs (Decidable (_ ∧ s.functors = []))
  | .push _ _ => inferInstanceAs (Decidable (_ ∧ (_ → _)))
  | .store _ => inferInstanceAs (Decidable (_ ∧ (_ → _)))
  | .wakeup _ => inferInstanceAs (Decidable (_ ≠ _))

/-- The states of a loop from its construction on. -/
def Reachable (s : EventLoop τ φ) : Prop := (steps threadId_).Reachable (· = new) s

end EventLoop

end Mymuduo
