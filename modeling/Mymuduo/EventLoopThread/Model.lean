import Mymuduo.EventLoop.Model

/-!
# EventLoopThread/Model — `EventLoopThread`, its owner and its worker

The owner calls `startLoop()`, which starts the worker and waits for `loop_`; the worker constructs
its loop, runs `callback_` on it, publishes it in `loop_`, runs `loop()`, and takes `loop_` back:

    owner     constructed ──start──▸ starting ◂──▸ waiting
                                        │
                                     started ──destruct──▸ … quit() … ──▸ joining ──▸ joined
    worker    callback ──publish──▸ published ──enter──▸ looping ──▸ returned ──clear──▸ finished

What is done under `mutex_` is one action.  Other threads reach the loop through the owner or the
callback, and the calls of all of them are steps of the loop (`EventLoop.steps`).
-/

namespace Mymuduo

open Machinery

/-- Where the owner is. -/
inductive OwnerPc
  | constructed
  /-- in `startLoop`, at `while (loop_ == nullptr)` -/
  | starting
  /-- in `cond_.wait` -/
  | waiting
  /-- `startLoop` has returned -/
  | started
  /-- in the destructor, at `if (loop_ != nullptr)` -/
  | destructing
  /-- before `loop_->quit()` -/
  | quitting
  /-- in it, after the store -/
  | stored
  /-- in `thread_.join()` -/
  | joining
  | joined
  /-- the destructor has found no loop -/
  | skipped
  deriving DecidableEq, Repr

/-- The destructor has called `quit()`. -/
def OwnerPc.hasQuit : OwnerPc → Bool
  | stored | joining | joined => true
  | constructed | starting | waiting | started | destructing | quitting | skipped => false

/-- Where the worker is in `threadFunc`. -/
inductive WorkerPc
  | notStarted
  /-- its loop is constructed, and `callback_` runs on it -/
  | callback
  /-- has published the loop, `loop()` to be called -/
  | published
  /-- in `loop()` -/
  | looping
  /-- `loop()` has returned -/
  | returned
  | finished
  deriving DecidableEq, Repr

/-- The worker runs code of the user. -/
def WorkerPc.userCode : WorkerPc → Bool
  | callback | looping => true
  | notStarted | published | returned | finished => false

/-- The worker's loop exists. -/
def WorkerPc.alive : WorkerPc → Bool
  | callback | published | looping | returned => true
  | notStarted | finished => false

/-- The worker has called `loop()`. -/
def WorkerPc.entered : WorkerPc → Bool
  | looping | returned | finished => true
  | notStarted | callback | published => false

/-- An `EventLoopThread`: `loop` is the worker's own, and `loop_` says whether the member points to
it. -/
structure EventLoopThread (τ φ : Type*) where
  loop : EventLoop τ φ
  loop_ : Bool
  owner : OwnerPc
  worker : WorkerPc

namespace EventLoopThread

variable {τ φ : Type*}

def new : EventLoopThread τ φ := ⟨.new, false, .constructed, .notStarted⟩

/-- The steps of the two, and what is done to the loop. -/
inductive Action (τ φ : Type*)
  /-- `thread_.start()` -/
  | start
  /-- the test of `startLoop`, and what follows under the lock -/
  | check
  /-- `cond_.wait` returns unasked -/
  | spurious
  | destruct
  /-- the destructor's test of `loop_` -/
  | testLoop
  /-- the store of its `loop_->quit()` -/
  | quit
  /-- the rest of it -/
  | quitReturn
  | join
  /-- `loop_ = &loop; cond_.notify_one()` -/
  | publish
  /-- `loop_ = nullptr` -/
  | clear
  | loop (a : EventLoop.Action τ φ)
  deriving DecidableEq, Repr

variable [DecidableEq τ] (threadId_ ownerId : τ)

/-- Who may take a step of the loop: its own thread where it runs `loop()` or code of the user, the
owner when `startLoop` has returned, any other thread as long as the loop exists. -/
def mayTake (s : EventLoopThread τ φ) : EventLoop.Action τ φ → Prop
  | .enter => s.worker = .published
  | .push t _ | .store t | .wakeup t =>
      if t = threadId_ then s.worker.userCode = true
      else if t = ownerId then s.owner = .started ∧ s.worker.alive = true
      else s.worker.alive = true
  | .test | .pollReturn _ | .handleRead | .doPendingFunctors | .swap | .beginFunctor | .endFunctor
  | .donePendingFunctors => s.worker = .looping

instance (s : EventLoopThread τ φ) : ∀ a, Decidable (s.mayTake threadId_ ownerId a)
  | .enter => inferInstanceAs (Decidable (_ = _))
  | .push t _ | .store t | .wakeup t =>
      inferInstanceAs (Decidable (if t = threadId_ then _ else if t = ownerId then _ ∧ _ else _))
  | .test | .pollReturn _ | .handleRead | .doPendingFunctors | .swap | .beginFunctor | .endFunctor
  | .donePendingFunctors => inferInstanceAs (Decidable (_ = _))

/-- Where a step of the loop takes the worker: `loop()` is called, and it returns. -/
def workerAfter (s : EventLoopThread τ φ) : EventLoop.Action τ φ → WorkerPc
  | .enter => .looping
  | .test => if s.loop.quit_ then .returned else s.worker
  | _ => s.worker

/-- **The owner and the worker.**  `loop_->quit()` reads `loop_` again. -/
def steps : Machine (EventLoopThread τ φ) (Action τ φ) where
  enabled s
    | .start => s.owner = .constructed
    | .check => s.owner = .starting
    | .spurious => s.owner = .waiting
    | .destruct => s.owner = .started ∧ s.loop.call ownerId = .idle
    | .testLoop => s.owner = .destructing
    | .quit => s.owner = .quitting ∧ s.loop_ = true
    | .quitReturn => s.owner = .stored
    | .join => s.owner = .joining ∧ s.worker = .finished
    | .publish => s.worker = .callback ∧ s.loop.call threadId_ = .idle
    | .clear => s.worker = .returned
    | .loop a => s.mayTake threadId_ ownerId a ∧ (EventLoop.steps threadId_).enabled s.loop a
  next s
    | .start => { s with owner := .starting, worker := .callback }
    | .check => { s with owner := if s.loop_ then .started else .waiting }
    | .spurious => { s with owner := .starting }
    | .destruct => { s with owner := .destructing }
    | .testLoop => { s with owner := if s.loop_ then .quitting else .skipped }
    | .quit => { s with owner := .stored, loop := s.loop.store ownerId }
    | .quitReturn => { s with owner := .joining, loop := s.loop.finish threadId_ ownerId }
    | .join => { s with owner := .joined }
    | .publish =>
        { s with
          loop_ := true
          worker := .published
          owner := if s.owner = .waiting then .starting else s.owner }
    | .clear => { s with loop_ := false, worker := .finished }
    | .loop a =>
        { s with loop := (EventLoop.steps threadId_).next s.loop a, worker := s.workerAfter a }

instance (s : EventLoopThread τ φ) : ∀ a, Decidable ((steps threadId_ ownerId).enabled s a)
  | .start | .check | .spurious | .testLoop | .quitReturn | .clear =>
      inferInstanceAs (Decidable (_ = _))
  | .destruct | .quit | .join | .publish => inferInstanceAs (Decidable (_ = _ ∧ _ = _))
  | .loop a => inferInstanceAs (Decidable (s.mayTake threadId_ ownerId a ∧ _))

end EventLoopThread

end Mymuduo
