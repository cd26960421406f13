import Mymuduo.TcpConnection.Session

/-!
# TcpServer/Model — a started server, its loops and all who hold a connection

The server is on the base loop and gives its connections, in turn, to the loops of its pool; a pool
of none leaves them to the base loop.  Each loop has a thread, the user has others.  Whatever a
thread wants of a loop goes through `runInLoop`: it is executed at once on the loop's own thread,
and waits in `pendingFunctors_` otherwise.

    outside ──enter──▸ test ──▸ polling ──poll──▸ dispatching ──doPendingFunctors──▸ running
                        ▴ │                                                            │
                        │ └─▸ outside (base);  returned (pool)                         │
                        └──────────────────donePendingFunctors─────────────────────────┘

    returned ──▸ cleared ──▸ leaving ──▸ destroyed

The actions are those of a connection (`Session`), for any number of them, with the batch of
functors now a vector of its own that keeps its functors until all have run.  A connection lives as
long as something holds it (`Strong`): nothing in the model destroys one, and a bare pointer to one
that nothing holds is followed nowhere.  What a poller knows of the loop's own wakeup channel and of
the acceptor's is left out.
-/

namespace Mymuduo

open Machinery TcpConnection

/-- The base loop, or a loop of the pool. -/
inductive LoopId
  | base
  | sub (i : ℕ)
  deriving DecidableEq, Repr

/-- The thread of a loop, or one of the user's (`υ`). -/
inductive Thread (υ : Type*)
  | loop (l : LoopId)
  | user (u : υ)
  deriving DecidableEq, Repr

/-! ## The pool -/

/-- `EventLoopThreadPool`, started. -/
structure EventLoopThreadPool where
  numThreads_ : ℕ
  next_ : ℕ

namespace EventLoopThreadPool

variable (p : EventLoopThreadPool)

def loops_ : List LoopId := (List.range p.numThreads_).map .sub

def getNextLoop : LoopId × EventLoopThreadPool :=
  if p.loops_.isEmpty then (.base, p)
  else
    let next := p.next_ + 1
    (p.loops_.getD p.next_ .base, { p with next_ := if next ≥ p.loops_.length then 0 else next })

end EventLoopThreadPool

/-! ## Loops and connections -/

/-- `send` and `shutdown` bind the bare `this`; all else that is queued holds the connection. -/
def PendingFunctor.isRaw {τ : Type*} : PendingFunctor τ → Bool
  | sendInLoop _ _ | shutdownInLoop => true
  | connectDestoryed | writeCompleteCallback | highWaterMarkCallback _ => false

/-- The methods that call `connectionCallback_`. -/
def TcpConnection.Method.notifies {τ : Type*} : Method τ → Bool
  | connectEstablished | handleClose => true
  | handleRead k => k = .data []
  | connectDestoryed | sendInLoop _ _ _ | shutdownInLoop | handleWrite _ => false

/-- What is queued in a loop: by the server, or by and for the connection `c`. -/
inductive ServerFunctor (υ : Type*)
  | connectEstablished (c : ℕ)
  | removeConnectionInLoop (c : ℕ)
  | of (c : ℕ) (f : PendingFunctor (Thread υ))
  deriving DecidableEq

namespace ServerFunctor

variable {υ : Type*}

/-- The connection it is about. -/
def target : ServerFunctor υ → ℕ
  | connectEstablished c | removeConnectionInLoop c | of c _ => c

def isRaw : ServerFunctor υ → Bool
  | connectEstablished _ | removeConnectionInLoop _ => false
  | of _ f => f.isRaw

/-- The method it runs. -/
def method (k : Answer) : ServerFunctor υ → Option (Method (Thread υ))
  | connectEstablished _ => some .connectEstablished
  | removeConnectionInLoop _ => none
  | of _ f => f.method k

end ServerFunctor

/-- Where a loop is. -/
inductive Stage
  | outside
  | test
  | polling
  | dispatching
  | running
  /-- `loop()` has returned -/
  | returned
  /-- `loop_` of its `EventLoopThread` is null -/
  | cleared
  /-- `~EventLoop` has dropped `pendingFunctors_` -/
  | leaving
  | destroyed
  deriving DecidableEq, Repr

/-- The points at which a loop's thread may be in code of the user. -/
def Stage.userCode : Stage → Bool
  | outside | dispatching | running => true
  | test | polling | returned | cleared | leaving | destroyed => false

/-- The thread has steps to take after `loop()`. -/
def Stage.ending : Stage → Bool
  | returned | cleared | leaving => true
  | outside | test | polling | dispatching | running | destroyed => false

/-- `loop_` is null. -/
def Stage.loopNull : Stage → Bool
  | cleared | leaving | destroyed => true
  | outside | test | polling | dispatching | running | returned => false

/-- `pendingFunctors_` is gone. -/
def Stage.gone : Stage → Bool
  | leaving | destroyed => true
  | outside | test | polling | dispatching | running | returned | cleared => false

/-- A loop and its thread.  `ran` and `rest` make up the batch of `doPendingFunctors`, and `todo` is
what the thread has still to do of the event or method it is at. -/
structure ServerLoop (υ : Type*) where
  stage : Stage
  quit_ : Bool
  poller_ : EPollPoller ℕ
  /-- those still to be dispatched -/
  activeChannels_ : List ℕ
  pendingFunctors_ : List (ServerFunctor υ)
  ran : List (ServerFunctor υ)
  rest : List (ServerFunctor υ)
  todo : List (ℕ × Task)

namespace ServerLoop

variable {υ : Type*} (L : ServerLoop υ)

def new (stage : Stage) : ServerLoop υ := ⟨stage, false, .new, [], [], [], [], []⟩

/-- All the functors the loop has. -/
def functors : List (ServerFunctor υ) := L.pendingFunctors_ ++ (L.ran ++ L.rest)

/-- `while (!quit_)`. -/
def testQuit (l : LoopId) : ServerLoop υ :=
  if L.quit_ then
    match l with
    | .base => { L with stage := .outside }
    | .sub _ => { L with stage := .returned }
  else { L with stage := .polling }

/-- What `threadFunc` does after `loop()`, step by step: `loop_` is null before the `EventLoop` on its
stack goes, whose members go in turn. -/
def endNext : ServerLoop υ :=
  match L.stage with
  | .returned => { L with stage := .cleared }
  | .cleared => { L with stage := .leaving, pendingFunctors_ := [] }
  | .leaving => { L with stage := .destroyed, poller_ := .new }
  | .outside | .test | .polling | .dispatching | .running | .destroyed => L

/-- A strong reference to `c`: the copy a functor has, or the one an event or a callback is run
under. -/
def Refers (c : ℕ) : Prop :=
  (∃ f ∈ L.functors, f.isRaw = false ∧ f.target = c) ∨ c ∈ L.todo.map Prod.fst

instance (c : ℕ) : Decidable (L.Refers c) := inferInstanceAs (Decidable (_ ∨ _))

end ServerLoop

/-- A connection, its loop, its name — the number that ends it — and the values `connected()` had
where `connectionCallback_` was called.  The poller and the queue are the loop's. -/
structure Connection (υ : Type*) where
  tcp : TcpConnection ℕ (Thread υ)
  home : LoopId
  name : BitVec 32
  notified : List Bool

/-- Where the server is, from `start()` to the end of its destructor. -/
inductive Phase
  | running
  /-- in the body of `~TcpServer` -/
  | destroying
  /-- in `~EventLoopThread` of thread `i`, at `if (loop_ != nullptr)` -/
  | stopping (i : ℕ)
  /-- in its `thread_.join()` -/
  | joining (i : ℕ)
  | destroyed
  deriving DecidableEq, Repr

def Phase.inDestructor : Phase → Bool
  | destroying | stopping _ | joining _ => true
  | running | destroyed => false

/-- The server with everything it runs on: `conn` lists the `made` connections so far, `call` and
`callee` say how far a thread is in `send` or `shutdown`, and `held` the `TcpConnectionPtr`s threads
have. -/
structure TcpServer (υ : Type*) where
  loop : LoopId → ServerLoop υ
  conn : ℕ → Connection υ
  made : ℕ
  threadPool_ : EventLoopThreadPool
  nextConnId_ : BitVec 32
  conncetions_ : BitVec 32 → Option ℕ
  writeCompleteCallback_ : Bool
  phase : Phase
  call : Thread υ → Call
  callee : Thread υ → ℕ
  held : List (Thread υ × ℕ)

namespace TcpServer

variable {υ : Type*}

/-- A server as `start()` leaves it. -/
def start (numThreads : ℕ) (writeCompleteCallback : Bool) : TcpServer υ where
  loop
    | .base => .new .outside
    | .sub i => .new (if i < numThreads then .outside else .destroyed)
  conn _ := ⟨.new 0 0 .new, .base, 0, []⟩
  made := 0
  threadPool_ := ⟨numThreads, 0⟩
  nextConnId_ := 1
  conncetions_ _ := none
  writeCompleteCallback_ := writeCompleteCallback
  phase := .running
  call _ := .idle
  callee _ := 0
  held := []

/-- The actions: the loops', those of threads in `send`, `shutdown` and with their pointers, the
acceptor's, and the destructor's. -/
inductive Action (υ : Type*)
  | enter (l : LoopId)
  | test (l : LoopId)
  | poll (l : LoopId) (reports : List (ℕ × Mask))
  | dispatch (l : LoopId)
  | task (l : LoopId) (k : Answer)
  | ret (l : LoopId)
  | doPendingFunctors (l : LoopId)
  | functor (l : LoopId) (k : Answer)
  | donePendingFunctors (l : LoopId)
  /-- the next step of thread `i` of the pool after `loop()` -/
  | endLoop (i : ℕ)
  | quit (t : Thread υ) (l : LoopId)
  | newConncetion (sockfd : ℤ)
  | send (t : Thread υ) (c : ℕ) (data : List Byte)
  | sendRun (t : Thread υ) (k : Answer)
  | shutdown (t : Thread υ) (c : ℕ)
  | shutdownStore (t : Thread υ)
  | shutdownRun (t : Thread υ)
  | setHighWaterMarkCallback (t : Thread υ) (c : ℕ) (highWaterMark : ℕ)
  /-- a callback's `retrieve` on the input buffer -/
  | retrieve (l : LoopId) (len : ℕ)
  /-- `t` copies a pointer it has for `t'` -/
  | share (t t' : Thread υ) (c : ℕ)
  | release (t : Thread υ) (c : ℕ)
  /-- `~TcpServer` is called -/
  | destroy
  /-- the next round of its loop -/
  | destroyNext (c : ℕ)
  /-- the next of its steps after that, through the threads of the pool -/
  | stop

/-- The kernel's answers to the calls an action may make. -/
def Action.answer : Action υ → Answer
  | .task _ k | .functor _ k | .sendRun _ k => k
  | _ => ⟨⟨0, 0, 0⟩, .data []⟩

variable (s : TcpServer υ)

/-! ## Who holds a connection -/

def loops : List LoopId := .base :: s.threadPool_.loops_

/-- `c` is in `conncetions_`. -/
def InMap (c : ℕ) : Prop := s.conncetions_ (s.conn c).name = some c

instance (c : ℕ) : Decidable (s.InMap c) := inferInstanceAs (Decidable (_ = _))

/-- **A strong reference to `c` exists.** -/
def Strong (c : ℕ) : Prop :=
  s.InMap c ∨ (∃ l ∈ s.loops, (s.loop l).Refers c) ∨ c ∈ s.held.map Prod.snd

instance (c : ℕ) : Decidable (s.Strong c) := inferInstanceAs (Decidable (_ ∨ _ ∨ _))

/-! ## What the actions are made of -/

def onLoop (l : LoopId) (f : ServerLoop υ → ServerLoop υ) : TcpServer υ :=
  { s with loop := Function.update s.loop l (f (s.loop l)) }

def onTcp (c : ℕ) (f : TcpConnection ℕ (Thread υ) → TcpConnection ℕ (Thread υ)) : TcpServer υ :=
  { s with conn := Function.update s.conn c { s.conn c with tcp := f (s.conn c).tcp } }

/-- A connection as its methods see it: the poller is its loop's. -/
def view (c : ℕ) : TcpConnection ℕ (Thread υ) :=
  { (s.conn c).tcp with
    poller_ := (s.loop (s.conn c).home).poller_
    pendingFunctors_ := [] }

/-- A method runs on `c` in the thread of `l`: its callbacks come before what the thread had still
to do, and `connectionCallback_` is the first of them. -/
def perform (l : LoopId) (c : ℕ) (m : Method (Thread υ)) : TcpServer υ :=
  let tcp := m.run (s.view c)
  { s with
    conn := Function.update s.conn c { s.conn c with
      tcp
      notified := (s.conn c).notified ++
        if m.notifies then [tcp.state_ == .kConnected] else [] }
    loop := fun l' =>
      { s.loop l' with
        poller_ := if l' = (s.conn c).home then tcp.poller_ else (s.loop l').poller_
        pendingFunctors_ := (s.loop l').pendingFunctors_ ++
          if l' = (s.conn c).home then tcp.pendingFunctors_.map (.of c) else []
        todo := (if l' = l then m.callbacks.map (c, ·) else []) ++ (s.loop l').todo } }

/-- `queueInLoop`; a loop may have left `loop()` and have its queue still. -/
def queueInLoop (l : LoopId) (f : ServerFunctor υ) : TcpServer υ :=
  s.onLoop l fun L =>
    if L.stage.gone then L else { L with pendingFunctors_ := L.pendingFunctors_ ++ [f] }

def removeConnectionInLoop (c : ℕ) : TcpServer υ :=
  { s with conncetions_ := Function.update s.conncetions_ (s.conn c).name none }.queueInLoop
    (s.conn c).home (.of c .connectDestoryed)

/-- A functor runs in the thread of `l`. -/
def exec (l : LoopId) (k : Answer) : ServerFunctor υ → TcpServer υ
  | .connectEstablished c => s.perform l c .connectEstablished
  | .removeConnectionInLoop c => s.removeConnectionInLoop c
  | .of c f =>
      match f.method k with
      | some m => if f.isRaw = false ∨ s.Strong c then s.perform l c m else s
      | none => s.onLoop l fun L => { L with todo := (c, .user) :: L.todo }

/-- `runInLoop`, called in thread `t`. -/
def runInLoop [DecidableEq υ] (t : Thread υ) (l : LoopId) (k : Answer) (f : ServerFunctor υ) :
    TcpServer υ :=
  if t = .loop l then s.exec l k f else s.queueInLoop l f

/-- `fillActiveChannels`: each channel is told its events, in order. -/
def setRevents (reports : List (ℕ × Mask)) : ℕ → Connection υ :=
  reports.foldl (fun conn r => Function.update conn r.1 { conn r.1 with
    tcp := { (conn r.1).tcp with channel_ := (conn r.1).tcp.channel_.set_revents r.2 } }) s.conn

/-- `handleEvent`: the branches of the event, under the guard. -/
def handleEvent (c : ℕ) : List (ℕ × Task) :=
  if s.Strong c then
    (Channel.handleEventWithGuard (s.conn c).tcp.channel_.revents_).map (c, ·)
  else []

/-- `newConncetion`, up to its `runInLoop`.  `accept` returns a descriptor that was free, so a
connection that had it before has closed it. -/
def accept (sockfd : ℤ) : TcpServer υ :=
  let c := s.made
  let r := s.threadPool_.getNextLoop
  { s with
    loop := fun l => { s.loop l with poller_ := (s.loop l).poller_.closed sockfd }
    threadPool_ := r.2
    nextConnId_ := s.nextConnId_ + 1
    made := c + 1
    conn := Function.update s.conn c
      { tcp := { TcpConnection.new c sockfd .new with
          writeCompleteCallback_ := s.writeCompleteCallback_ }
        home := r.1
        name := s.nextConnId_
        notified := [] }
    conncetions_ := Function.update s.conncetions_ s.nextConnId_ (some c) }

/-- The destructor goes on to thread `i` of the pool. -/
def toThread (i : ℕ) : TcpServer υ :=
  { s with phase := if i < s.threadPool_.numThreads_ then .stopping i else .destroyed }

/-- One of its steps: a thread whose `loop_` is null is not joined. -/
def stopNext : TcpServer υ :=
  match s.phase with
  | .destroying => s.toThread 0
  | .stopping i =>
      if (s.loop (.sub i)).stage.loopNull then s.toThread (i + 1)
      else { s.onLoop (.sub i) fun L => { L with quit_ := true } with phase := .joining i }
  | .joining i => s.toThread (i + 1)
  | .running | .destroyed => s

variable [DecidableEq υ]

/-! ## The actions -/

/-- What an action does before it runs or queues anything. -/
def book : Action υ → TcpServer υ
  | .enter l => s.onLoop l fun L => { L with stage := .test, quit_ := false }
  | .test l => s.onLoop l fun L => L.testQuit l
  | .poll l reports =>
      { s.onLoop l fun L =>
          { L with stage := .dispatching, activeChannels_ := reports.map Prod.fst } with
        conn := s.setRevents reports }
  | .dispatch l => s.onLoop l fun L =>
      { L with
        activeChannels_ := L.activeChannels_.tail
        todo := (L.activeChannels_.take 1).flatMap s.handleEvent }
  | .task l _ | .ret l => s.onLoop l fun L => { L with todo := L.todo.tail }
  | .doPendingFunctors l => s.onLoop l fun L =>
      { L with stage := .running, rest := L.pendingFunctors_, pendingFunctors_ := [] }
  | .functor l _ => s.onLoop l fun L =>
      { L with ran := L.ran ++ L.rest.take 1, rest := L.rest.tail }
  | .donePendingFunctors l => s.onLoop l fun L => { L with stage := .test, ran := [] }
  | .endLoop i => s.onLoop (.sub i) fun L => L.endNext
  | .quit _ l => s.onLoop l fun L => { L with quit_ := true }
  | .newConncetion sockfd => s.accept sockfd
  | .send t c data =>
      if (s.conn c).tcp.state_ = .kConnected then
        { s with
          call := Function.update s.call t (.sending data)
          callee := Function.update s.callee t c }
      else s
  | .shutdown t c =>
      if (s.conn c).tcp.state_ = .kDisconnected then
        { s with
          call := Function.update s.call t .shutTested
          callee := Function.update s.callee t c }
      else s
  | .shutdownStore t =>
      { s.onTcp (s.callee t) fun tcp => tcp.setState .kDisconnecting with
        call := Function.update s.call t .shutStored }
  | .sendRun t _ | .shutdownRun t => { s with call := Function.update s.call t .idle }
  | .setHighWaterMarkCallback _ c highWaterMark => s.onTcp c fun tcp =>
      { tcp with highWaterMarkCallback_ := true, highWaterMark_ := highWaterMark }
  | .retrieve l len =>
      match (s.loop l).todo.head? with
      | some r => s.onTcp r.1 fun tcp =>
          { tcp with inputBuffer_ := tcp.inputBuffer_.retrieve len }
      | none => s
  | .share _ t c => { s with held := (t, c) :: s.held }
  | .release t c => { s with held := s.held.erase (t, c) }
  | .destroy => { s with phase := .destroying }
  | .destroyNext c =>
      { s with conncetions_ := Function.update s.conncetions_ (s.conn c).name none }
  | .stop => s.stopNext

/-- What an action wants run, by which thread and in which loop: its `runInLoop`, or the functor
whose turn it is. -/
def request : Action υ → Option (Thread υ × LoopId × ServerFunctor υ)
  | .functor l _ => (s.loop l).rest.head?.map fun f => (.loop l, l, f)
  | .task l _ =>
      match (s.loop l).todo.head? with
      | some (c, .removeConnection) => some (.loop l, .base, .removeConnectionInLoop c)
      | _ => none
  | .newConncetion _ =>
      some (.loop .base, s.threadPool_.getNextLoop.1, .connectEstablished s.made)
  | .sendRun t _ =>
      match s.call t with
      | .sending data =>
          some (t, (s.conn (s.callee t)).home, .of (s.callee t) (.sendInLoop t data))
      | .idle | .shutTested | .shutStored => none
  | .shutdownRun t => some (t, (s.conn (s.callee t)).home, .of (s.callee t) .shutdownInLoop)
  | .destroyNext c => some (.loop .base, (s.conn c).home, .of c .connectDestoryed)
  | _ => none

/-- The branch of an event that an action is: where, on which connection, what. -/
def branch : Action υ → Option (LoopId × ℕ × Method (Thread υ))
  | .task l k => (s.loop l).todo.head?.bind fun r => (r.2.method k).map fun m => (l, r.1, m)
  | _ => none

/-- The functor an action runs, and where. -/
def runs (a : Action υ) : Option (LoopId × ServerFunctor υ) :=
  (s.request a).bind fun r => if r.1 = .loop r.2.1 then some r.2 else none

/-- The method an action runs: where, on which connection, which. -/
def job (a : Action υ) : Option (LoopId × ℕ × Method (Thread υ)) :=
  (s.branch a).or ((s.runs a).bind fun r => (r.2.method a.answer).map fun m => (r.1, r.2.target, m))

/-! ## The machine -/

/-- The thread of `l` is in a callback about `c`. -/
def InCallback (t : Thread υ) (c : ℕ) : Prop :=
  match t with
  | .loop l => (s.loop l).todo.head? = some (c, .user)
  | .user _ => False

instance (t : Thread υ) (c : ℕ) : Decidable (s.InCallback t c) :=
  match t with
  | .loop _ => inferInstanceAs (Decidable (_ = _))
  | .user _ => isFalse id

/-- A thread has a pointer to `c`: one of its own, or a callback's argument. -/
def Has (t : Thread υ) (c : ℕ) : Prop := (t, c) ∈ s.held ∨ s.InCallback t c

instance (t : Thread υ) (c : ℕ) : Decidable (s.Has t c) := inferInstanceAs (Decidable (_ ∨ _))

/-- The thread of `l` is in no call and not in the destructor. -/
def Free (l : LoopId) : Prop :=
  s.call (.loop l) = .idle ∧ (l = .base → s.phase.inDestructor = false)

instance (l : LoopId) : Decidable (s.Free l) := inferInstanceAs (Decidable (_ ∧ (_ → _)))

/-- The thread of `l` is in code of the user. -/
def UserCode (l : LoopId) : Prop :=
  (s.loop l).stage.userCode = true ∧ (l = .base → s.phase.inDestructor = false) ∧
    ∀ r ∈ (s.loop l).todo.head?, r.2 = .user

instance (l : LoopId) : Decidable (s.UserCode l) :=
  inferInstanceAs (Decidable (_ ∧ (_ → _) ∧ ∀ r ∈ (s.loop l).todo.head?, _))

/-- A thread may make a call: it is in none, and a loop's thread is in code of the user. -/
def MayCall (t : Thread υ) : Prop :=
  s.call t = .idle ∧
    match t with
    | .loop l => s.UserCode l
    | .user _ => True

instance (t : Thread υ) : Decidable (s.MayCall t) :=
  match t with
  | .loop l => inferInstanceAs (Decidable (_ ∧ s.UserCode l))
  | .user _ => inferInstanceAs (Decidable (_ ∧ True))

/-- The kernel may report these events to `l`: the channel is registered there, and they are among
those it asked for or those reported unasked. -/
def Reports (l : LoopId) (r : ℕ × Mask) : Prop :=
  ((s.loop l).poller_.interest (s.conn r.1).tcp.channel_.fd_).elim False fun ev =>
    ev.ptr = r.1 ∧ r.2 &&& ~~~(ev.events ||| EPOLLERR ||| EPOLLHUP) = 0#32

instance (l : LoopId) (r : ℕ × Mask) : Decidable (s.Reports l r) := by
  unfold Reports
  cases (s.loop l).poller_.interest (s.conn r.1).tcp.channel_.fd_ with
  | none => exact isFalse id
  | some ev => exact inferInstanceAs (Decidable (_ ∧ _))

/-- The thread of `l` is at `stage`, with nothing begun. -/
def At (l : LoopId) (stage : Stage) : Prop :=
  (s.loop l).stage = stage ∧ (s.loop l).todo = [] ∧ s.Free l

instance (l : LoopId) (stage : Stage) : Decidable (s.At l stage) :=
  inferInstanceAs (Decidable (_ ∧ (s.loop l).todo = [] ∧ _))

/-- The destructor may take its next step: `conncetions_` is emptied first, and a thread is joined
when it has ended. -/
def MayStop : Prop :=
  match s.phase with
  | .destroying => ∀ c < s.made, ¬ s.InMap c
  | .stopping _ => True
  | .joining i => (s.loop (.sub i)).stage = .destroyed
  | .running | .destroyed => False

instance : Decidable s.MayStop := by
  unfold MayStop
  cases s.phase <;> infer_instance

/-- What an action needs apart from the kernel's answers.  A descriptor is free for `accept` when no
living connection has it. -/
def Ready : Action υ → Prop
  | .enter l => s.At l .outside
  | .test l => s.At l .test
  | .poll l reports => s.At l .polling ∧ ∀ r ∈ reports, s.Reports l r
  | .dispatch l => s.At l .dispatching ∧ (s.loop l).activeChannels_ ≠ []
  | .task l _ => s.Free l ∧ ∃ r ∈ (s.loop l).todo.head?, r.2 ≠ .user
  | .ret l => s.Free l ∧ ∃ r ∈ (s.loop l).todo.head?, r.2 = .user
  | .doPendingFunctors l => s.At l .dispatching ∧ (s.loop l).activeChannels_ = []
  | .functor l _ => s.At l .running ∧ (s.loop l).rest ≠ []
  | .donePendingFunctors l => s.At l .running ∧ (s.loop l).rest = []
  | .endLoop i => (s.loop (.sub i)).stage.ending = true
  | .quit t l => s.MayCall t ∧ (s.loop l).stage.gone = false
  | .newConncetion sockfd =>
      s.At .base .dispatching ∧ s.phase = .running ∧ 0 ≤ sockfd ∧
        ∀ c < s.made, s.Strong c → (s.conn c).tcp.channel_.fd_ ≠ sockfd
  | .send t c _ | .shutdown t c | .setHighWaterMarkCallback t c _ | .share t _ c =>
      s.MayCall t ∧ s.Has t c
  | .sendRun t _ => (s.call t).isSending = true
  | .shutdownStore t => s.call t = .shutTested
  | .shutdownRun t => s.call t = .shutStored
  | .retrieve l _ => s.Free l ∧ ∃ r ∈ (s.loop l).todo.head?, r.2 = .user
  | .release t c => s.MayCall t ∧ (t, c) ∈ s.held
  | .destroy => s.MayCall (.loop .base) ∧ s.phase = .running
  | .destroyNext c => s.phase = .destroying ∧ c < s.made ∧ s.InMap c
  | .stop => s.MayStop

instance Ready.decidable : ∀ a, Decidable (s.Ready a)
  | .enter _ | .test _ => inferInstanceAs (Decidable (s.At _ _))
  | .poll l reports => inferInstanceAs (Decidable (s.At _ _ ∧ ∀ r ∈ reports, s.Reports l r))
  | .dispatch _ => inferInstanceAs (Decidable (s.At _ _ ∧ (_ : List ℕ) ≠ []))
  | .doPendingFunctors _ => inferInstanceAs (Decidable (s.At _ _ ∧ (_ : List ℕ) = []))
  | .functor _ _ => inferInstanceAs (Decidable (s.At _ _ ∧ (_ : List (ServerFunctor υ)) ≠ []))
  | .donePendingFunctors _ =>
      inferInstanceAs (Decidable (s.At _ _ ∧ (_ : List (ServerFunctor υ)) = []))
  | .task l _ => inferInstanceAs (Decidable (_ ∧ ∃ r ∈ (s.loop l).todo.head?, _))
  | .ret l | .retrieve l _ => inferInstanceAs (Decidable (_ ∧ ∃ r ∈ (s.loop l).todo.head?, _))
  | .endLoop _ | .sendRun _ _ | .shutdownStore _ | .shutdownRun _ =>
      inferInstanceAs (Decidable (_ = _))
  | .quit _ _ => inferInstanceAs (Decidable (s.MayCall _ ∧ _ = _))
  | .newConncetion _ => inferInstanceAs (Decidable (s.At _ _ ∧ _ = _ ∧ _ ≤ _ ∧ ∀ c < s.made, _))
  | .send _ _ _ | .shutdown _ _ | .setHighWaterMarkCallback _ _ _ | .share _ _ _ =>
      inferInstanceAs (Decidable (s.MayCall _ ∧ s.Has _ _))
  | .release _ _ => inferInstanceAs (Decidable (s.MayCall _ ∧ _ ∈ s.held))
  | .destroy => inferInstanceAs (Decidable (s.MayCall _ ∧ _ = _))
  | .destroyNext _ => inferInstanceAs (Decidable (_ = _ ∧ _ < _ ∧ s.InMap _))
  | .stop => inferInstanceAs (Decidable s.MayStop)

/-- What an action leads to. -/
def after (a : Action υ) : TcpServer υ :=
  let s' := match s.branch a with
    | some (l, c, m) => (s.book a).perform l c m
    | none => s.book a
  match s.request a with
  | some (t, l, f) => s'.runInLoop t l a.answer f
  | none => s'

/-- **The server**, its loops and its users. -/
def steps : Machine (TcpServer υ) (Action υ) where
  enabled s a := s.Ready a ∧ ∀ j ∈ s.job a, j.2.2.Allowed ((s.book a).view j.2.1)
  next s a := s.after a

instance (a : Action υ) : Decidable (steps.enabled s a) :=
  inferInstanceAs (Decidable (_ ∧ ∀ j ∈ s.job a, _))

end TcpServer

end Mymuduo
