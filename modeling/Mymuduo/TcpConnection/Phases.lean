import Mymuduo.TcpConnection.Session

/-!
# TcpConnection/Phases — what holds of a connection between construction, close and after

A session is new, or established.  From `connectEstablished` on

* the poller agrees with the channel;
* until a closing method runs the channel is registered, asks for reading, and asks for writing
  exactly while bytes wait;
* once one has run, `state_` is `kDisconnected` or `kDisconnecting`, and so it is as soon as a
  `shutdown` has passed its test.

Every action keeps this (`Phased.next`), whatever `state_` says otherwise.  What an action does
besides running a method is said once: for the record (`book_frame`), the state, the queue, the
callers and the event under way.
-/

namespace Mymuduo

open Machinery TcpConnection

variable {κ τ : Type*}

namespace TcpConnection

/-- A connection as the constructor leaves it, on a descriptor the kernel does not report to its
poller; the server may have set the callbacks and the high-water mark. -/
structure Constructed (c : TcpConnection κ τ) : Prop where
  state : c.state_ = .kconnecting
  channel : c.channel_ = .new c.channel_.fd_
  input : c.inputBuffer_ = .new Buffer.kInitialSize
  output : c.outputBuffer_ = .new Buffer.kInitialSize
  functors : c.pendingFunctors_ = []
  calls : c.socketCalls = []
  interest : c.poller_.interest c.channel_.fd_ = none
  channels : c.poller_.channels_ c.channel_.fd_ ≠ some c.addr

theorem constructed_new (addr : κ) (sockfd : ℤ) {p : EPollPoller κ}
    (hint : p.interest sockfd = none) (hchan : p.channels_ sockfd = none) :
    (new addr sockfd p : TcpConnection κ τ).Constructed :=
  ⟨rfl, rfl, rfl, rfl, rfl, rfl, hint, fun h => nomatch hchan.symm.trans h⟩

/-- The two states a closed connection can be in. -/
def Down (state : StateE) : Prop := state = .kDisconnected ∨ state = .kDisconnecting

instance (state : StateE) : Decidable (Down state) := inferInstanceAs (Decidable (_ ∨ _))

theorem Down.ne_connected {state : StateE} (h : Down state) : state ≠ .kConnected := by
  rintro rfl
  exact absurd h (by decide)

variable {c : TcpConnection κ τ} {m : Method τ}

/-- No method but `connectEstablished` leaves a state other than the one it found or
`kDisconnected`. -/
theorem effect_state (c : TcpConnection κ τ) (hm : m.isEstablish = false) :
    (m.run c).state_ = .kDisconnected ∨ (m.run c).state_ = c.state_ := by
  rw [(m.run_does c).state]
  cases m with
  | connectEstablished => cases hm
  | connectDestoryed => simp only [Method.effect]; split <;> simp [Effect.none]
  | handleRead k => simp only [Method.effect]; split <;> simp [Effect.none]
  | handleWrite r => simp only [Method.effect]; split <;> simp [Effect.none]
  | sendInLoop caller data r => exact .inl rfl
  | shutdownInLoop => exact .inr rfl
  | handleClose => exact .inl rfl

/-- A closing method leaves an established connection down. -/
theorem down_of_closes (hm : m.closes = true) (hstate : c.state_ ≠ .kconnecting) :
    Down (m.run c).state_ := by
  rw [(m.run_does c).state]
  cases m with
  | connectDestoryed =>
    cases hs : c.state_ <;> simp_all [Method.effect, Effect.none, Down]
  | handleRead k =>
    have hk : k = .data [] := by simpa [Method.closes] using hm
    exact .inl (by simp [Method.effect, hk])
  | handleClose => exact .inl rfl
  | connectEstablished => cases hm
  | sendInLoop caller data r => cases hm
  | shutdownInLoop => cases hm
  | handleWrite r => cases hm

/-- Between the two a method makes at most one call on the channel, and it is about writing. -/
theorem effect_ops (c : TcpConnection κ τ) (he : m.isEstablish = false) (hm : m.closes = false) :
    (m.effect c).ops = [] ∨ (m.effect c).ops = [.enableWriting] ∨
      (m.effect c).ops = [.disableWriting] := by
  cases m with
  | connectEstablished => cases he
  | sendInLoop caller data r =>
    simp only [Method.effect]
    split <;> simp
  | shutdownInLoop => exact .inl rfl
  | handleRead k =>
    have hk : k ≠ .data [] := by simpa [Method.closes] using hm
    exact .inl (by simp [Method.effect, hk, Effect.none])
  | handleWrite r =>
    simp only [Method.effect]
    split
    · dsimp only
      split <;> simp
    · exact .inl rfl
  | connectDestoryed => cases hm
  | handleClose => cases hm

/-- Between the two a method leaves reading alone, and `state_` unless it is `sendInLoop`. -/
theorem run_silent (hm : m.closes = false) (he : m.isEstablish = false)
    (hsend : m.isSendInLoop = true → c.state_ = .kDisconnected) :
    (m.run c).state_ = c.state_ ∧ (m.run c).channel_.isReading = c.channel_.isReading := by
  have hdoes := m.run_does c
  refine ⟨?_, ?_⟩
  · rw [hdoes.state]
    cases m with
    | connectEstablished => cases he
    | sendInLoop caller data r => exact (hsend rfl).symm
    | handleRead k => simp only [Method.effect]; split <;> simp_all [Method.closes, Effect.none]
    | handleWrite r => simp only [Method.effect]; split <;> rfl
    | shutdownInLoop => rfl
    | connectDestoryed => cases hm
    | handleClose => cases hm
  · rw [hdoes.channel]
    obtain hops | hops | hops := effect_ops c he hm
    all_goals rw [hops]
    · rfl
    · simp [onChannels, onChannel]
    · simp [onChannels, onChannel]

/-- A call that leaves the channel asking for reading leaves it registered. -/
theorem index_of_isReading (hc : c.Agrees) {op : ChannelOp} {mask : Mask}
    (hmask : op.mask? c.channel_.events_ = some mask)
    (hread : (c.onChannel op).channel_.isReading = true) :
    (c.onChannel op).channel_.index_ = .kAdded := by
  have hne := ChannelOp.ne_none_of_isReading hread
  rw [onChannel, ChannelOp.events_call, hmask, Option.getD_some] at hne
  rw [onChannel, ChannelOp.index_call hc hmask, if_neg (fun h => hne h.2)]

/-- **Until it closes, a connection goes on asking for reading, and stays registered.** -/
theorem registered_run (hc : c.Agrees) (he : m.isEstablish = false) (hm : m.closes = false)
    (hread : c.channel_.isReading = true) (hadded : c.channel_.index_ = .kAdded) :
    (m.run c).channel_.isReading = true ∧ (m.run c).channel_.index_ = .kAdded := by
  rw [(m.run_does c).channel]
  obtain hops | hops | hops := effect_ops c he hm
  all_goals rw [hops]
  · exact ⟨hread, hadded⟩
  · have hstill : (c.onChannel .enableWriting).channel_.isReading = true := by
      simpa [onChannel] using hread
    exact ⟨hstill, index_of_isReading hc rfl hstill⟩
  · have hstill : (c.onChannel .disableWriting).channel_.isReading = true := by
      simpa [onChannel] using hread
    exact ⟨hstill, index_of_isReading hc rfl hstill⟩

/-- `connectEstablished` makes it so. -/
theorem registered_connectEstablished (hc : c.Agrees) :
    c.connectEstablished.channel_.isReading = true ∧
      c.connectEstablished.channel_.index_ = .kAdded := by
  have hstill : ((c.setState .kConnected).onChannel .enableReading).channel_.isReading = true := by
    simp [onChannel]
  exact ⟨hstill, index_of_isReading hc rfl hstill⟩

/-- Only `sendInLoop` has a channel ask for writing. -/
theorem isWriting_run_of_not_writing (hsend : m.isSendInLoop = false)
    (hw : c.channel_.isWriting = false) : (m.run c).channel_.isWriting = false := by
  rw [(m.run_does c).channel]
  cases m with
  | sendInLoop caller data r => cases hsend
  | connectEstablished => simp [Method.effect, onChannels, onChannel, hw]
  | connectDestoryed =>
    by_cases hs : c.state_ = .kConnected <;>
      simp [Method.effect, Effect.none, onChannels, onChannel, hs, hw]
  | shutdownInLoop => exact hw
  | handleRead k =>
    by_cases hk : k = .data [] <;>
      simp [Method.effect, Effect.none, onChannels, onChannel, hk, hw]
  | handleWrite r => simp [Method.effect, Effect.none, onChannels, hw]
  | handleClose => simp [Method.effect, onChannels, onChannel]

/-- Methods leave the reported events alone. -/
theorem revents_run (m : Method τ) (c : TcpConnection κ τ) :
    (m.run c).channel_.revents_ = c.channel_.revents_ := by
  rw [(m.run_does c).channel]
  induction (m.effect c).ops generalizing c with
  | nil => rfl
  | cons op ops ih => exact (ih (c.onChannel op)).trans (ChannelOp.revents_call ..)

theorem Constructed.agrees (h : c.Constructed) : c.Agrees := by
  constructor
  · rw [h.interest, h.channel]
    rfl
  · refine iff_of_false h.channels fun hne => hne ?_
    rw [h.channel]
    rfl

theorem Constructed.armed (h : c.Constructed) : c.Armed := by
  rw [Armed, h.channel, h.output, SafeBuffer.content_new]
  simp [Channel.new, Channel.isWriting, Channel.kNoneEvent]

end TcpConnection

namespace Session

variable {threadId_ : τ} {s s' : Session κ τ} {a : Action κ τ} {m : Method τ}

/-- A session about to begin. -/
def Initial (s : Session κ τ) : Prop := ∃ c, Constructed c ∧ s = new c

/-! ## Bookkeeping -/

/-- What an action leaves alone apart from its method. -/
structure Frame (s s' : Session κ τ) : Prop where
  addr : s'.conn.addr = s.conn.addr
  fd : s'.conn.channel_.fd_ = s.conn.channel_.fd_
  events : s'.conn.channel_.events_ = s.conn.channel_.events_
  index : s'.conn.channel_.index_ = s.conn.channel_.index_
  output : s'.conn.outputBuffer_ = s.conn.outputBuffer_
  calls : s'.conn.socketCalls = s.conn.socketCalls
  interest : s'.conn.poller_.interest s.conn.channel_.fd_ =
    s.conn.poller_.interest s.conn.channel_.fd_
  channels : s'.conn.poller_.channels_ s.conn.channel_.fd_ =
    s.conn.poller_.channels_ s.conn.channel_.fd_
  established : s'.established = s.established
  closed : s'.closed = s.closed
  ran : s'.ran = s.ran

namespace Frame

variable (h : Frame s s')
include h

theorem isReading : s'.conn.channel_.isReading = s.conn.channel_.isReading := by
  rw [Channel.isReading, h.events, Channel.isReading]

theorem isWriting : s'.conn.channel_.isWriting = s.conn.channel_.isWriting := by
  rw [Channel.isWriting, h.events, Channel.isWriting]

theorem armed (hs : s.conn.Armed) : s'.conn.Armed := by
  rwa [Armed, h.isWriting, h.output]

theorem agrees (hs : s.conn.Agrees) : s'.conn.Agrees := by
  obtain ⟨hint, hchan⟩ := hs
  constructor
  · rw [h.fd, h.interest, h.index, h.events, h.addr]
    exact hint
  · rw [h.fd, h.channels, h.index, h.addr]
    exact hchan

end Frame

variable [DecidableEq τ]

theorem book_frame (h : s.Ready threadId_ a) : Frame s (s.book threadId_ a) := by
  cases a with
  | others p => exact ⟨rfl, rfl, rfl, rfl, rfl, rfl, h.1, h.2, rfl, rfl, rfl⟩
  | _ =>
    constructor
    all_goals
      first
      | rfl
      | (simp only [book]; split <;> first | rfl | (dsimp only; split <;> rfl))

/-- The one store to `state_` that no method makes. -/
theorem book_state (s : Session κ τ) (a : Action κ τ) :
    (s.book threadId_ a).conn.state_ = match a with
      | .shutdownStore _ => .kDisconnecting
      | _ => s.conn.state_ := by
  cases a with
  | _ =>
    first
    | rfl
    | (simp only [book]; split <;> first | rfl | (dsimp only; split <;> rfl))

/-- So `kDisconnecting` stays. -/
theorem book_disconnecting (hs : s.conn.state_ = .kDisconnecting) :
    (s.book threadId_ a).conn.state_ = .kDisconnecting := by
  rw [book_state]
  split
  · rfl
  · exact hs

/-- **The methods an action can run**, and what it finds when it does. -/
inductive Runs (threadId_ : τ) (s : Session κ τ) : Action κ τ → Method τ → Prop
  | connectEstablished : Runs threadId_ s .connectEstablished .connectEstablished
  | sendRun {data : List Byte} (k : Answer) (hcall : s.call threadId_ = .sending data) :
      Runs threadId_ s (.sendRun threadId_ k) (.sendInLoop threadId_ data k.write)
  | shutdownRun : Runs threadId_ s (.shutdownRun threadId_) .shutdownInLoop
  | functor {k : Answer} {f : PendingFunctor τ} {m : Method τ}
      (hfirst : s.conn.pendingFunctors_.head? = some f) (hm : f.method k = some m) :
      Runs threadId_ s (.functor k) m
  | task {k : Answer} {t : Task} {m : Method τ} (hfirst : s.todo.head? = some t)
      (hm : t.method k = some m) : Runs threadId_ s (.task k) m
  | destroy : Runs threadId_ s (.destroy threadId_) .connectDestoryed

theorem runs_of_method (hm : s.method threadId_ a = some m) : s.Runs threadId_ a m := by
  cases a with
  | connectEstablished =>
    cases hm
    exact .connectEstablished
  | sendRun t k =>
    cases hcall : s.call t with
    | sending data =>
      simp only [method, hcall] at hm
      split at hm <;> cases hm
      subst t
      exact .sendRun k hcall
    | _ => simp [method, hcall] at hm
  | shutdownRun t =>
    simp only [method] at hm
    split at hm <;> cases hm
    subst t
    exact .shutdownRun
  | functor k =>
    obtain ⟨f, hfirst, hf⟩ := Option.bind_eq_some_iff.mp hm
    exact .functor hfirst hf
  | task k =>
    obtain ⟨t, hfirst, ht⟩ := Option.bind_eq_some_iff.mp hm
    exact .task hfirst ht
  | destroy t =>
    simp only [method] at hm
    split at hm <;> cases hm
    subst t
    exact .destroy
  | _ => cases hm

/-- The functors an action queues by itself. -/
def queues (threadId_ : τ) (s : Session κ τ) : Action κ τ → List (PendingFunctor τ)
  | .sendRun t _ =>
      match s.call t with
      | .sending data => if t = threadId_ then [] else [.sendInLoop t data]
      | .idle | .shutTested | .shutStored => []
  | .shutdownRun t => if t = threadId_ then [] else [.shutdownInLoop]
  | .removeConnection => [.connectDestoryed]
  | .destroy t => if t = threadId_ then [] else [.connectDestoryed]
  | _ => []

/-- How many functors it takes. -/
def Action.takes : Action κ τ → ℕ
  | .functor _ => 1
  | _ => 0

/-- **What an action does to the queue.** -/
theorem book_functors (s : Session κ τ) (a : Action κ τ) :
    (s.book threadId_ a).conn.pendingFunctors_ =
      s.conn.pendingFunctors_.drop a.takes ++ s.queues threadId_ a := by
  cases a with
  | sendRun t k =>
    cases hc : s.call t with
    | sending data =>
      simp only [book, queues, hc]
      by_cases ht : t = threadId_ <;> simp [Action.takes, ht, queueInLoop]
    | _ => simp [book, queues, Action.takes, hc]
  | send t data =>
    by_cases hs : s.conn.state_ = .kConnected <;> simp [book, queues, Action.takes, hs]
  | shutdown t =>
    by_cases hs : s.conn.state_ = .kDisconnected <;> simp [book, queues, Action.takes, hs]
  | shutdownRun t =>
    by_cases ht : t = threadId_ <;> simp [book, queues, Action.takes, ht, queueInLoop]
  | destroy t =>
    by_cases ht : t = threadId_ <;> simp [book, queues, Action.takes, ht, queueInLoop]
  | functor k => simp [book, queues, Action.takes]
  | removeConnection => rfl
  | _ => exact (List.append_nil _).symm

variable (threadId_) in
/-- **What an action does to a caller**: it leaves it where it is, or brings it back from its call,
or takes it one step further. -/
theorem book_call (s : Session κ τ) (a : Action κ τ) (t : τ) :
    (s.book threadId_ a).call t = s.call t ∨ (s.book threadId_ a).call t = .idle ∨
    (∃ data, a = .send t data ∧ s.conn.state_ = .kConnected ∧
      (s.book threadId_ a).call t = .sending data) ∨
    (a = .shutdown t ∧ s.conn.state_ = .kDisconnected ∧
      (s.book threadId_ a).call t = .shutTested) ∨
    (a = .shutdownStore t ∧ (s.book threadId_ a).call t = .shutStored) := by
  have hmove : ∀ (u : τ) (x : Call), Function.update s.call u x t = s.call t ∨
      t = u ∧ Function.update s.call u x t = x := by
    intro u x
    by_cases htu : t = u
    · exact .inr ⟨htu, htu ▸ Function.update_self ..⟩
    · exact .inl (Function.update_of_ne htu _ _)
  cases a with
  | send u data =>
    by_cases hs : s.conn.state_ = .kConnected
    · simp only [book, hs, if_true]
      obtain h | ⟨rfl, h⟩ := hmove u (.sending data)
      · exact .inl h
      · exact .inr (.inr (.inl ⟨data, rfl, trivial, h⟩))
    · simp [book, hs]
  | sendRun u k =>
    cases hc : s.call u with
    | sending data =>
      simp only [book, hc]
      exact (hmove u .idle).imp_right fun h => .inl h.2
    | _ => simp [book, hc]
  | shutdown u =>
    by_cases hs : s.conn.state_ = .kDisconnected
    · simp only [book, hs, if_true]
      obtain h | ⟨rfl, h⟩ := hmove u .shutTested
      · exact .inl h
      · exact .inr (.inr (.inr (.inl ⟨rfl, trivial, h⟩)))
    · simp [book, hs]
  | shutdownStore u =>
    obtain h | ⟨rfl, h⟩ := hmove u .shutStored
    · exact .inl h
    · exact .inr (.inr (.inr (.inr ⟨rfl, h⟩)))
  | shutdownRun u => exact (hmove u .idle).imp_right fun h => .inl h.2
  | _ => exact .inl rfl

variable (threadId_) in
/-- What an action does, apart from its method, to the event under way. -/
theorem book_event (s : Session κ τ) (a : Action κ τ) :
    let s' := s.book threadId_ a
    (s'.todo, s'.active, s'.conn.channel_.revents_) = match a with
      | .functor _ =>
          (if s.conn.pendingFunctors_.head?.any PendingFunctor.isCallback then [.user] else [],
            s.active, s.conn.channel_.revents_)
      | .poll revents => (s.todo, true, revents)
      | .dispatch => (Channel.handleEventWithGuard s.conn.channel_.revents_, false,
          s.conn.channel_.revents_)
      | .task _ | .ret => (s.todo.tail, s.active, s.conn.channel_.revents_)
      | _ => (s.todo, s.active, s.conn.channel_.revents_) := by
  cases a with
  | _ =>
    first
    | rfl
    | (simp only [book]; split <;> first | rfl | (dsimp only; split <;> rfl))

/-- A `shutdown` under way has passed its test here, or was under way before. -/
theorem book_shutting {t : τ} (ht : ((s.book threadId_ a).call t).isShutting) :
    Down (s.book threadId_ a).conn.state_ ∨ (s.call t).isShutting := by
  obtain h | h | ⟨data, -, -, h⟩ | ⟨rfl, hs, -⟩ | ⟨rfl, -⟩ := book_call threadId_ s a t
  · exact .inr (h ▸ ht)
  · rw [h] at ht
    cases ht
  · rw [h] at ht
    cases ht
  · rw [book_state]
    exact .inl (.inl hs)
  · exact .inl (.inr rfl)

/-! ## The life of a connection -/

/-- **An established connection.** -/
structure Live (s : Session κ τ) : Prop where
  established : s.established = true
  agrees : s.conn.Agrees
  started : s.conn.state_ ≠ .kconnecting
  isReading : s.closed = false → s.conn.channel_.isReading = true
  registered : s.closed = false → s.conn.channel_.index_ = .kAdded
  armed : s.closed = false → s.conn.Armed
  down : s.closed = true → Down s.conn.state_
  shutting : ∀ t, (s.call t).isShutting → Down s.conn.state_

omit [DecidableEq τ] in
/-- A `shutdown` stores only where the connection is down. -/
theorem Live.down_of_shutdownStore {t : τ} (h : s.Live)
    (ha : s.Ready threadId_ (.shutdownStore t)) : Down s.conn.state_ := by
  have htested : s.call t = .shutTested := ha
  exact h.shutting t (by rw [htested]; rfl)

/-- Bookkeeping keeps a connection alive. -/
theorem Live.book (h : s.Live) (ha : s.Ready threadId_ a) : (s.book threadId_ a).Live := by
  have hframe := book_frame ha
  have hstate : (s.book threadId_ a).conn.state_ = _ := book_state s a
  have hdown : Down s.conn.state_ → Down (s.book threadId_ a).conn.state_ := by
    rw [hstate]
    split
    · exact fun _ => .inr rfl
    · exact id
  refine ⟨hframe.established.trans h.established, hframe.agrees h.agrees, ?_, ?_, ?_, ?_, ?_, ?_⟩
  · rw [hstate]
    split
    · nofun
    · exact h.started
  · rw [hframe.closed, hframe.isReading]
    exact h.isReading
  · rw [hframe.closed, hframe.index]
    exact h.registered
  · rw [hframe.closed]
    exact fun hopen => hframe.armed (h.armed hopen)
  · rw [hframe.closed]
    exact fun hclosed => hdown (h.down hclosed)
  · exact fun t ht => (book_shutting ht).elim id fun hs => hdown (h.shutting t hs)

omit [DecidableEq τ] in
/-- So does every method but `connectEstablished`. -/
theorem Live.perform (h : s.Live) (hm : m.isEstablish = false) : (s.perform m).Live := by
  have hstate := effect_state s.conn hm
  have hopen : (s.perform m).closed = false → s.closed = false ∧ m.closes = false := by
    simp [Session.perform]
  have hdown : Down s.conn.state_ → Down (m.run s.conn).state_ := by
    intro hs
    obtain hdisc | hsame := hstate
    · exact .inl hdisc
    · rwa [hsame]
  refine ⟨by simp [Session.perform, h.established], (m.run_does s.conn).agrees h.agrees, ?_,
    fun hc => ?_, fun hc => ?_, fun hc => ?_, fun hc => ?_, fun t ht => hdown (h.shutting t ht)⟩
  · obtain hdisc | hsame := hstate
    · simp [Session.perform, hdisc]
    · simpa [Session.perform, hsame] using h.started
  · obtain ⟨hc, hclose⟩ := hopen hc
    exact (registered_run h.agrees hm hclose (h.isReading hc) (h.registered hc)).1
  · obtain ⟨hc, hclose⟩ := hopen hc
    exact (registered_run h.agrees hm hclose (h.isReading hc) (h.registered hc)).2
  · obtain ⟨hc, hclose⟩ := hopen hc
    exact armed_run m hclose (h.armed hc)
  · obtain hc | hm := Bool.or_eq_true_iff.mp hc
    · exact hdown (h.down hc)
    · exact down_of_closes hm h.started

omit [DecidableEq τ] in
/-- And it begins with `connectEstablished`. -/
theorem live_connectEstablished {c : TcpConnection κ τ} (hc : c.Constructed) :
    ((new c).perform .connectEstablished).Live := by
  have hagrees : c.Agrees := hc.agrees
  have hopen := registered_connectEstablished hagrees
  refine ⟨rfl, (Method.run_does .connectEstablished c).agrees hagrees, nofun, fun _ => hopen.1,
    fun _ => hopen.2, fun _ => armed_run .connectEstablished rfl hc.armed, nofun, nofun⟩

theorem next_of_none (hm : s.method threadId_ a = none) :
    (steps threadId_).next s a = s.book threadId_ a := by
  simp [steps, hm]

theorem next_of_some (hm : s.method threadId_ a = some m) :
    (steps threadId_).next s a = (s.book threadId_ a).perform m := by
  simp [steps, hm]

variable (threadId_) in
/-- And with it. -/
theorem next_event (s : Session κ τ) (a : Action κ τ) :
    ((steps threadId_).next s a).todo =
        (s.method threadId_ a).elim [] Method.callbacks ++ (s.book threadId_ a).todo ∧
      ((steps threadId_).next s a).active = (s.book threadId_ a).active ∧
      ((steps threadId_).next s a).conn.channel_.revents_ =
        (s.book threadId_ a).conn.channel_.revents_ := by
  cases hm : s.method threadId_ a with
  | none => rw [next_of_none hm]; exact ⟨rfl, rfl, rfl⟩
  | some m => rw [next_of_some hm]; exact ⟨rfl, rfl, revents_run m _⟩

/-- A connection is closed by a closing method, and by nothing else. -/
theorem next_closed (ha : s.Ready threadId_ a) : ((steps threadId_).next s a).closed =
    (s.closed || (s.method threadId_ a).any Method.closes) := by
  have hclosed := (book_frame ha).closed
  cases hm : s.method threadId_ a with
  | none => rw [next_of_none hm, hclosed]; simp
  | some m => rw [next_of_some hm, perform, hclosed]; simp

/-- An established connection takes every action but `connectEstablished`. -/
theorem Live.method_isEstablish (h : s.Live) (ha : (steps threadId_).enabled s a)
    (hm : s.method threadId_ a = some m) : m.isEstablish = false := by
  cases runs_of_method hm with
  | connectEstablished =>
    have hnew : s.established = false := ha.1.1
    rw [h.established] at hnew
    cases hnew
  | sendRun k hcall => rfl
  | shutdownRun => rfl
  | @functor k f m hfirst hf => cases f <;> cases hf <;> rfl
  | @task k t m hfirst ht => cases t <;> cases ht <;> rfl
  | destroy => rfl

/-- **Every action keeps an established connection alive.** -/
theorem Live.next (h : s.Live) (ha : (steps threadId_).enabled s a) :
    ((steps threadId_).next s a).Live := by
  have hbook := h.book ha.1
  cases hm : s.method threadId_ a with
  | none => rwa [next_of_none hm]
  | some m =>
    rw [next_of_some hm]
    exact hbook.perform (h.method_isEstablish ha hm)

/-- What is down stays down. -/
theorem Live.down_next (h : s.Live) (ha : (steps threadId_).enabled s a)
    (hdown : Down s.conn.state_) : Down ((steps threadId_).next s a).conn.state_ := by
  have hbook : Down (s.book threadId_ a).conn.state_ := by
    rw [book_state]
    split
    · exact .inr rfl
    · exact hdown
  cases hm : s.method threadId_ a with
  | none => rwa [next_of_none hm]
  | some m =>
    rw [next_of_some hm]
    obtain hdisc | hsame := effect_state (s.book threadId_ a).conn (h.method_isEstablish ha hm)
    · exact .inl hdisc
    · exact hsame.symm ▸ hbook

omit [DecidableEq τ] in
/-- Before it is established only `connectEstablished` can happen to it. -/
theorem Initial.action (h : s.Initial) (ha : s.Ready threadId_ a) :
    a = .connectEstablished ∨ ∃ p, a = .others p := by
  obtain ⟨c, hc, rfl⟩ := h
  cases a with
  | connectEstablished => exact .inl rfl
  | others p => exact .inr ⟨p, rfl⟩
  | poll revents => simp [Ready, Reports, new, hc.interest] at ha
  | _ => simp [Ready, new, Call.isSending, userCode, hc.functors] at ha

theorem Initial.next (h : s.Initial) (ha : (steps threadId_).enabled s a) :
    ((steps threadId_).next s a).Initial ∨
      ∃ c, c.Constructed ∧ (steps threadId_).next s a = (new c).perform .connectEstablished := by
  obtain rfl | ⟨p, rfl⟩ := h.action ha.1
  · obtain ⟨c, hc, rfl⟩ := h
    exact .inr ⟨c, hc, rfl⟩
  · obtain ⟨c, hc, rfl⟩ := h
    have hready := ha.1
    refine .inl ⟨{ c with poller_ := p }, ?_, rfl⟩
    exact { hc with
      interest := hready.1.trans hc.interest
      channels := hready.2.trans_ne hc.channels }

omit [DecidableEq τ] in
theorem Initial.calls (h : s.Initial) : s.conn.socketCalls = [] := by
  obtain ⟨c, hc, rfl⟩ := h
  exact hc.calls

/-- The first action makes no call on the socket. -/
theorem Initial.next_calls (h : s.Initial) (ha : (steps threadId_).enabled s a) :
    ((steps threadId_).next s a).conn.socketCalls = [] := by
  obtain hi | ⟨c, hc, hs⟩ := h.next ha
  · exact hi.calls
  · rw [hs]
    exact hc.calls

/-- An established connection stays one. -/
theorem next_established (ha : s.Ready threadId_ a) (h : s.established = true) :
    ((steps threadId_).next s a).established = true := by
  have hframe := (book_frame ha).established
  cases hm : s.method threadId_ a with
  | none => rw [next_of_none hm, hframe, h]
  | some m => rw [next_of_some hm, perform, hframe, h, Bool.true_or]

/-- A session is new, or its connection is established. -/
def Phased (s : Session κ τ) : Prop := s.Initial ∨ s.Live

theorem Phased.next (h : s.Phased) (ha : (steps threadId_).enabled s a) :
    ((steps threadId_).next s a).Phased := by
  obtain hi | hl := h
  · obtain hi | ⟨c, hc, hs⟩ := hi.next ha
    · exact .inl hi
    · exact .inr (hs ▸ live_connectEstablished hc)
  · exact .inr (hl.next ha)

end Session

end Mymuduo
