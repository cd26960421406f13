import Mymuduo.Poller.Knows
import Mymuduo.TcpConnection.Phases
import Mymuduo.TcpServer.Model

/-!
# TcpServer/Steps — what the parts of an action change

An action is a change of its own (`book`) and then at most one method, functor or push.  What each
of these does is said here once: to a loop, to a connection, to who has been told what.
-/

namespace Mymuduo

open Machinery TcpConnection

namespace TcpConnection

variable {κ τ : Type*} {c : TcpConnection κ τ} {ops : List ChannelOp} {fd : ℤ}

/-- Calls on a connection's channel put nothing under another's address, in either record. -/
theorem onChannels_interest {ev : EpollEvent κ}
    (h : (c.onChannels ops).poller_.interest fd = some ev) :
    ev.ptr = c.addr ∨ c.poller_.interest fd = some ev := by
  induction ops generalizing c with
  | nil => exact .inr h
  | cons op ops ih =>
    obtain hself | hold := ih h
    · exact .inl hself
    · exact ChannelOp.call_interest hold

theorem onChannels_channels {other : κ}
    (h : (c.onChannels ops).poller_.channels_ fd = some other) :
    other = c.addr ∨ c.poller_.channels_ fd = some other := by
  induction ops generalizing c with
  | nil => exact .inr h
  | cons op ops ih =>
    obtain hself | hold := ih h
    · exact .inl hself
    · exact ChannelOp.call_channels hold

theorem onChannels_knows (h : c.poller_.Knows c.addr c.channel_) :
    (c.onChannels ops).poller_.Knows c.addr (c.onChannels ops).channel_ := by
  induction ops generalizing c with
  | nil => exact h
  | cons op ops ih => exact ih (ChannelOp.call_knows h)

theorem onChannels_knows_other {other : κ} {ch : Channel} (h : c.poller_.Knows other ch)
    (hne : other ≠ c.addr) : (c.onChannels ops).poller_.Knows other ch := by
  induction ops generalizing c with
  | nil => exact h
  | cons op ops ih => exact ih (ChannelOp.call_knows_other h hne) hne

namespace Method

variable {m : Method τ}

/-- `connectDestoryed`. -/
def isDestroy : Method τ → Bool
  | connectDestoryed => true
  | connectEstablished | sendInLoop _ _ _ | shutdownInLoop | handleRead _ | handleWrite _
  | handleClose => false

theorem isDestroy_iff : m.isDestroy = true ↔ m = connectDestoryed := by
  cases m <;> simp [isDestroy]

/-- `connectDestoryed` leaves its channel new to the poller. -/
theorem index_connectDestoryed :
    ((connectDestoryed : Method τ).run c).channel_.index_ = .kNew := by
  rw [(run_does _ c).channel, effect]
  split <;> exact ChannelOp.index_call_eq_kNew.mpr rfl

theorem pending_connectDestoryed :
    ((connectDestoryed : Method τ).run c).pendingFunctors_ = c.pendingFunctors_ := by
  change (TcpConnection.connectDestoryed c).pendingFunctors_ = _
  unfold TcpConnection.connectDestoryed
  split <;> rfl

/-- The methods that close a connection are `connectDestoryed`, and those that say so. -/
theorem eq_connectDestoryed (hm : m.closes = true) (hn : m.notifies = false) :
    m = connectDestoryed := by
  cases m <;> simp_all [closes, notifies]

theorem closes_of_notifies (hn : m.notifies = true) (he : m.isEstablish = false) :
    m.closes = true := by
  cases m <;> simp_all [closes, notifies, isEstablish]

/-- The calls of the others make no channel new. -/
theorem remove_notMem_ops (hm : m ≠ connectDestoryed) : .remove ∉ (m.effect c).ops := by
  by_cases he : m.isEstablish = true
  · cases m <;> simp_all [effect, isEstablish]
  by_cases hc : m.closes = true
  · cases m with
    | handleRead k => simp_all [effect, closes]
    | _ => simp_all [effect, closes]
  · obtain hops | hops | hops := effect_ops c (by simpa using he) (by simpa using hc) <;>
      simp [hops]

/-- So a channel they make a call on is known to the poller, as one that was known before. -/
theorem index_ne_kNew (hm : m ≠ connectDestoryed)
    (hops : (m.effect c).ops ≠ [] ∨ c.channel_.index_ ≠ .kNew) :
    (m.run c).channel_.index_ ≠ .kNew := by
  have hall := remove_notMem_ops (c := c) hm
  rw [(run_does m c).channel]
  revert hops hall
  generalize (m.effect c).ops = ops
  intro hops hall
  induction ops generalizing c with
  | nil => simpa using hops
  | cons op ops ih =>
    refine ih (.inr fun h => hall ?_) fun hmem => hall (List.mem_cons_of_mem op hmem)
    rw [ChannelOp.index_call_eq_kNew.mp h]
    exact List.mem_cons_self

/-! ### Reading -/

theorem isReading_establish (he : m.isEstablish = true) : (m.run c).channel_.isReading = true := by
  rw [(run_does m c).channel]
  cases m <;> simp_all [isEstablish, effect, onChannels, onChannel]

/-- A closing method leaves the channel not reading: `connectDestoryed` if it finds it so. -/
theorem isReading_closes (hm : m.closes = true)
    (hread : m.notifies = false → c.channel_.isReading = false) :
    (m.run c).channel_.isReading = false := by
  rw [(run_does m c).channel]
  cases m with
  | connectDestoryed =>
    simp only [effect]
    split <;> simp [onChannels, onChannel, hread rfl]
  | handleRead k =>
    have hk : k = .data [] := by simpa [closes] using hm
    simp [effect, hk, onChannels, onChannel]
  | handleClose => simp [effect, onChannels, onChannel]
  | connectEstablished => cases hm
  | sendInLoop caller data r => cases hm
  | shutdownInLoop => cases hm
  | handleWrite r => cases hm

/-- The others leave reading alone. -/
theorem isReading_silent (hm : m.closes = false) (he : m.isEstablish = false) :
    (m.run c).channel_.isReading = c.channel_.isReading := by
  rw [(run_does m c).channel]
  obtain hops | hops | hops := effect_ops c he hm <;> rw [hops] <;> simp [onChannels, onChannel]

/-- `connected()` in the callbacks a method makes: it holds in the first and never again. -/
theorem connected_of_notifies (hm : m.notifies = true) :
    ((m.run c).state_ == .kConnected) = m.isEstablish := by
  rw [(run_does m c).state]
  cases m with
  | connectEstablished => rfl
  | handleClose => rfl
  | handleRead k =>
    have hk : k = .data [] := by simpa [notifies] using hm
    simp [effect, hk, isEstablish]
  | connectDestoryed => cases hm
  | sendInLoop caller data r => cases hm
  | shutdownInLoop => cases hm
  | handleWrite r => cases hm

end Method

end TcpConnection

/-- A loop that tests `quit_` changes its stage. -/
theorem ServerLoop.testQuit_eq {υ : Type*} (L : ServerLoop υ) (l : LoopId) : ∃ stage, L.testQuit l =
    { L with stage } ∧ stage.gone = false ∧ stage ≠ .running := by
  unfold testQuit
  split
  · rcases l with _ | i
    · exact ⟨.outside, rfl, rfl, nofun⟩
    · exact ⟨.returned, rfl, rfl, nofun⟩
  · exact ⟨.polling, rfl, rfl, nofun⟩

/-- The three steps of its thread when it has returned. -/
theorem ServerLoop.endNext_cases {υ : Type*} {L : ServerLoop υ} (h : L.stage.ending = true) :
    (L.stage = .returned ∧ L.endNext = { L with stage := .cleared }) ∨
    (L.stage = .cleared ∧ L.endNext = { L with stage := .leaving, pendingFunctors_ := [] }) ∨
    (L.stage = .leaving ∧ L.endNext = { L with stage := .destroyed, poller_ := .new }) := by
  unfold endNext
  cases hstage : L.stage <;> simp_all [Stage.ending]

@[simp] theorem ServerLoop.endNext_todo {υ : Type*} (L : ServerLoop υ) :
    L.endNext.todo = L.todo := by
  unfold endNext
  split <;> rfl

namespace TcpServer

variable {υ : Type*} {s : TcpServer υ} {l l' : LoopId} {c c' : ℕ} {m : Method (Thread υ)}
  {f : ServerFunctor υ} {k : Answer}

/-- `connectionCallback_` was called on `c` with `connected()` true. -/
def Up (s : TcpServer υ) (c : ℕ) : Prop := true ∈ (s.conn c).notified

/-- And with `connected()` false. -/
def Down (s : TcpServer υ) (c : ℕ) : Prop := false ∈ (s.conn c).notified

instance (c : ℕ) : Decidable (s.Up c) := inferInstanceAs (Decidable (_ ∈ _))

instance (c : ℕ) : Decidable (s.Down c) := inferInstanceAs (Decidable (_ ∈ _))

/-! ## A loop alone -/

section onLoop

variable {g : ServerLoop υ → ServerLoop υ}

@[simp] theorem onLoop_self : (s.onLoop l g).loop l = g (s.loop l) := Function.update_self ..

theorem onLoop_ne (h : l' ≠ l) : (s.onLoop l g).loop l' = s.loop l' := Function.update_of_ne h ..

/-- What holds of every loop, and of the one that changes after its change. -/
theorem onLoop_forall {P : LoopId → ServerLoop υ → Prop} (hall : ∀ l', P l' (s.loop l'))
    (hself : P l (s.loop l) → P l (g (s.loop l))) (l' : LoopId) :
    P l' ((s.onLoop l g).loop l') := by
  by_cases hl : l' = l
  · subst hl
    rw [onLoop_self]
    exact hself (hall l')
  · rw [onLoop_ne hl]
    exact hall l'

end onLoop

/-! ## A push -/

@[simp] theorem queueInLoop_stage :
    ((s.queueInLoop l f).loop l').stage = (s.loop l').stage := by
  by_cases hl : l' = l
  · subst hl
    simp only [queueInLoop, onLoop_self]
    split <;> rfl
  · rw [queueInLoop, onLoop_ne hl]

/-- A push adds to one queue, unless its loop is gone. -/
theorem queueInLoop_loop (l' : LoopId) : (s.queueInLoop l f).loop l' =
    { s.loop l' with
      pendingFunctors_ := (s.loop l').pendingFunctors_ ++
        if l' = l ∧ (s.loop l).stage.gone = false then [f] else [] } := by
  by_cases hl : l' = l
  · subst hl
    cases hgone : (s.loop l').stage.gone <;> simp [queueInLoop, hgone]
  · rw [queueInLoop, onLoop_ne hl]
    simp [hl]

/-! ## A method -/

@[simp] theorem perform_home : ((s.perform l c m).conn c').home = (s.conn c').home := by
  by_cases hc : c' = c
  · subst hc
    simp [perform]
  · simp [perform, hc]

@[simp] theorem perform_name : ((s.perform l c m).conn c').name = (s.conn c').name := by
  by_cases hc : c' = c
  · subst hc
    simp [perform]
  · simp [perform, hc]

theorem perform_conn_ne (hc : c' ≠ c) : (s.perform l c m).conn c' = s.conn c' :=
  Function.update_of_ne hc ..

@[simp] theorem perform_tcp : ((s.perform l c m).conn c).tcp = m.run (s.view c) := by
  simp [perform]

theorem perform_addr (h : (s.conn c').tcp.addr = c') :
    ((s.perform l c m).conn c').tcp.addr = c' := by
  by_cases hc : c' = c
  · subst hc
    rw [perform_tcp, (m.run_does _).addr]
    exact h
  · rwa [perform_conn_ne hc]

/-- The functors a method leaves in its loop's queue. -/
def queued (s : TcpServer υ) (c : ℕ) (m : Method (Thread υ)) : List (ServerFunctor υ) :=
  (m.run (s.view c)).pendingFunctors_.map (.of c)

theorem perform_loop (l' : LoopId) : (s.perform l c m).loop l' =
    { s.loop l' with
      poller_ := if l' = (s.conn c).home then (m.run (s.view c)).poller_ else (s.loop l').poller_
      pendingFunctors_ := (s.loop l').pendingFunctors_ ++
        if l' = (s.conn c).home then s.queued c m else []
      todo := (if l' = l then m.callbacks.map (c, ·) else []) ++ (s.loop l').todo } := rfl

/-- They are callbacks of the user, with a copy of the pointer, -/
theorem mem_queued (h : f ∈ s.queued c m) : ∃ cb, f = .of c cb ∧ cb.isCallback = true := by
  obtain ⟨cb, hcb, rfl⟩ := List.mem_map.mp h
  obtain ⟨cbs, hcbs, hrun⟩ := (m.run_does (s.view c)).functors
  rw [hrun] at hcb
  exact ⟨cb, rfl, hcbs cb (by simpa [view] using hcb)⟩

/-- and `connectDestoryed` leaves none. -/
theorem queued_connectDestoryed : s.queued c .connectDestoryed = [] := by
  simp only [queued, Method.pending_connectDestoryed]
  rfl

/-- **Who is told what**: only `connectEstablished` says that a connection is up, -/
theorem up_perform : (s.perform l c m).Up c' ↔ s.Up c' ∨ c' = c ∧ m.isEstablish = true := by
  by_cases hc : c' = c
  · subst hc
    by_cases hm : m.notifies = true
    · simp [Up, perform, hm, Method.connected_of_notifies hm]
    · have hest : m.isEstablish = false := by
        cases m <;> simp_all [Method.notifies, Method.isEstablish]
      simp [Up, perform, hm, hest]
  · simp [Up, perform_conn_ne hc, hc]

/-- and the other methods that call `connectionCallback_` say that it is down. -/
theorem down_perform : (s.perform l c m).Down c' ↔
    s.Down c' ∨ c' = c ∧ m.notifies = true ∧ m.isEstablish = false := by
  by_cases hc : c' = c
  · subst hc
    by_cases hm : m.notifies = true
    · simp [Down, perform, hm, Method.connected_of_notifies hm]
    · simp [Down, perform, hm]
  · simp [Down, perform_conn_ne hc, hc]

/-! ## A functor -/

/-- What `send` and `shutdown` queue neither opens a connection nor closes one. -/
theorem silent_of_isRaw (hraw : f.isRaw = true) (hm : f.method k = some m) :
    m.isEstablish = false ∧ m.closes = false := by
  rcases f with c | c | ⟨c, g⟩
  · cases hraw
  · cases hraw
  · rcases g with _ | ⟨caller, data⟩ | _ | _ | size
    · cases hraw
    · cases hm
      exact ⟨rfl, rfl⟩
    · cases hm
      exact ⟨rfl, rfl⟩
    · cases hraw
    · cases hraw

theorem eq_connectEstablished (hf : f.method k = some m) (hm : m.isEstablish = true) :
    f = .connectEstablished f.target := by
  rcases f with c | c | ⟨c, g⟩
  · rfl
  · cases hf
  · cases g <;> cases hf <;> cases hm

theorem eq_of_connectDestoryed (hf : f.method k = some .connectDestoryed) :
    f = .of f.target .connectDestoryed := by
  rcases f with c | c | ⟨c, g⟩
  · cases hf
  · cases hf
  · cases g <;> cases hf
    rfl

theorem method_of_isCallback {cb : PendingFunctor (Thread υ)} (hcb : cb.isCallback = true) :
    (ServerFunctor.of c cb).method k = none := by
  cases cb <;> simp_all [PendingFunctor.isCallback, ServerFunctor.method, PendingFunctor.method]

/-- The loop's thread enters a callback about `c`. -/
def enterCallback (s : TcpServer υ) (l : LoopId) (c : ℕ) : TcpServer υ :=
  s.onLoop l fun L => { L with todo := (c, .user) :: L.todo }

/-- **What running a functor can come to**: the server's removal, a method, nothing — where a bare
pointer leads to a connection that nothing holds — or a callback. -/
theorem exec_cases (s : TcpServer υ) (l : LoopId) (k : Answer) (f : ServerFunctor υ) :
    (∃ c, f = .removeConnectionInLoop c ∧ s.exec l k f = s.removeConnectionInLoop c) ∨
    (∃ m, f.method k = some m ∧ (f.isRaw = true → s.Strong f.target) ∧
      s.exec l k f = s.perform l f.target m) ∨
    (f.isRaw = true ∧ ¬ s.Strong f.target ∧ s.exec l k f = s) ∨
    (∃ c cb, f = .of c cb ∧ cb.isCallback = true ∧ s.exec l k f = s.enterCallback l c) := by
  rcases f with c | c | ⟨c, g⟩
  · exact .inr (.inl ⟨_, rfl, nofun, rfl⟩)
  · exact .inl ⟨c, rfl, rfl⟩
  · rcases hm : g.method k with _ | m
    · refine .inr (.inr (.inr ⟨c, g, rfl, ?_, by simp [exec, hm, enterCallback]⟩))
      cases g <;> first | rfl | cases hm
    · by_cases hrun : g.isRaw = false ∨ s.Strong c
      · refine .inr (.inl ⟨m, hm, fun hraw => ?_, by simp [exec, hm, hrun, ServerFunctor.target]⟩)
        exact hrun.resolve_left fun hno => by
          rw [show g.isRaw = true from hraw] at hno
          cases hno
      · rw [not_or, Bool.not_eq_false] at hrun
        exact .inr (.inr (.inl ⟨hrun.1, hrun.2, by simp [exec, hm, hrun]⟩))

/-! ## The events of a poll -/

/-- `fillActiveChannels` touches `revents_` only. -/
theorem setRevents_eq (reports : List (ℕ × Mask)) (c : ℕ) :
    ∃ revt, s.setRevents reports c = { s.conn c with
      tcp := { (s.conn c).tcp with channel_ := (s.conn c).tcp.channel_.set_revents revt } } := by
  unfold setRevents
  generalize s.conn = conn
  induction reports generalizing conn with
  | nil => exact ⟨(conn c).tcp.channel_.revents_, rfl⟩
  | cons r reports ih =>
    obtain ⟨revt, h⟩ := ih (Function.update conn r.1 { conn r.1 with
      tcp := { (conn r.1).tcp with channel_ := (conn r.1).tcp.channel_.set_revents r.2 } })
    rw [List.foldl_cons, h]
    by_cases hc : c = r.1
    · subst hc
      exact ⟨revt, by simp [Channel.set_revents]⟩
    · exact ⟨revt, by rw [Function.update_of_ne hc]⟩

/-! ## An action -/

section after

variable [DecidableEq υ] {a : Action υ}

omit [DecidableEq υ] in
/-- A branch of an event asks nothing of a loop. -/
theorem request_of_branch {r : LoopId × ℕ × Method (Thread υ)} (h : s.branch a = some r) :
    s.request a = none := by
  cases a with
  | task l k =>
    rcases hhead : (s.loop l).todo.head? with _ | ⟨c, task⟩
    · simp [request, hhead]
    · cases task <;> simp_all [request, branch, Task.method]
  | _ => cases h

/-- What an action asks of a loop, with what it needs for it. -/
inductive Asks (s : TcpServer υ) : Action υ → Thread υ → LoopId → ServerFunctor υ → Prop
  | functor (l : LoopId) (k : Answer) (f : ServerFunctor υ) (rest : List (ServerFunctor υ))
      (hrest : (s.loop l).rest = f :: rest) : Asks s (.functor l k) (.loop l) l f
  | removal (l : LoopId) (k : Answer) (c : ℕ)
      (hhead : (s.loop l).todo.head? = some (c, .removeConnection)) :
      Asks s (.task l k) (.loop l) .base (.removeConnectionInLoop c)
  | accept (sockfd : ℤ) : Asks s (.newConncetion sockfd) (.loop .base)
      s.threadPool_.getNextLoop.1 (.connectEstablished s.made)
  | send (t : Thread υ) (k : Answer) (data : List Byte) (hcall : s.call t = .sending data) :
      Asks s (.sendRun t k) t (s.conn (s.callee t)).home (.of (s.callee t) (.sendInLoop t data))
  | shutdown (t : Thread υ) (hcall : s.call t = .shutStored) :
      Asks s (.shutdownRun t) t (s.conn (s.callee t)).home (.of (s.callee t) .shutdownInLoop)
  | destroy (c : ℕ) (hc : c < s.made) :
      Asks s (.destroyNext c) (.loop .base) (s.conn c).home (.of c .connectDestoryed)

omit [DecidableEq υ] in
/-- **What an action can ask of a loop.** -/
theorem asks_of_request (ha : s.Ready a) {t : Thread υ} (h : s.request a = some (t, l, f)) :
    s.Asks a t l f := by
  cases a with
  | functor l' k =>
    obtain ⟨g, hhead, heq⟩ := Option.map_eq_some_iff.mp h
    obtain ⟨rfl, rfl, rfl⟩ : .loop l' = t ∧ l' = l ∧ g = f := by simpa using heq
    obtain ⟨rest, hrest⟩ := List.head?_eq_some_iff.mp hhead
    exact .functor l' k g rest hrest
  | task l' k =>
    simp only [request] at h
    split at h
    case h_1 c hhead =>
      obtain ⟨rfl, rfl, rfl⟩ : .loop l' = t ∧ .base = l ∧ .removeConnectionInLoop c = f := by
        simpa using h
      exact .removal l' k c hhead
    case h_2 => cases h
  | newConncetion sockfd =>
    obtain ⟨rfl, rfl, rfl⟩ : .loop .base = t ∧ s.threadPool_.getNextLoop.1 = l ∧
      .connectEstablished s.made = f := by simpa [request] using h
    exact .accept sockfd
  | sendRun t' k =>
    simp only [request] at h
    split at h
    case h_1 data hcall =>
      obtain ⟨rfl, rfl, rfl⟩ : t' = t ∧ (s.conn (s.callee t')).home = l ∧
        .of (s.callee t') (.sendInLoop t' data) = f := by simpa using h
      exact .send t' k data hcall
    all_goals cases h
  | shutdownRun t' =>
    obtain ⟨rfl, rfl, rfl⟩ : t' = t ∧ (s.conn (s.callee t')).home = l ∧
      .of (s.callee t') .shutdownInLoop = f := by simpa [request] using h
    exact .shutdown t' ha
  | destroyNext c =>
    obtain ⟨rfl, rfl, rfl⟩ : .loop .base = t ∧ (s.conn c).home = l ∧
      .of c .connectDestoryed = f := by simpa [request] using h
    exact .destroy c ha.2.1
  | _ => cases h

theorem runs_iff : s.runs a = some (l, f) ↔ s.request a = some (.loop l, l, f) := by
  unfold runs
  rcases s.request a with _ | ⟨t, l', f'⟩
  · simp
  · by_cases ht : t = .loop l'
    · subst ht
      simp only [Option.bind_some, if_true, Option.some.injEq, Prod.mk.injEq]
      exact ⟨fun ⟨hl, hf⟩ => ⟨hl ▸ rfl, hl, hf⟩, fun h => h.2⟩
    · simp only [Option.bind_some, ht, if_false, reduceCtorEq, Option.some.injEq, Prod.mk.injEq,
        false_iff]
      rintro ⟨rfl, rfl, -⟩
      exact ht rfl

/-- A method is run as a branch of an event or by a functor. -/
theorem job_cases (h : s.job a = some (l, c, m)) : s.branch a = some (l, c, m) ∨
    ∃ f, s.request a = some (.loop l, l, f) ∧ f.method a.answer = some m ∧ f.target = c := by
  unfold job at h
  rcases hb : s.branch a with _ | r
  · rw [hb, Option.none_or] at h
    obtain ⟨⟨l', f⟩, hruns, hm⟩ := Option.bind_eq_some_iff.mp h
    obtain ⟨m', hm', heq⟩ := Option.map_eq_some_iff.mp hm
    obtain ⟨rfl, rfl, rfl⟩ : l' = l ∧ f.target = c ∧ m' = m := by simpa using heq
    exact .inr ⟨f, runs_iff.mp hruns, hm', rfl⟩
  · rw [hb, Option.some_or] at h
    exact .inl h

omit [DecidableEq υ] in
/-- No branch of an event is one of the two methods that are queued with the server's copy. -/
theorem event_of_branch (h : s.branch a = some (l, c, m)) :
    m.isEstablish = false ∧ m.isDestroy = false := by
  cases a with
  | task l' k =>
    obtain ⟨⟨c', task⟩, -, hmap⟩ := Option.bind_eq_some_iff.mp h
    obtain ⟨m', hm', heq⟩ := Option.map_eq_some_iff.mp hmap
    obtain ⟨-, -, rfl⟩ : l' = l ∧ c' = c ∧ m' = m := by simpa using heq
    cases task <;> cases hm' <;> exact ⟨rfl, rfl⟩
  | _ => cases h

theorem job_of_branch {r : LoopId × ℕ × Method (Thread υ)} (h : s.branch a = some r) :
    s.job a = some r := by
  rw [job, h, Option.some_or]

theorem job_of_request {t : Thread υ} (h : s.request a = some (t, l, f)) : s.job a =
    if t = .loop l then (f.method a.answer).map fun m => (l, f.target, m) else none := by
  have hb : s.branch a = none := by
    by_contra hne
    obtain ⟨r, hr⟩ := Option.ne_none_iff_exists'.mp hne
    rw [request_of_branch hr] at h
    cases h
  rw [job, hb, Option.none_or, runs, h]
  by_cases ht : t = .loop l <;> simp [ht]

/-- A connection's loop is its own business. -/
theorem runInLoop_home {t : Thread υ} :
    ((s.runInLoop t l k f).conn c).home = (s.conn c).home := by
  unfold runInLoop
  split
  · rcases s.exec_cases l k f with ⟨c', -, hexec⟩ | ⟨m, -, -, hexec⟩ | ⟨-, -, hexec⟩ |
      ⟨c', cb, -, -, hexec⟩ <;> rw [hexec]
    · rfl
    · exact perform_home
    · rfl
  · rfl

/-- **What an action can come to**: its own change, with a method after it, or something asked of a
loop, or nothing. -/
theorem after_cases (s : TcpServer υ) (a : Action υ) :
    (∃ l c m, s.branch a = some (l, c, m) ∧ s.after a = (s.book a).perform l c m) ∨
    (∃ t l f, s.request a = some (t, l, f) ∧
      s.after a = (s.book a).runInLoop t l a.answer f) ∨
    (s.branch a = none ∧ s.request a = none ∧ s.after a = s.book a) := by
  unfold after
  rcases hbranch : s.branch a with _ | ⟨l, c, m⟩
  · rcases hrequest : s.request a with _ | ⟨t, l, f⟩
    · exact .inr (.inr ⟨rfl, rfl, rfl⟩)
    · exact .inr (.inl ⟨t, l, f, rfl, rfl⟩)
  · rw [request_of_branch hbranch]
    exact .inl ⟨l, c, m, rfl, rfl⟩

theorem after_home : ((s.after a).conn c).home = ((s.book a).conn c).home := by
  rcases s.after_cases a with ⟨l, c', m, -, hafter⟩ | ⟨t, l, f, -, hafter⟩ | ⟨-, -, hafter⟩ <;>
    rw [hafter]
  · exact perform_home
  · exact runInLoop_home

/-- What no method, functor or push changes: where everyone is, and what they hold. -/
structure Frame (s s' : TcpServer υ) : Prop where
  made : s'.made = s.made
  phase : s'.phase = s.phase
  held : s'.held = s.held
  call : s'.call = s.call
  callee : s'.callee = s.callee
  threadPool_ : s'.threadPool_ = s.threadPool_
  stage : ∀ l, (s'.loop l).stage = (s.loop l).stage
  activeChannels_ : ∀ l, (s'.loop l).activeChannels_ = (s.loop l).activeChannels_
  ran : ∀ l, (s'.loop l).ran = (s.loop l).ran
  rest : ∀ l, (s'.loop l).rest = (s.loop l).rest

omit [DecidableEq υ] in
theorem frame_queueInLoop : s.Frame (s.queueInLoop l f) := by
  refine ⟨rfl, rfl, rfl, rfl, rfl, rfl, ?_, ?_, ?_, ?_⟩ <;> intro l' <;> rw [queueInLoop_loop]

omit [DecidableEq υ] in
theorem frame_exec : s.Frame (s.exec l k f) := by
  rcases s.exec_cases l k f with ⟨c, -, hexec⟩ | ⟨m, -, -, hexec⟩ | ⟨-, -, hexec⟩ |
    ⟨c, cb, -, -, hexec⟩ <;> rw [hexec]
  · obtain ⟨hmade, hphase, hheld, hcall, hcallee, hpool, hstage, hactive, hran, hrest⟩ :=
      frame_queueInLoop (l := (s.conn c).home) (f := .of c .connectDestoryed)
        (s := { s with conncetions_ := Function.update s.conncetions_ (s.conn c).name none })
    exact ⟨hmade, hphase, hheld, hcall, hcallee, hpool, hstage, hactive, hran, hrest⟩
  · exact ⟨rfl, rfl, rfl, rfl, rfl, rfl, fun _ => rfl, fun _ => rfl, fun _ => rfl, fun _ => rfl⟩
  · exact ⟨rfl, rfl, rfl, rfl, rfl, rfl, fun _ => rfl, fun _ => rfl, fun _ => rfl, fun _ => rfl⟩
  · refine ⟨rfl, rfl, rfl, rfl, rfl, rfl, ?_, ?_, ?_, ?_⟩ <;> intro l' <;>
      rcases eq_or_ne l' l with rfl | hl <;> simp [enterCallback, onLoop_ne, *]

theorem after_frame (s : TcpServer υ) (a : Action υ) : (s.book a).Frame (s.after a) := by
  rcases s.after_cases a with ⟨l, c, m, -, hafter⟩ | ⟨t, l, f, -, hafter⟩ | ⟨-, -, hafter⟩ <;>
    rw [hafter]
  · exact ⟨rfl, rfl, rfl, rfl, rfl, rfl, fun _ => rfl, fun _ => rfl, fun _ => rfl, fun _ => rfl⟩
  · unfold runInLoop
    split
    · exact frame_exec
    · exact frame_queueInLoop
  · exact ⟨rfl, rfl, rfl, rfl, rfl, rfl, fun _ => rfl, fun _ => rfl, fun _ => rfl, fun _ => rfl⟩

/-- A functor that another was left in the queue for: a callback, or the `connectDestoryed` that
follows a removal. -/
def Follows (f : ServerFunctor υ) : Prop :=
  ∃ c cb, f = .of c cb ∧ (cb.isCallback = true ∨ cb = .connectDestoryed)

omit [DecidableEq υ] in
theorem pending_perform (l' : LoopId) : ∃ added, (∀ f ∈ added, Follows f) ∧
    ((s.perform l c m).loop l').pendingFunctors_ = (s.loop l').pendingFunctors_ ++ added := by
  rw [perform_loop]
  refine ⟨_, fun f hf => ?_, rfl⟩
  split at hf
  · obtain ⟨cb, rfl, hcb⟩ := mem_queued hf
    exact ⟨c, cb, rfl, .inl hcb⟩
  · cases hf

omit [DecidableEq υ] in
theorem pending_queueInLoop (l' : LoopId) : ∃ added, (∀ g ∈ added, g = f ∧ l' = l) ∧
    ((s.queueInLoop l f).loop l').pendingFunctors_ = (s.loop l').pendingFunctors_ ++ added := by
  rw [queueInLoop_loop]
  refine ⟨_, fun g hg => ?_, rfl⟩
  split at hg
  case isTrue hl => exact ⟨List.mem_singleton.mp hg, hl.1⟩
  case isFalse => cases hg

omit [DecidableEq υ] in
theorem pending_exec (l' : LoopId) : ∃ added, (∀ g ∈ added, Follows g) ∧
    ((s.exec l k f).loop l').pendingFunctors_ = (s.loop l').pendingFunctors_ ++ added := by
  rcases s.exec_cases l k f with ⟨c, -, hexec⟩ | ⟨m, -, -, hexec⟩ | ⟨-, -, hexec⟩ |
    ⟨c, cb, -, -, hexec⟩ <;> rw [hexec]
  · obtain ⟨added, hadded, heq⟩ :=
      pending_queueInLoop (l := (s.conn c).home) (f := .of c .connectDestoryed) (s :=
        { s with conncetions_ := Function.update s.conncetions_ (s.conn c).name none }) l'
    exact ⟨added, fun g hg => ⟨c, .connectDestoryed, (hadded g hg).1, .inr rfl⟩, heq⟩
  · exact pending_perform l'
  · exact ⟨[], nofun, (List.append_nil _).symm⟩
  · refine ⟨[], nofun, ?_⟩
    rcases eq_or_ne l' l with rfl | hl <;> simp [enterCallback, onLoop_ne, *]

/-- **What an action leaves in a queue**: what follows from what it ran, or what it pushed. -/
theorem after_pending (s : TcpServer υ) (a : Action υ) (l : LoopId) :
    ∃ added, ((s.after a).loop l).pendingFunctors_ =
        ((s.book a).loop l).pendingFunctors_ ++ added ∧
      ∀ f ∈ added, Follows f ∨ ∃ t, s.request a = some (t, l, f) ∧ t ≠ .loop l := by
  rcases s.after_cases a with ⟨l', c, m, -, hafter⟩ | ⟨t, l', f, hr, hafter⟩ | ⟨-, -, hafter⟩ <;>
    rw [hafter]
  · obtain ⟨added, hadded, heq⟩ := pending_perform (s := s.book a) (l := l') (c := c) (m := m) l
    exact ⟨added, heq, fun f hf => .inl (hadded f hf)⟩
  · unfold runInLoop
    split
    · obtain ⟨added, hadded, heq⟩ :=
        pending_exec (s := s.book a) (l := l') (k := a.answer) (f := f) l
      exact ⟨added, heq, fun g hg => .inl (hadded g hg)⟩
    case isFalse ht =>
      obtain ⟨added, hadded, heq⟩ := pending_queueInLoop (s := s.book a) (l := l') (f := f) l
      refine ⟨added, heq, fun g hg => .inr ?_⟩
      obtain ⟨rfl, rfl⟩ := hadded g hg
      exact ⟨t, hr, ht⟩
  · exact ⟨[], (List.append_nil _).symm, nofun⟩

/-- **What an action can come to for the connections**: the method it runs, if it runs one. -/
theorem after_conn (s : TcpServer υ) (a : Action υ) :
    (∃ l c m, s.job a = some (l, c, m) ∧ (s.after a).conn = ((s.book a).perform l c m).conn) ∨
    ((s.after a).conn = (s.book a).conn ∧
      ∀ j ∈ s.job a, j.2.2.isEstablish = false ∧ j.2.2.closes = false) := by
  rcases s.after_cases a with ⟨l, c, m, hb, hafter⟩ | ⟨t, l, f, hr, hafter⟩ | ⟨hb, hr, hafter⟩ <;>
    rw [hafter]
  · exact .inl ⟨l, c, m, job_of_branch hb, rfl⟩
  · rw [job_of_request hr, runInLoop]
    by_cases ht : t = .loop l
    · simp only [ht, if_true]
      rcases (s.book a).exec_cases l a.answer f with ⟨c, rfl, hexec⟩ | ⟨m, hm, -, hexec⟩ |
        ⟨hraw, -, hexec⟩ | ⟨c, cb, rfl, hcb, hexec⟩ <;> rw [hexec]
      · exact .inr ⟨rfl, by simp [ServerFunctor.method]⟩
      · exact .inl ⟨l, f.target, m, by rw [hm]; rfl, rfl⟩
      · refine .inr ⟨rfl, fun j hj => ?_⟩
        obtain ⟨m, hm, rfl⟩ := Option.map_eq_some_iff.mp hj
        exact silent_of_isRaw hraw hm
      · refine .inr ⟨rfl, fun j hj => ?_⟩
        rw [method_of_isCallback hcb] at hj
        cases hj
    · simp only [ht, if_false]
      exact .inr ⟨rfl, nofun⟩
  · refine .inr ⟨rfl, fun j hj => ?_⟩
    rw [job, hb, runs, hr] at hj
    cases hj

/-- What an action's own change does to the loop `l`, with what it needs for it. -/
inductive LoopStep (s : TcpServer υ) (l : LoopId) : Action υ → ServerLoop υ → Prop
  | same (a : Action υ) : LoopStep s l a (s.loop l)
  | quit (a : Action υ) : LoopStep s l a { s.loop l with quit_ := true }
  | enter (hat : s.At l .outside) :
      LoopStep s l (.enter l) { s.loop l with stage := .test, quit_ := false }
  | test (hat : s.At l .test) : LoopStep s l (.test l) ((s.loop l).testQuit l)
  | poll (reports : List (ℕ × Mask)) (hat : s.At l .polling) (hr : ∀ r ∈ reports, s.Reports l r) :
      LoopStep s l (.poll l reports)
        { s.loop l with stage := .dispatching, activeChannels_ := reports.map Prod.fst }
  | dispatch (hat : s.At l .dispatching) :
      LoopStep s l (.dispatch l) { s.loop l with
        activeChannels_ := (s.loop l).activeChannels_.tail
        todo := ((s.loop l).activeChannels_.take 1).flatMap s.handleEvent }
  | tail (a : Action υ) (hfree : s.Free l) :
      LoopStep s l a { s.loop l with todo := (s.loop l).todo.tail }
  | swap (hat : s.At l .dispatching) (hactive : (s.loop l).activeChannels_ = []) :
      LoopStep s l (.doPendingFunctors l) { s.loop l with
        stage := .running
        rest := (s.loop l).pendingFunctors_
        pendingFunctors_ := [] }
  | take (k : Answer) (hat : s.At l .running) (hrest : (s.loop l).rest ≠ []) :
      LoopStep s l (.functor l k) { s.loop l with
        ran := (s.loop l).ran ++ (s.loop l).rest.take 1
        rest := (s.loop l).rest.tail }
  | done (hat : s.At l .running) (hrest : (s.loop l).rest = []) :
      LoopStep s l (.donePendingFunctors l) { s.loop l with stage := .test, ran := [] }
  | accept (sockfd : ℤ) : LoopStep s l (.newConncetion sockfd)
      { s.loop l with poller_ := (s.loop l).poller_.closed sockfd }
  | clear (i : ℕ) (hl : l = .sub i) (hstage : (s.loop l).stage = .returned) :
      LoopStep s l (.endLoop i) { s.loop l with stage := .cleared }
  | discard (i : ℕ) (hl : l = .sub i) (hstage : (s.loop l).stage = .cleared) :
      LoopStep s l (.endLoop i) { s.loop l with stage := .leaving, pendingFunctors_ := [] }
  | endLoop (i : ℕ) (hl : l = .sub i) (hstage : (s.loop l).stage = .leaving) :
      LoopStep s l (.endLoop i) { s.loop l with stage := .destroyed, poller_ := .new }

/-- **What an action's own change can come to for a loop.** -/
theorem book_loop (ha : s.Ready a) (l : LoopId) : s.LoopStep l a ((s.book a).loop l) := by
  have honLoop : ∀ (l' : LoopId) (g : ServerLoop υ → ServerLoop υ),
      s.LoopStep l' a (g (s.loop l')) → s.LoopStep l a ((s.onLoop l' g).loop l) := by
    intro l' g hg
    rcases eq_or_ne l l' with rfl | hne
    · rw [onLoop_self]
      exact hg
    · rw [onLoop_ne hne]
      exact .same a
  cases a with
  | enter l' => rw [book]; exact honLoop l' _ (.enter ha)
  | test l' => rw [book]; exact honLoop l' _ (.test ha)
  | poll l' reports =>
    exact honLoop l' (fun L =>
      { L with stage := .dispatching, activeChannels_ := reports.map Prod.fst })
      (.poll reports ha.1 ha.2)
  | dispatch l' => rw [book]; exact honLoop l' _ (.dispatch ha.1)
  | task l' k => rw [book]; exact honLoop l' _ (.tail _ ha.1)
  | ret l' => rw [book]; exact honLoop l' _ (.tail _ ha.1)
  | doPendingFunctors l' => rw [book]; exact honLoop l' _ (.swap ha.1 ha.2)
  | functor l' k => rw [book]; exact honLoop l' _ (.take k ha.1 ha.2)
  | donePendingFunctors l' => rw [book]; exact honLoop l' _ (.done ha.1 ha.2)
  | endLoop i =>
    rw [book]
    refine honLoop (.sub i) _ ?_
    obtain ⟨hstage, heq⟩ | ⟨hstage, heq⟩ | ⟨hstage, heq⟩ := ServerLoop.endNext_cases ha
    · exact heq.symm ▸ .clear i rfl hstage
    · exact heq.symm ▸ .discard i rfl hstage
    · exact heq.symm ▸ .endLoop i rfl hstage
  | newConncetion sockfd => exact .accept sockfd
  | quit t l' => rw [book]; exact honLoop l' _ (.quit _)
  | send t c data => rw [book]; split <;> exact .same _
  | shutdown t c => rw [book]; split <;> exact .same _
  | retrieve l' len => rw [book]; split <;> exact .same _
  | stop =>
    rw [book, stopNext]
    cases s.phase with
    | stopping i =>
      simp only
      split
      · exact .same _
      · exact honLoop (.sub i) (fun L => { L with quit_ := true }) (.quit _)
    | _ => exact .same _
  | _ => exact .same _

/-- What an action's own change does to the server, and to who has a pointer. -/
inductive ServerStep (s : TcpServer υ) : Action υ → TcpServer υ → Prop
  | accept (sockfd : ℤ) : ServerStep s (.newConncetion sockfd) (s.accept sockfd)
  | share (t t' : Thread υ) (c : ℕ) :
      ServerStep s (.share t t' c) { s with held := (t', c) :: s.held }
  | release (t : Thread υ) (c : ℕ) :
      ServerStep s (.release t c) { s with held := s.held.erase (t, c) }
  | destroy : ServerStep s .destroy { s with phase := .destroying }
  | destroyNext (c : ℕ) : ServerStep s (.destroyNext c)
      { s with conncetions_ := Function.update s.conncetions_ (s.conn c).name none }
  | stop (s' : TcpServer υ) (hmade : s'.made = s.made) (hmap : s'.conncetions_ = s.conncetions_)
      (hheld : s'.held = s.held) : ServerStep s .stop s'
  | other (a : Action υ) (s' : TcpServer υ) (hmade : s'.made = s.made)
      (hmap : s'.conncetions_ = s.conncetions_) (hheld : s'.held = s.held)
      (hphase : s'.phase = s.phase) : ServerStep s a s'

/-- **What an action's own change can come to for the server.** -/
theorem book_server (s : TcpServer υ) (a : Action υ) : s.ServerStep a (s.book a) := by
  cases a with
  | newConncetion sockfd => exact .accept sockfd
  | share t t' c => exact .share t t' c
  | release t c => exact .release t c
  | destroy => exact .destroy
  | destroyNext c => exact .destroyNext c
  | send t c data => rw [book]; split <;> exact .other _ _ rfl rfl rfl rfl
  | shutdown t c => rw [book]; split <;> exact .other _ _ rfl rfl rfl rfl
  | retrieve l len => rw [book]; split <;> exact .other _ _ rfl rfl rfl rfl
  | stop =>
    rw [book, stopNext]
    cases s.phase with
    | stopping i => simp only; split <;> exact .stop _ rfl rfl rfl
    | _ => exact .stop _ rfl rfl rfl
  | _ => exact .other _ _ rfl rfl rfl rfl

/-- Only `newConncetion` makes a connection. -/
theorem lt_book_made (h : c < (s.book a).made) :
    c < s.made ∨ ∃ sockfd, a = .newConncetion sockfd ∧ c = s.made := by
  have hstep := s.book_server a
  generalize s.book a = s' at hstep h
  cases hstep with
  | accept sockfd =>
    exact (Nat.lt_succ_iff_lt_or_eq.mp h).imp_right fun hc => ⟨sockfd, rfl, hc⟩
  | stop _ hmade => exact .inl (hmade ▸ h)
  | other _ _ hmade => exact .inl (hmade ▸ h)
  | _ => exact .inl h

/-- What an action does to a connection apart from its method. -/
theorem book_conn (s : TcpServer υ) (a : Action υ) (hc : c < s.made) :
    ∃ tcp revt, (s.book a).conn c = { s.conn c with tcp } ∧
      tcp.channel_ = (s.conn c).tcp.channel_.set_revents revt := by
  have hsame : ∃ tcp revt, s.conn c = { s.conn c with tcp } ∧
      tcp.channel_ = (s.conn c).tcp.channel_.set_revents revt :=
    ⟨_, (s.conn c).tcp.channel_.revents_, rfl, rfl⟩
  have htcp : ∀ c' (g : TcpConnection ℕ (Thread υ) → TcpConnection ℕ (Thread υ)),
      (∀ tcp, (g tcp).channel_ = tcp.channel_) → ∃ tcp revt,
        (s.onTcp c' g).conn c = { s.conn c with tcp } ∧
          tcp.channel_ = (s.conn c).tcp.channel_.set_revents revt := by
    intro c' g hg
    by_cases hself : c = c'
    · subst hself
      exact ⟨g (s.conn c).tcp, _, Function.update_self .., hg _⟩
    · obtain ⟨tcp, revt, heq, hchannel⟩ := hsame
      exact ⟨tcp, revt, (Function.update_of_ne hself ..).trans heq, hchannel⟩
  cases a with
  | poll l reports =>
    obtain ⟨revt, heq⟩ := setRevents_eq (s := s) reports c
    exact ⟨_, revt, heq, rfl⟩
  | newConncetion sockfd =>
    obtain ⟨tcp, revt, heq, hchannel⟩ := hsame
    exact ⟨tcp, revt, (Function.update_of_ne (Nat.ne_of_lt hc) ..).trans heq, hchannel⟩
  | send t c' data => rw [book]; split <;> exact hsame
  | shutdown t c' => rw [book]; split <;> exact hsame
  | shutdownStore t => exact htcp _ (fun tcp => tcp.setState .kDisconnecting) fun _ => rfl
  | setHighWaterMarkCallback t c' mark =>
    exact htcp c' (fun tcp =>
      { tcp with highWaterMarkCallback_ := true, highWaterMark_ := mark }) fun _ => rfl
  | retrieve l len =>
    rw [book]
    split
    · exact htcp _ (fun tcp => { tcp with inputBuffer_ := tcp.inputBuffer_.retrieve len })
        fun _ => rfl
    · exact hsame
  | stop =>
    rw [book, stopNext]
    cases s.phase with
    | stopping i => simp only; split <;> exact hsame
    | _ => exact hsame
  | _ => exact hsame

end after

end TcpServer

end Mymuduo
