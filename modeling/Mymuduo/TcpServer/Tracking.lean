import Mymuduo.Machinery.Simulation
import Mymuduo.TcpConnection.Marked
import Mymuduo.TcpServer.Living

/-!
# TcpServer/Tracking — a server as one of its connections sees it

Of all a server does, a connection has to do with little: its own methods, the functors about it in
its loop's queue and the removals about it in the base loop's, the events of its channel, the calls
of `send` and `shutdown` on it.  Everything else reaches it through the poller it shares.  That is a
`Session` (`Tracks`), and an action of the server is, to the connection, what `sessionActions` says.

    action of the server ──▸ send / functor / task / …   where it is about the connection
                         ──▸ others                      where it is not

Two things differ in time.  `~TcpServer` may queue a `connectDestoryed` before the connection has
been announced; the session is told of it behind `connectEstablished`.  And what is queued in a loop
that is gone is dropped; the session, which has its loop for ever, keeps it and does not run it.
-/

namespace Mymuduo

open Machinery TcpConnection EPollPoller

namespace TcpConnection

variable {κ τ : Type*} {c : TcpConnection κ τ}

/-- A connection with another queue. -/
def withQueue (c : TcpConnection κ τ) (q : List (PendingFunctor τ)) : TcpConnection κ τ :=
  { c with pendingFunctors_ := q }

theorem writeDirectly_withQueue (q : List (PendingFunctor τ)) (data : List Byte) (r : WriteResult) :
    (c.withQueue (q ++ c.pendingFunctors_)).writeDirectly data r =
      ((c.writeDirectly data r).1,
        (c.writeDirectly data r).2.withQueue (q ++ (c.writeDirectly data r).2.pendingFunctors_)) := by
  simp only [writeDirectly, withQueue, queueIf_eq, write]
  split_ifs <;> simp

theorem bufferRemaining_withQueue (q : List (PendingFunctor τ)) (data : List Byte)
    (l : SendLocals) : (c.withQueue (q ++ c.pendingFunctors_)).bufferRemaining data l =
      (c.bufferRemaining data l).withQueue (q ++ (c.bufferRemaining data l).pendingFunctors_) := by
  by_cases hrest : (!l.faultError && decide (0 < l.remaining)) = true
  · by_cases hw : c.channel_.isWriting = true
    all_goals
      simp only [bufferRemaining, withQueue, queueIf_eq, onChannel, hrest, hw, if_true, if_false,
        Bool.not_true, Bool.not_false, Bool.false_eq_true, List.append_assoc]
      rfl
  · simp [bufferRemaining, withQueue, hrest]

/-- **A method puts what it queues behind what is there**, and does not look at it. -/
theorem run_withQueue (m : Method τ) (q : List (PendingFunctor τ)) :
    m.run (c.withQueue (q ++ c.pendingFunctors_)) =
      (m.run c).withQueue (q ++ (m.run c).pendingFunctors_) := by
  cases m with
  | connectEstablished => rfl
  | handleClose => rfl
  | connectDestoryed =>
    by_cases hs : c.state_ = .kConnected <;>
      simp [Method.run, connectDestoryed, withQueue, onChannel, setState, hs]
  | shutdownInLoop =>
    by_cases hw : c.channel_.isWriting = true <;>
      simp [Method.run, shutdownInLoop, withQueue, shutdownWrite, hw]
  | handleRead k =>
    by_cases hk : k = .data [] <;>
      simp [Method.run, handleRead, handleClose, withQueue, onChannel, setState, hk]
  | sendInLoop caller data r =>
    let c₁ := c.setState .kDisconnected
    have hwrite := writeDirectly_withQueue (c := c₁) q data r
    calc (c.withQueue (q ++ c.pendingFunctors_)).sendInLoop data r
        = ((c₁.withQueue (q ++ c₁.pendingFunctors_)).writeDirectly data r).2.bufferRemaining data
            ((c₁.withQueue (q ++ c₁.pendingFunctors_)).writeDirectly data r).1 := rfl
      _ = _ := by rw [hwrite, bufferRemaining_withQueue]; rfl
  | handleWrite r =>
    by_cases hw : c.channel_.isWriting = true
    · simp only [Method.run, handleWrite, withQueue, queueIf_eq, onChannel, write, shutdownInLoop,
        shutdownWrite, hw]
      split_ifs <;> simp
    · simp [Method.run, handleWrite, withQueue, hw]

/-- The kernel answers it all the same. -/
theorem allowed_withQueue {m : Method τ} {q : List (PendingFunctor τ)} :
    m.Allowed (c.withQueue q) ↔ m.Allowed c := by
  cases m <;> rfl

/-- A connection's calls leave the poller alone at other descriptors. -/
theorem onChannels_sameAt {ops : List ChannelOp} {fd : ℤ} (hfd : fd ≠ c.channel_.fd_) :
    EPollPoller.SameAt fd c.poller_ (c.onChannels ops).poller_ := by
  induction ops generalizing c with
  | nil => exact .refl
  | cons op ops ih =>
    refine (ChannelOp.call_sameAt hfd).trans (ih (c := c.onChannel op) ?_)
    rwa [onChannel, ChannelOp.fd_call]

end TcpConnection

variable {υ : Type*}

/-- What a functor is to the connection `c`, if it is one of its own. -/
def ServerFunctor.own (c : ℕ) : ServerFunctor υ → Option (PendingFunctor (Thread υ))
  | of c' f => if c' = c then some f else none
  | connectEstablished _ | removeConnectionInLoop _ => none

namespace ServerLoop

variable (L : ServerLoop υ) (c : ℕ)

/-- The functors of `c` that a loop has still to run. -/
def queueOf : List (PendingFunctor (Thread υ)) := L.waiting.filterMap (ServerFunctor.own c)

/-- What its thread is at for `c`. -/
def todoOf : List Task := (L.todo.filter (·.1 = c)).map Prod.snd

end ServerLoop

namespace TcpServer

variable {s s' s'' : TcpServer υ} {l l' : LoopId} {c c' : ℕ} {m : Method (Thread υ)}
  {f : ServerFunctor υ} {k : Answer} {t : Thread υ} {σ : Session ℕ (Thread υ)} {fd : ℤ}

/-- The loop of a connection. -/
def homeOf (s : TcpServer υ) (c : ℕ) : ServerLoop υ := s.loop (s.conn c).home

/-- How far a thread is in a call on `c`. -/
def callOn (s : TcpServer υ) (c : ℕ) (t : Thread υ) : Call :=
  if s.callee t = c then s.call t else .idle

/-- The removals of `c` that the base loop has still to run. -/
def removalsOf [DecidableEq υ] (s : TcpServer υ) (c : ℕ) : ℕ :=
  (s.loop .base).waiting.count (.removeConnectionInLoop c)

/-- **The session of a connection**: all but the socket's other end is the server's. -/
structure Tracks [DecidableEq υ] (c : ℕ) (s : TcpServer υ) (σ : Session ℕ (Thread υ)) : Prop where
  conn : σ.conn = { (s.conn c).tcp with
    poller_ := σ.conn.poller_
    pendingFunctors_ := σ.conn.pendingFunctors_ }
  established : σ.established = true ↔ s.Up c
  call : ∀ t, σ.call t = s.callOn c t
  todo : σ.todo = (s.homeOf c).todoOf c
  active : σ.active = true ↔ c ∈ (s.homeOf c).activeChannels_
  removals : σ.removals = s.removalsOf c
  poller : (s.homeOf c).stage.gone = false → σ.conn.poller_ = (s.homeOf c).poller_
  /-- what is queued before the connection is announced comes when it is -/
  queue : (s.homeOf c).stage.gone = false → σ.conn.pendingFunctors_ =
    if s.Up c then (s.homeOf c).queueOf c else []

section

variable [DecidableEq υ] {a : Action υ}

/-- What an action is to the connection `c`, if it is about it. -/
def about (c : ℕ) (s : TcpServer υ) : Action υ → Option (List (Session.Action ℕ (Thread υ) ⊕ ℕ))
  | .send t c' data => if c' = c then some [.inl (.send t data)] else none
  | .sendRun t k => if s.callee t = c then some [.inl (.sendRun t k)] else none
  | .shutdown t c' => if c' = c then some [.inl (.shutdown t)] else none
  | .shutdownStore t => if s.callee t = c then some [.inl (.shutdownStore t)] else none
  | .shutdownRun t => if s.callee t = c then some [.inl (.shutdownRun t)] else none
  | .setHighWaterMarkCallback _ c' highWaterMark =>
      if c' = c then some [.inr highWaterMark] else none
  | .poll _ reports => (reports.find? (·.1 = c)).map fun r => [.inl (.poll r.2)]
  | .dispatch l =>
      if (s.loop l).activeChannels_.head? = some c then some [.inl .dispatch] else none
  | .task l k =>
      match (s.loop l).todo.head? with
      | some (c', task) =>
          if c' = c then
            some (.inl (.task k) ::
              if task = .removeConnection ∧ l = .base then [.inl .removeConnection] else [])
          else none
      | none => none
  | .ret l => if (s.loop l).todo.head?.any (·.1 = c) then some [.inl .ret] else none
  | .retrieve l len =>
      if (s.loop l).todo.head?.any (·.1 = c) then some [.inl (.consume len)] else none
  | .functor l k =>
      match (s.loop l).rest.head? with
      | some (.connectEstablished c') =>
          if c' = c then
            some (.inl .connectEstablished ::
              List.replicate ((s.loop l).queueOf c).length (.inl (.destroy (.loop .base))))
          else none
      | some (.removeConnectionInLoop c') =>
          if c' = c then some [.inl .removeConnection] else none
      | some (.of c' _) => if c' = c then some [.inl (.functor k)] else none
      | none => none
  | .destroyNext c' =>
      if c' = c then
        some (if s.Up c ∧ (s.homeOf c).stage.gone = false then
          [.inl (.destroy (.loop .base))] else [])
      else none
  | _ => none

/-- **What an action is to the session of `c`**: what it is to the connection, or whatever it makes
of the poller; and nothing once nothing holds the connection. -/
def sessionActions (c : ℕ) (s : TcpServer υ) (a : Action υ) :
    List (Session.Action ℕ (Thread υ) ⊕ ℕ) :=
  if s.Strong c then
    (s.about c a).getD
      (if (s.homeOf c).stage.gone then []
        else [.inl (.others ((s.after a).loop (s.conn c).home).poller_)])
  else []

end

/-! ## What is not about a connection -/

section

variable {L L' L'' : ServerLoop υ}

/-- A change of a loop that is not about `c`. -/
structure Unmoved (c : ℕ) (L L' : ServerLoop υ) : Prop where
  todo : L'.todoOf c = L.todoOf c
  active : c ∈ L'.activeChannels_ ↔ c ∈ L.activeChannels_
  gone : L'.stage.gone = false → L.stage.gone = false
  waiting : L'.stage.gone = false →
    L'.waiting.filter (·.target = c) = L.waiting.filter (·.target = c)

theorem Unmoved.refl : Unmoved c L L := ⟨rfl, Iff.rfl, id, fun _ => rfl⟩

theorem Unmoved.trans (h : Unmoved c L L') (h' : Unmoved c L' L'') : Unmoved c L L'' :=
  ⟨h'.todo.trans h.todo, h'.active.trans h.active, fun hg => h.gone (h'.gone hg),
    fun hg => (h'.waiting hg).trans (h.waiting (h'.gone hg))⟩

/-- What of a queue concerns `c` is found among the functors about it. -/
theorem queueOf_eq (L : ServerLoop υ) (c : ℕ) : L.queueOf c =
    (L.waiting.filter (·.target = c)).filterMap (ServerFunctor.own c) := by
  rw [List.filterMap_filter, ServerLoop.queueOf]
  congr 1
  funext f
  rcases f with c' | c' | ⟨c', g⟩
  · simp [ServerFunctor.own]
  · simp [ServerFunctor.own]
  · by_cases hc : c' = c <;> simp [ServerFunctor.own, ServerFunctor.target, hc]

theorem Unmoved.queueOf (h : Unmoved c L L') (hg : L'.stage.gone = false) :
    L'.queueOf c = L.queueOf c := by
  rw [queueOf_eq, queueOf_eq, h.waiting hg]

theorem Unmoved.count [DecidableEq υ] (h : Unmoved c L L') (hg : L'.stage.gone = false)
    (hf : f.target = c) : L'.waiting.count f = L.waiting.count f := by
  have hcount : ∀ M : ServerLoop υ,
      M.waiting.count f = (M.waiting.filter (·.target = c)).count f := fun M =>
    (List.count_filter (by simpa using hf)).symm
  rw [hcount, h.waiting hg, ← hcount]

/-- A change of the server that is not about `c`, but for the poller of its loop. -/
structure Untouched (c : ℕ) (s s' : TcpServer υ) : Prop where
  conn : s'.conn c = s.conn c
  call : ∀ t, s'.callOn c t = s.callOn c t
  loop : ∀ l, Unmoved c (s.loop l) (s'.loop l)

theorem Untouched.refl : Untouched c s s := ⟨rfl, fun _ => rfl, fun _ => .refl⟩

theorem Untouched.trans (h : Untouched c s s') (h' : Untouched c s' s'') : Untouched c s s'' :=
  ⟨h'.conn.trans h.conn, fun t => (h'.call t).trans (h.call t),
    fun l => (h.loop l).trans (h'.loop l)⟩

theorem Untouched.up_iff (h : Untouched c s s') : s'.Up c ↔ s.Up c := by rw [Up, h.conn, Up]

theorem Untouched.home (h : Untouched c s s') : s'.homeOf c = s'.loop (s.conn c).home := by
  rw [homeOf, h.conn]

/-- **The session sees the poller change, and nothing else.** -/
theorem Untouched.tracks [DecidableEq υ] (h : Untouched c s s') (hσ : Tracks c s σ)
    (hbase : (s'.loop .base).stage.gone = false) {p : EPollPoller ℕ}
    (hp : (s'.homeOf c).stage.gone = false → p = (s'.homeOf c).poller_) :
    Tracks c s' { σ with conn := { σ.conn with poller_ := p } } := by
  have hloop := h.loop (s.conn c).home
  refine ⟨?_, hσ.established.trans h.up_iff.symm, fun t => (hσ.call t).trans (h.call t).symm, ?_,
    ?_, ?_, hp, ?_⟩
  · rw [hσ.conn, h.conn]
  · rw [h.home, hloop.todo]
    exact hσ.todo
  · rw [h.home, hloop.active]
    exact hσ.active
  · exact hσ.removals.trans ((h.loop .base).count hbase rfl).symm
  · rw [h.home]
    intro hg
    simp only [h.up_iff, hloop.queueOf hg]
    exact hσ.queue (hloop.gone hg)

/-! ### What an action is made of -/

theorem untouched_onLoop {g : ServerLoop υ → ServerLoop υ} (hg : Unmoved c (s.loop l) (g (s.loop l))) :
    Untouched c s (s.onLoop l g) := by
  refine ⟨rfl, fun _ => rfl, fun l' => ?_⟩
  by_cases hl : l' = l
  · subst hl
    rwa [onLoop_self]
  · rw [onLoop_ne hl]
    exact .refl

theorem untouched_onTcp {g : TcpConnection ℕ (Thread υ) → TcpConnection ℕ (Thread υ)}
    (hc : c' ≠ c) : Untouched c s (s.onTcp c' g) :=
  ⟨Function.update_of_ne hc.symm .., fun _ => rfl, fun _ => .refl⟩

/-- A call that is about another connection is nowhere. -/
theorem untouched_call [DecidableEq υ] {x : Call} (hc : c' ≠ c) (ht : s.call t = .idle) :
    Untouched c s { s with
      call := Function.update s.call t x
      callee := Function.update s.callee t c' } := by
  refine ⟨rfl, fun t' => ?_, fun _ => .refl⟩
  by_cases htt : t' = t
  · subst htt
    simp [callOn, hc, ht]
  · simp [callOn, htt]

theorem untouched_step [DecidableEq υ] {x : Call} (ht : s.callee t ≠ c) :
    Untouched c s { s with call := Function.update s.call t x } := by
  refine ⟨rfl, fun t' => ?_, fun _ => .refl⟩
  by_cases htt : t' = t
  · subst htt
    simp [callOn, ht]
  · simp [callOn, htt]

/-- Callbacks come before what a thread has still to do. -/
theorem todoOf_callbacks {L L' : ServerLoop υ} {tasks : List Task}
    (h : L'.todo = tasks.map (c', ·) ++ L.todo) :
    L'.todoOf c = (if c' = c then tasks else []) ++ L.todoOf c := by
  by_cases hc : c' = c <;>
    simp [ServerLoop.todoOf, h, List.filter_append, List.filter_map, Function.comp_def, hc]

theorem perform_todo (l' : LoopId) : ((s.perform l c m).loop l').todo =
    (if l' = l then m.callbacks else []).map (c, ·) ++ (s.loop l').todo := by
  by_cases hl : l' = l <;> simp [perform_loop, hl]

theorem untouched_perform (hc : c' ≠ c) : Untouched c s (s.perform l c' m) := by
  refine ⟨perform_conn_ne hc.symm, fun _ => rfl, fun l' => ⟨?_, Iff.rfl, id, fun _ => ?_⟩⟩
  · rw [todoOf_callbacks (perform_todo l'), if_neg hc, List.nil_append]
  · rw [waiting_perform, List.filter_append]
    split
    · have hnone : (s.queued c' m).filter (·.target = c) = [] := by
        refine List.filter_eq_nil_iff.mpr fun f hf => ?_
        obtain ⟨cb, rfl, -⟩ := mem_queued hf
        simp [ServerFunctor.target, hc]
      rw [hnone, List.append_nil]
    · simp

theorem untouched_queueInLoop (hf : f.target ≠ c) : Untouched c s (s.queueInLoop l f) := by
  refine ⟨rfl, fun _ => rfl, fun l' => ⟨?_, ?_, ?_, fun _ => ?_⟩⟩
  · rw [queueInLoop_loop]
    rfl
  · rw [queueInLoop_loop]
  · rw [queueInLoop_stage]
    exact id
  · rw [waiting_queueInLoop, List.filter_append]
    split <;> simp [hf]

theorem untouched_exec (hf : f.target ≠ c) : Untouched c s (s.exec l k f) := by
  rcases s.exec_cases l k f with ⟨c', rfl, hexec⟩ | ⟨m, -, -, hexec⟩ | ⟨-, -, hexec⟩ |
    ⟨c', cb, rfl, -, hexec⟩ <;> rw [hexec]
  · have hqueue := untouched_queueInLoop (c := c) (l := (s.conn c').home)
      (f := .of c' .connectDestoryed) hf (s :=
        { s with conncetions_ := Function.update s.conncetions_ (s.conn c').name none })
    exact ⟨hqueue.conn, hqueue.call, hqueue.loop⟩
  · exact untouched_perform hf
  · exact .refl
  · have hne : c' ≠ c := hf
    refine untouched_onLoop ⟨?_, Iff.rfl, id, fun _ => rfl⟩
    have htodo : ({ s.loop l with todo := (c', .user) :: (s.loop l).todo } : ServerLoop υ).todo =
        [Task.user].map (c', ·) ++ (s.loop l).todo := rfl
    rw [todoOf_callbacks htodo, if_neg hne, List.nil_append]

theorem untouched_runInLoop [DecidableEq υ] (hf : f.target ≠ c) :
    Untouched c s (s.runInLoop t l k f) := by
  unfold runInLoop
  split
  · exact untouched_exec hf
  · exact untouched_queueInLoop hf

/-! ### An action -/

theorem setRevents_cons (r : ℕ × Mask) (reports : List (ℕ × Mask)) : s.setRevents (r :: reports) =
    (s.onTcp r.1 fun tcp =>
      { tcp with channel_ := tcp.channel_.set_revents r.2 }).setRevents reports := rfl

theorem setRevents_of_not_mem {reports : List (ℕ × Mask)} (hc : c ∉ reports.map Prod.fst) :
    s.setRevents reports c = s.conn c := by
  induction reports generalizing s with
  | nil => rfl
  | cons r reports ih =>
    obtain ⟨hne, hrest⟩ : c ≠ r.1 ∧ c ∉ reports.map Prod.fst := by simpa using hc
    rw [setRevents_cons, ih hrest]
    exact Function.update_of_ne hne ..

/-- `fillActiveChannels` tells a channel that is reported once its events. -/
theorem setRevents_of_mem {reports : List (ℕ × Mask)} (hnodup : (reports.map Prod.fst).Nodup)
    {revt : Mask} (hmem : (c, revt) ∈ reports) : s.setRevents reports c =
      (s.onTcp c fun tcp => { tcp with channel_ := tcp.channel_.set_revents revt }).conn c := by
  induction reports generalizing s with
  | nil => cases hmem
  | cons r reports ih =>
    rw [List.map_cons, List.nodup_cons] at hnodup
    rw [setRevents_cons]
    obtain rfl | hmem := List.mem_cons.mp hmem
    · exact setRevents_of_not_mem hnodup.1
    · have hne : c ≠ r.1 := by
        rintro rfl
        exact hnodup.1 (List.mem_map.mpr ⟨_, hmem, rfl⟩)
      rw [ih hnodup.2 hmem, onTcp, onTcp, onTcp]
      simp only [Function.update_self, Function.update_of_ne hne]

variable {a : Action υ}

theorem target_of_about {k : Answer} (h : s.about c (.functor l k) = none)
    (hf : (s.loop l).rest.head? = some f) : f.target ≠ c := by
  simp only [about, hf] at h
  rcases f with c' | c' | ⟨c', g⟩ <;> simpa [ServerFunctor.target] using h

theorem fst_of_about_task {k : Answer} (h : s.about c (.task l k) = none) {r : ℕ × Task}
    (hr : (s.loop l).todo.head? = some r) : r.1 ≠ c := by
  simpa [about, hr] using h

theorem unmoved_tail (h : ∀ r ∈ (s.loop l).todo.head?, r.1 ≠ c) :
    Unmoved c (s.loop l) { s.loop l with todo := (s.loop l).todo.tail } := by
  refine ⟨?_, Iff.rfl, id, fun _ => rfl⟩
  rcases htodo : (s.loop l).todo with _ | ⟨r, rest⟩
  · simp [ServerLoop.todoOf, htodo]
  · have hne : r.1 ≠ c := h r (by simp [htodo])
    simp [ServerLoop.todoOf, htodo, hne]

/-- A loop that tests `quit_` keeps what it has. -/
theorem unmoved_testQuit (hstage : (s.loop l).stage = .test) :
    Unmoved c (s.loop l) ((s.loop l).testQuit l) := by
  obtain ⟨stage, heq, -⟩ := (s.loop l).testQuit_eq l
  rw [heq]
  exact ⟨rfl, Iff.rfl, fun _ => by rw [hstage]; rfl, fun _ => rfl⟩

/-- So does one that has returned, until its queue goes. -/
theorem unmoved_endNext (hending : (s.loop l).stage.ending = true) :
    Unmoved c (s.loop l) (s.loop l).endNext := by
  obtain ⟨hstage, heq⟩ | ⟨hstage, heq⟩ | ⟨hstage, heq⟩ := ServerLoop.endNext_cases hending <;>
    rw [heq]
  · exact ⟨rfl, Iff.rfl, fun _ => by rw [hstage]; rfl, fun _ => rfl⟩
  · exact ⟨rfl, Iff.rfl, nofun, nofun⟩
  · exact ⟨rfl, Iff.rfl, nofun, nofun⟩

theorem unmoved_take (h : ∀ f ∈ (s.loop l).rest.head?, f.target ≠ c) : Unmoved c (s.loop l)
    { s.loop l with
      ran := (s.loop l).ran ++ (s.loop l).rest.take 1
      rest := (s.loop l).rest.tail } := by
  refine ⟨rfl, Iff.rfl, id, fun _ => ?_⟩
  rcases hrest : (s.loop l).rest with _ | ⟨f, rest⟩
  · simp [ServerLoop.waiting, hrest]
  · have hne : f.target ≠ c := h f (by simp [hrest])
    simp [ServerLoop.waiting, hrest, hne]

theorem unmoved_dispatch (hat : s.At l .dispatching)
    (hhead : (s.loop l).activeChannels_.head? ≠ some c) : Unmoved c (s.loop l)
      { s.loop l with
        activeChannels_ := (s.loop l).activeChannels_.tail
        todo := ((s.loop l).activeChannels_.take 1).flatMap s.handleEvent } := by
  rcases hactive : (s.loop l).activeChannels_ with _ | ⟨c', cs⟩
  · exact ⟨by simp [ServerLoop.todoOf, hat.2.1], by simp [hactive], id, fun _ => rfl⟩
  · have hne : c' ≠ c := by simpa [hactive] using hhead
    refine ⟨?_, by simp [hactive, hne.symm], id, fun _ => rfl⟩
    have hnone : (s.handleEvent c').filter (·.1 = c) = [] := by
      refine List.filter_eq_nil_iff.mpr fun r hr => ?_
      simpa [fst_of_handleEvent hr] using hne
    simp [ServerLoop.todoOf, hat.2.1, hnone]

variable [DecidableEq υ]

/-- What an action does by itself that is not about `c` leaves `c` alone. -/
theorem Sound.untouched_book (h : s.Sound) (ha : s.Ready a) (hc : c < s.made)
    (habout : s.about c a = none) : Untouched c s (s.book a) := by
  cases a with
  | enter l =>
    have hstage : (s.loop l).stage = .outside := ha.1
    rw [TcpServer.book]
    refine untouched_onLoop ⟨rfl, Iff.rfl, fun _ => by rw [hstage]; rfl, fun _ => rfl⟩
  | test l =>
    rw [TcpServer.book]
    exact untouched_onLoop (unmoved_testQuit ha.1)
  | poll l reports =>
    obtain ⟨⟨hstage, htodo, hfree⟩, -⟩ := ha
    obtain ⟨hactive, -⟩ := (h.staged l).quiet (by simp [hstage]) (by simp [hstage])
    have hmem : c ∉ reports.map Prod.fst := by
      rintro hmem
      obtain ⟨r, hr, rfl⟩ := List.mem_map.mp hmem
      simp only [about, Option.map_eq_none_iff, List.find?_eq_none, decide_eq_true_eq] at habout
      exact habout r hr rfl
    have hloop := untouched_onLoop (s := s) (c := c) (l := l)
      (g := fun L => { L with stage := .dispatching, activeChannels_ := reports.map Prod.fst })
      ⟨rfl, by simp [hactive, hmem], fun _ => by rw [hstage]; rfl, fun _ => rfl⟩
    exact ⟨setRevents_of_not_mem hmem, hloop.call, hloop.loop⟩
  | dispatch l =>
    rw [TcpServer.book]
    exact untouched_onLoop (unmoved_dispatch ha.1 (by simpa [about] using habout))
  | task l k =>
    rw [TcpServer.book]
    exact untouched_onLoop (unmoved_tail fun r hr => fst_of_about_task habout hr)
  | ret l =>
    rw [TcpServer.book]
    refine untouched_onLoop (unmoved_tail fun r hr => ?_)
    have hhead : (s.loop l).todo.head? = some r := hr
    simpa [about, hhead] using habout
  | doPendingFunctors l =>
    obtain ⟨⟨hstage, -⟩, -⟩ := ha
    have hrest : (s.loop l).rest = [] := by
      by_contra hne
      have hrunning := (h.staged l).running hne
      rw [hstage] at hrunning
      cases hrunning
    rw [TcpServer.book]
    exact untouched_onLoop ⟨rfl, Iff.rfl, fun _ => by rw [hstage]; rfl,
      fun _ => by simp [ServerLoop.waiting, hrest]⟩
  | functor l k =>
    rw [TcpServer.book]
    exact untouched_onLoop (unmoved_take fun f hf => target_of_about habout hf)
  | donePendingFunctors l =>
    obtain ⟨⟨hstage, -⟩, -⟩ := ha
    rw [TcpServer.book]
    exact untouched_onLoop ⟨rfl, Iff.rfl, fun _ => by rw [hstage]; rfl, fun _ => rfl⟩
  | endLoop i =>
    rw [TcpServer.book]
    exact untouched_onLoop (unmoved_endNext ha)
  | quit t l =>
    rw [TcpServer.book]
    exact untouched_onLoop ⟨rfl, Iff.rfl, id, fun _ => rfl⟩
  | newConncetion sockfd =>
    exact ⟨accept_conn s sockfd (Nat.ne_of_lt hc), fun _ => rfl,
      fun _ => ⟨rfl, Iff.rfl, id, fun _ => rfl⟩⟩
  | send t c' data =>
    rw [TcpServer.book]
    split
    · exact untouched_call (by simpa [about] using habout) ha.1.1
    · exact .refl
  | sendRun t k => exact untouched_step (by simpa [about] using habout)
  | shutdown t c' =>
    rw [TcpServer.book]
    split
    · exact untouched_call (by simpa [about] using habout) ha.1.1
    · exact .refl
  | shutdownStore t =>
    have hne : s.callee t ≠ c := by simpa [about] using habout
    have hcall := untouched_step (s := s) (x := .shutStored) hne
    have htcp := untouched_onTcp (s := s) (g := fun tcp => tcp.setState .kDisconnecting) hne
    exact ⟨htcp.conn, hcall.call, htcp.loop⟩
  | shutdownRun t => exact untouched_step (by simpa [about] using habout)
  | setHighWaterMarkCallback t c' mark =>
    rw [TcpServer.book]
    exact untouched_onTcp (by simpa [about] using habout)
  | retrieve l len =>
    rw [TcpServer.book]
    split
    case h_1 r hr => exact untouched_onTcp (by simpa [about, hr] using habout)
    case h_2 => exact .refl
  | share t t' c' => exact ⟨rfl, fun _ => rfl, fun _ => .refl⟩
  | release t c' => exact ⟨rfl, fun _ => rfl, fun _ => .refl⟩
  | destroy => exact ⟨rfl, fun _ => rfl, fun _ => .refl⟩
  | destroyNext c' => exact ⟨rfl, fun _ => rfl, fun _ => .refl⟩
  | stop =>
    rw [TcpServer.book, TcpServer.stopNext]
    cases s.phase with
    | stopping i =>
      simp only
      split
      · exact ⟨rfl, fun _ => rfl, fun _ => .refl⟩
      · have hloop := untouched_onLoop (s := s) (c := c) (l := .sub i)
          (g := fun L => { L with quit_ := true }) ⟨rfl, Iff.rfl, id, fun _ => rfl⟩
        exact ⟨hloop.conn, hloop.call, hloop.loop⟩
    | _ => exact ⟨rfl, fun _ => rfl, fun _ => .refl⟩

omit [DecidableEq υ] in
theorem target_of_request (ha : s.Ready a) (hc : c < s.made) (habout : s.about c a = none)
    (hr : s.request a = some (t, l, f)) : f.target ≠ c := by
  cases asks_of_request ha hr with
  | functor _ k _ rest hrest => exact target_of_about habout (by rw [hrest]; rfl)
  | removal l' k c' hhead => exact fst_of_about_task habout hhead
  | accept sockfd => exact (Nat.ne_of_lt hc).symm
  | send _ k data hcall => simpa [about, ServerFunctor.target] using habout
  | shutdown _ hcall => simpa [about, ServerFunctor.target] using habout
  | destroy c' hc' => simpa [about, ServerFunctor.target] using habout

omit [DecidableEq υ] in
theorem conn_of_branch (habout : s.about c a = none) (hb : s.branch a = some (l, c', m)) :
    c' ≠ c := by
  cases a with
  | task l' k =>
    obtain ⟨r, hhead, hm⟩ := Option.bind_eq_some_iff.mp hb
    obtain ⟨m', -, heq⟩ := Option.map_eq_some_iff.mp hm
    obtain ⟨-, rfl, -⟩ : l' = l ∧ r.1 = c' ∧ m' = m := by simpa using heq
    exact fst_of_about_task habout hhead
  | _ => cases hb

/-- **An action that is not about a connection leaves it alone.** -/
theorem Sound.untouched_after (h : s.Sound) (ha : s.Ready a) (hc : c < s.made)
    (habout : s.about c a = none) : Untouched c s (s.after a) := by
  have hbook := h.untouched_book ha hc habout
  rcases s.after_cases a with ⟨l, c', m, hb, hafter⟩ | ⟨t, l, f, hr, hafter⟩ | ⟨-, -, hafter⟩ <;>
    rw [hafter]
  · exact hbook.trans (untouched_perform (conn_of_branch habout hb))
  · exact hbook.trans (untouched_runInLoop (target_of_request ha hc habout hr))
  · exact hbook

/-! ### The poller -/

omit [DecidableEq υ] in
/-- A method leaves its poller alone at the descriptors of others. -/
theorem poller_perform (hfd : fd ≠ (s.conn c').tcp.channel_.fd_) (l' : LoopId) :
    SameAt fd (s.loop l').poller_ ((s.perform l c' m).loop l').poller_ := by
  rw [perform_loop]
  split
  case isTrue hl =>
    rw [hl, (m.run_does _).poller]
    exact onChannels_sameAt (c := s.view c') hfd
  case isFalse => exact .refl

omit [DecidableEq υ] in
theorem poller_exec (hfd : fd ≠ (s.conn f.target).tcp.channel_.fd_ ∨
      f.isRaw = true ∧ ¬ s.Strong f.target) (l' : LoopId) :
    SameAt fd (s.loop l').poller_ ((s.exec l k f).loop l').poller_ := by
  rcases s.exec_cases l k f with ⟨c', rfl, hexec⟩ | ⟨m, -, hraw, hexec⟩ | ⟨-, -, hexec⟩ |
    ⟨c', cb, rfl, -, hexec⟩ <;> rw [hexec]
  · rw [removeConnectionInLoop, queueInLoop_loop]
    exact .refl
  · obtain hfd | ⟨hf, hdead⟩ := hfd
    · exact poller_perform hfd l'
    · exact absurd (hraw hf) hdead
  · exact .refl
  · by_cases hl : l' = l
    · rw [hl, enterCallback, onLoop_self]
      exact .refl
    · rw [enterCallback, onLoop_ne hl]
      exact .refl

/-- By itself an action changes no poller, but that of a loop that is gone, and at the descriptor
that is free. -/
theorem poller_book (ha : s.Ready a) (hc : c < s.made) (hs : s.Strong c)
    (hgone : (s.loop l).stage.gone = false) :
    SameAt (s.conn c).tcp.channel_.fd_ (s.loop l).poller_ ((s.book a).loop l).poller_ := by
  have hstep := book_loop ha l
  generalize (s.book a).loop l = L at hstep ⊢
  cases hstep with
  | test hat =>
    obtain ⟨stage, heq, -⟩ := (s.loop l).testQuit_eq l
    rw [heq]
    exact .refl
  | accept sockfd => exact closed_sameAt (ha.2.2.2 c hc hs)
  | endLoop i hl hstage =>
    rw [hstage] at hgone
    cases hgone
  | _ => exact .refl

/-- The connection an action acts on has a descriptor of its own. -/
theorem Living.fd_of_request (h : s.Living) (ha : s.Ready a) (hc : c < s.made) (hs : s.Strong c)
    (hr : s.request a = some (t, l, f)) (hne : f.target ≠ c) :
    (s.conn c).tcp.channel_.fd_ ≠ ((s.book a).conn f.target).tcp.channel_.fd_ ∨
      f.isRaw = true ∧ ¬ (s.book a).Strong f.target := by
  by_cases hold : f.target < s.made
  · obtain ⟨tcp, revt, heq, hchannel⟩ := s.book_conn a hold
    rw [heq, hchannel]
    have hdescriptors : s.Strong f.target →
        (s.conn c).tcp.channel_.fd_ ≠ (s.conn f.target).tcp.channel_.fd_ := fun hs' hfd =>
      hne (h.descriptors c f.target hs hs' hfd).symm
    cases hraw : f.isRaw with
    | false => exact .inl (hdescriptors (h.sound.strong_of_request ha hr hraw hold))
    | true =>
      by_cases hs' : (s.book a).Strong f.target
      · exact .inl (hdescriptors (h.sound.strong_book ha hold hs'))
      · exact .inr ⟨rfl, hs'⟩
  · left
    cases asks_of_request ha hr with
    | functor _ k _ rest hrest =>
      exact absurd ((h.sound.placed l).target f (ServerLoop.mem_functors_of_waiting
        (by simp [ServerLoop.waiting, hrest]))) hold
    | removal l' k c' hhead =>
      exact absurd (h.sound.made c' ((h.sound.placed l').todo _ (List.mem_of_mem_head? hhead)).2)
        hold
    | accept sockfd =>
      have hbook : ((s.book (.newConncetion sockfd)).conn s.made).tcp.channel_.fd_ = sockfd := by
        simp [book, accept, TcpConnection.new, Channel.new]
      change _ ≠ ((s.book (.newConncetion sockfd)).conn s.made).tcp.channel_.fd_
      rw [hbook]
      exact ha.2.2.2 c hc hs
    | send _ k data hcall => exact absurd (h.sound.made _ (h.sound.up_callee (by simp [hcall]))) hold
    | shutdown _ hcall => exact absurd (h.sound.made _ (h.sound.up_callee (by simp [hcall]))) hold
    | destroy c' hc' => exact absurd hc' hold

/-- **What is not about a connection leaves the poller alone at its descriptor.** -/
theorem Living.poller_after (h : s.Living) (ha : s.Ready a) (hc : c < s.made) (hs : s.Strong c)
    (hgone : (s.loop l).stage.gone = false) (habout : s.about c a = none) :
    SameAt (s.conn c).tcp.channel_.fd_ (s.loop l).poller_ ((s.after a).loop l).poller_ := by
  refine (poller_book ha hc hs hgone).trans ?_
  rcases s.after_cases a with ⟨l', c', m, hb, hafter⟩ | ⟨t, l', f, hr, hafter⟩ | ⟨-, -, hafter⟩ <;>
    rw [hafter]
  · refine poller_perform (fun hfd => ?_) l
    cases a with
    | task l'' k =>
      have hne := conn_of_branch habout hb
      obtain ⟨r, hhead, hm⟩ := Option.bind_eq_some_iff.mp hb
      obtain ⟨m', -, heq⟩ := Option.map_eq_some_iff.mp hm
      obtain ⟨rfl, rfl, -⟩ : l'' = l' ∧ r.1 = c' ∧ m' = m := by simpa using heq
      have hmem := List.mem_of_mem_head? hhead
      have hserves := (h.sound.placed l'').todo r hmem
      have hs' : s.Strong r.1 := strong_of_refers (hserves.1 ▸ h.sound.home r.1)
        (.inr (List.mem_map_of_mem hmem))
      exact hne (h.descriptors c r.1 hs hs' hfd).symm
    | _ => cases hb
  · unfold runInLoop
    split
    · exact poller_exec (h.fd_of_request ha hc hs hr (target_of_request ha hc habout hr)) l
    · rw [queueInLoop_loop]
      exact .refl
  · exact .refl

end

end TcpServer

end Mymuduo
