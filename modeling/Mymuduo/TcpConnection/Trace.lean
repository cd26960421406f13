import Mymuduo.TcpConnection.Phases

/-!
# TcpConnection/Trace — what the user sees of a connection

`connectionCallback_` when the connection comes up, `messageCallback_` for every read,
`connectionCallback_` again when it closes:

    UP  MSG*  DOWN

One event can run the close branch and the read branch, for `handleEventWithGuard` does not stop
after the first; and `handleClose` runs as often as it is called.  So the order is kept if, once
`DOWN` has been given, no branch reads anything and no event comes that would close or read
(`ordered_of_heeded`).  Everything else — what the reads return, what is queued, who sends and
shuts down meanwhile — is free.
-/

namespace Mymuduo

open Machinery TcpConnection

variable {κ τ : Type*}

/-- A call the user sees: `connectionCallback_` of `connectEstablished`, `messageCallback_`, and
`connectionCallback_` of `handleClose`. -/
inductive UserCall
  | up
  | msg
  | down
  deriving DecidableEq, Repr

/-- The user's calls a method makes. -/
def TcpConnection.Method.visible : Method τ → List UserCall
  | connectEstablished => [.up]
  | handleClose => [.down]
  | handleRead (.data []) => [.down]
  | handleRead (.data (_ :: _)) => [.msg]
  | connectDestoryed | sendInLoop _ _ _ | shutdownInLoop | handleRead (.fail _) | handleWrite _ =>
      []

/-- The read fails: it delivers nothing, and reports no end either. -/
def Answer.failsRead : Answer → Bool
  | ⟨_, .fail _⟩ => true
  | ⟨_, .data _⟩ => false

/-- **A prefix of `UP MSG* DOWN`.** -/
def Ordered (calls : List UserCall) : Prop :=
  ∃ n, calls <+: .up :: (List.replicate n .msg ++ [.down])

/-- `UP MSG*`. -/
def Upto (calls : List UserCall) : Prop := ∃ n, calls = .up :: List.replicate n .msg

/-- `UP MSG* DOWN`. -/
def Through (calls : List UserCall) : Prop := ∃ n, calls = .up :: (List.replicate n .msg ++ [.down])

section Ordered

variable {calls : List UserCall}

theorem Upto.ordered : Upto calls → Ordered calls := by
  rintro ⟨n, rfl⟩
  exact ⟨n, [.down], List.cons_append⟩

theorem Through.ordered : Through calls → Ordered calls := by
  rintro ⟨n, rfl⟩
  exact ⟨n, List.prefix_rfl⟩

theorem Upto.msg : Upto calls → Upto (calls ++ [.msg]) := by
  rintro ⟨n, rfl⟩
  exact ⟨n + 1, by rw [List.cons_append, ← List.replicate_succ']⟩

theorem Upto.down : Upto calls → Through (calls ++ [.down]) := by
  rintro ⟨n, rfl⟩
  exact ⟨n, List.cons_append⟩

end Ordered

/-! ## The branches of an event -/

/-- The event takes the close branch. -/
def Hangs (revents : Mask) : Prop := revents &&& EPOLLHUP ≠ 0#32 ∧ revents &&& EPOLLIN = 0#32

/-- The event has a bit that can close or read. -/
def Speaks (revents : Mask) : Prop :=
  revents &&& EPOLLHUP ≠ 0#32 ∨ revents &&& (EPOLLIN ||| EPOLLPRI) ≠ 0#32

instance (revents : Mask) : Decidable (Hangs revents) := inferInstanceAs (Decidable (_ ∧ _))

instance (revents : Mask) : Decidable (Speaks revents) := inferInstanceAs (Decidable (_ ∨ _))

/-- What is still to do of an event closes first and reads at most once. -/
def InOrder (todo : List Task) : Prop :=
  todo.Pairwise fun x y => y ≠ .closeCallback ∧ (x = .readCallback → y ≠ .readCallback)

theorem mem_handleEventWithGuard_close {revents : Mask} :
    .closeCallback ∈ Channel.handleEventWithGuard revents ↔ Hangs revents := by
  simp [Channel.handleEventWithGuard, Hangs]

theorem speaks_of_mem_handleEventWithGuard {revents : Mask}
    (h : .closeCallback ∈ Channel.handleEventWithGuard revents ∨
      .readCallback ∈ Channel.handleEventWithGuard revents) : Speaks revents := by
  obtain h | h := h
  · exact .inl (mem_handleEventWithGuard_close.mp h).1
  · refine .inr ?_
    simpa [Channel.handleEventWithGuard] using h

theorem inOrder_handleEventWithGuard (revents : Mask) :
    InOrder (Channel.handleEventWithGuard revents) := by
  unfold InOrder Channel.handleEventWithGuard
  split_ifs <;> simp

/-! ## The calls and the event under way -/

/-- **The calls made so far, and what is left of the event.** -/
structure Tracked (todo : List Task) (active : Bool) (revents : Mask) (calls : List UserCall) :
    Prop where
  order : InOrder todo
  idle : active = true → todo = []
  close : .closeCallback ∈ todo → Hangs revents ∧ .down ∉ calls
  read : .readCallback ∈ todo → .down ∈ calls → Hangs revents
  silent : active = true → .down ∈ calls → ¬ Speaks revents
  calls : Upto calls ∨ Through calls

namespace Tracked

variable {todo cbs : List Task} {active : Bool} {revents : Mask} {calls : List UserCall} {t : Task}

/-- `DOWN` has not been given: the calls can go on. -/
theorem upto (h : Tracked todo active revents calls) (hdown : .down ∉ calls) : Upto calls := by
  refine h.calls.resolve_right ?_
  rintro ⟨n, rfl⟩
  simp at hdown

theorem inOrder_callbacks (hcbs : ∀ u ∈ cbs, u ≠ .closeCallback ∧ u ≠ .readCallback) :
    InOrder cbs :=
  List.pairwise_of_forall_mem_list fun _ _ y hy => ⟨(hcbs y hy).1, fun _ => (hcbs y hy).2⟩

/-- The first task is done and has left callbacks to do: what remains closes and reads no more than
before. -/
theorem inOrder_tail (h : InOrder (t :: todo))
    (hcbs : ∀ u ∈ cbs, u ≠ .closeCallback ∧ u ≠ .readCallback) : InOrder (cbs ++ todo) := by
  obtain ⟨hfirst, htail⟩ := List.pairwise_cons.mp h
  refine List.pairwise_append.mpr ⟨inOrder_callbacks hcbs, htail, fun x hx y hy => ?_⟩
  exact ⟨(hfirst y hy).1, fun hread => absurd hread (hcbs x hx).2⟩

theorem mem_tail (hcbs : ∀ u ∈ cbs, u ≠ .closeCallback ∧ u ≠ .readCallback) {u : Task}
    (hu : u = .closeCallback ∨ u = .readCallback) (hmem : u ∈ cbs ++ todo) : u ∈ todo := by
  refine (List.mem_append.mp hmem).resolve_left fun h => ?_
  obtain rfl | rfl := hu
  · exact (hcbs _ h).1 rfl
  · exact (hcbs _ h).2 rfl

variable (cbs) in
/-- A task that makes no call. -/
theorem quiet (h : Tracked (t :: todo) active revents calls)
    (hcbs : ∀ u ∈ cbs, u ≠ .closeCallback ∧ u ≠ .readCallback) :
    Tracked (cbs ++ todo) active revents calls := by
  have hidle : active ≠ true := fun hactive => nomatch h.idle hactive
  refine ⟨inOrder_tail h.order hcbs, fun hactive => absurd hactive hidle, fun hmem => ?_,
    fun hmem => ?_, fun hactive => absurd hactive hidle, h.calls⟩
  · exact h.close (List.mem_cons_of_mem t (mem_tail hcbs (.inl rfl) hmem))
  · exact h.read (List.mem_cons_of_mem t (mem_tail hcbs (.inr rfl) hmem))

/-- A task that gives `DOWN`: the close branch is behind, and a read branch can only come of the
same event. -/
theorem down (h : Tracked (t :: todo) active revents calls) (hdown : .down ∉ calls)
    (ht : .readCallback ∈ todo → Hangs revents)
    (hcbs : ∀ u ∈ cbs, u ≠ .closeCallback ∧ u ≠ .readCallback) :
    Tracked (cbs ++ todo) active revents (calls ++ [.down]) := by
  have hidle : active ≠ true := fun hactive => nomatch h.idle hactive
  refine ⟨inOrder_tail h.order hcbs, fun hactive => absurd hactive hidle, fun hmem => ?_,
    fun hmem _ => ?_, fun hactive => absurd hactive hidle, .inr (h.upto hdown).down⟩
  · have htail := mem_tail hcbs (.inl rfl) hmem
    exact absurd rfl ((List.pairwise_cons.mp h.order).1 _ htail).1
  · exact ht (mem_tail hcbs (.inr rfl) hmem)

/-- A task that gives `MSG`. -/
theorem msg (h : Tracked (t :: todo) active revents calls) (hdown : .down ∉ calls)
    (hcbs : ∀ u ∈ cbs, u ≠ .closeCallback ∧ u ≠ .readCallback) :
    Tracked (cbs ++ todo) active revents (calls ++ [.msg]) := by
  have hidle : active ≠ true := fun hactive => nomatch h.idle hactive
  have hstill : UserCall.down ∉ calls ++ [.msg] := by simpa using hdown
  refine ⟨inOrder_tail h.order hcbs, fun hactive => absurd hactive hidle, fun hmem => ?_,
    fun _ hgiven => absurd hgiven hstill, fun hactive => absurd hactive hidle,
    .inl (h.upto hdown).msg⟩
  exact ⟨(h.close (List.mem_cons_of_mem t (mem_tail hcbs (.inl rfl) hmem))).1, hstill⟩

/-- A functor of the user's, between events. -/
theorem callbacks (h : Tracked [] false revents calls)
    (hcbs : ∀ u ∈ cbs, u ≠ .closeCallback ∧ u ≠ .readCallback) :
    Tracked cbs false revents calls :=
  ⟨inOrder_callbacks hcbs, nofun, fun hmem => absurd rfl (hcbs _ hmem).1,
    fun hmem => absurd rfl (hcbs _ hmem).2, nofun, h.calls⟩

/-- The channel is reported, with nothing that closes or reads once `DOWN` is given. -/
theorem poll (h : Tracked [] false revents calls) {revents' : Mask}
    (hspeaks : .down ∈ calls → ¬ Speaks revents') : Tracked [] true revents' calls :=
  ⟨h.order, fun _ => rfl, nofun, nofun, fun _ => hspeaks, h.calls⟩

/-- The event is dispatched. -/
theorem dispatch (h : Tracked [] true revents calls) :
    Tracked (Channel.handleEventWithGuard revents) false revents calls := by
  refine ⟨inOrder_handleEventWithGuard revents, nofun, fun hmem => ?_, fun hmem hdown => ?_, nofun,
    h.calls⟩
  · refine ⟨mem_handleEventWithGuard_close.mp hmem, fun hdown => ?_⟩
    exact h.silent rfl hdown (speaks_of_mem_handleEventWithGuard (.inl hmem))
  · exact absurd (speaks_of_mem_handleEventWithGuard (.inr hmem)) (h.silent rfl hdown)

end Tracked

namespace Session

variable [DecidableEq τ] {threadId_ : τ} {s : Session κ τ} {a : Action κ τ} {m : Method τ}
  {as : List (Action κ τ)} {calls : List UserCall}

/-! ## Runs -/

/-- The user's calls an action makes. -/
def visible (threadId_ : τ) (s : Session κ τ) (a : Action κ τ) : List UserCall :=
  (s.method threadId_ a).elim [] Method.visible

/-- The session, with the calls it has made. -/
def traced (threadId_ : τ) : Machine (Session κ τ × List UserCall) (Action κ τ) :=
  (steps threadId_).logged (visible threadId_)

instance [DecidableEq κ] (p : Session κ τ × List UserCall) (a : Action κ τ) :
    Decidable ((traced threadId_).enabled p a) :=
  inferInstanceAs (Decidable ((steps threadId_).enabled p.1 a))

/-- **`DOWN` is heeded**: a read after the close branch of the same event fails, and once `DOWN` is
given the kernel reports neither a hang-up nor anything to read. -/
def Heeds (p : Session κ τ × List UserCall) : Action κ τ → Prop
  | .task k => p.1.todo.head? = some .readCallback → Hangs p.1.conn.channel_.revents_ →
      k.failsRead = true
  | .poll revents => .down ∈ p.2 → ¬ Speaks revents
  | _ => True

instance (p : Session κ τ × List UserCall) : ∀ a, Decidable (Heeds p a)
  | .task _ => inferInstanceAs (Decidable (_ → _ → _))
  | .poll _ => inferInstanceAs (Decidable (_ → ¬ _))
  | .connectEstablished | .send _ _ | .sendRun _ _ | .shutdown _ | .shutdownStore _
  | .shutdownRun _ | .functor _ | .dispatch | .ret | .removeConnection | .destroy _ | .others _
  | .consume _ => isTrue trivial

/-- Only `connectEstablished` and the branches of an event make calls. -/
theorem silent_of_method (hm : s.method threadId_ a = some m) (hestablish : a ≠ .connectEstablished)
    (htask : ∀ k, a ≠ .task k) : m.callbacks = [] ∧ m.visible = [] := by
  cases runs_of_method hm with
  | connectEstablished => exact absurd rfl hestablish
  | task hfirst hm => exact absurd rfl (htask _)
  | sendRun k hcall => exact ⟨rfl, rfl⟩
  | shutdownRun => exact ⟨rfl, rfl⟩
  | @functor k f m hfirst hf => cases f <;> cases hf <;> exact ⟨rfl, rfl⟩
  | destroy => exact ⟨rfl, rfl⟩

/-- The calls, and the event the session is at. -/
def OnTrack (s : Session κ τ) (calls : List UserCall) : Prop :=
  Tracked s.todo s.active s.conn.channel_.revents_ calls

/-- **A branch of an event.** -/
theorem OnTrack.task {k : Answer} (h : s.OnTrack calls) (ha : s.Ready threadId_ (.task k))
    (hheeds : Heeds (s, calls) (.task k)) :
    ((steps threadId_).next s (.task k)).OnTrack (calls ++ visible threadId_ s (.task k)) := by
  obtain ⟨htodo, hactive, hrevents⟩ := next_event threadId_ s (.task k)
  rw [OnTrack, htodo, hactive, hrevents]
  obtain ⟨t, todo, hs⟩ : ∃ t todo, s.todo = t :: todo := by
    refine List.exists_cons_of_ne_nil fun hnil => ?_
    have huser := ha.1
    simp [userCode, hnil] at huser
  rw [OnTrack, hs] at h
  simp only [Heeds, hs, List.head?_cons] at hheeds
  simp only [visible, method, book, hs, List.head?_cons, Option.bind_some, List.tail_cons]
  cases t with
  | closeCallback =>
    obtain ⟨hhangs, hdown⟩ := h.close List.mem_cons_self
    change Tracked ([.user, .removeConnection] ++ todo) _ _ (calls ++ [.down])
    exact h.down hdown (fun _ => hhangs) (by simp)
  | readCallback =>
    simp only [Task.method, Option.elim_some]
    obtain ⟨write, readv⟩ := k
    cases readv with
    | fail errno =>
      simpa [Method.callbacks, Method.visible] using h.quiet [] (List.forall_mem_nil _)
    | data bytes =>
      have hdown : UserCall.down ∉ calls := by
        intro hdown
        cases hheeds rfl (h.read List.mem_cons_self hdown)
      cases bytes with
      | nil =>
        change Tracked ([.user, .removeConnection] ++ todo) _ _ (calls ++ [.down])
        refine h.down hdown (fun hmem => ?_) (by simp)
        exact absurd rfl (((List.pairwise_cons.mp h.order).1 _ hmem).2 rfl)
      | cons b bs =>
        change Tracked ([.user] ++ todo) _ _ (calls ++ [.msg])
        exact h.msg hdown (by simp)
  | errorCallback => simpa [Task.method] using h.quiet [] (List.forall_mem_nil _)
  | writeCallback =>
    simpa [Task.method, Method.callbacks, Method.visible] using h.quiet [] (List.forall_mem_nil _)
  | removeConnection => simpa [Task.method] using h.quiet [] (List.forall_mem_nil _)
  | user =>
    have huser := ha.1
    simp [userCode, hs] at huser

/-- **Every action that heeds `DOWN` keeps the calls in order.** -/
theorem OnTrack.next (h : s.OnTrack calls) (hest : s.established = true)
    (ha : s.Ready threadId_ a) (hheeds : Heeds (s, calls) a) :
    ((steps threadId_).next s a).OnTrack (calls ++ visible threadId_ s a) := by
  by_cases htask : ∃ k, a = .task k
  · obtain ⟨k, rfl⟩ := htask
    exact h.task ha hheeds
  obtain ⟨htodo, hactive, hrevents⟩ := next_event threadId_ s a
  have hbook := book_event threadId_ s a
  have hestablish : a ≠ .connectEstablished := by
    rintro rfl
    exact absurd (ha.1.symm.trans hest) nofun
  -- the method, if there is one, makes no call
  have hsilent : (s.method threadId_ a).elim [] Method.callbacks = [] ∧
      visible threadId_ s a = [] := by
    cases hm : s.method threadId_ a with
    | none => exact ⟨rfl, by rw [visible, hm]; rfl⟩
    | some m =>
      obtain ⟨hcbs, hvis⟩ := silent_of_method hm hestablish fun k hk => htask ⟨k, hk⟩
      exact ⟨hcbs, by rw [visible, hm]; exact hvis⟩
  rw [OnTrack, htodo, hactive, hrevents, hsilent.1, hsilent.2, List.nil_append, List.append_nil]
  rw [OnTrack] at h
  cases a with
  | functor k =>
    obtain ⟨-, hidle, hinactive, -⟩ := ha
    simp only [Prod.mk.injEq] at hbook
    rw [hbook.1, hbook.2.1, hbook.2.2, hinactive]
    rw [hidle, hinactive] at h
    refine h.callbacks fun u hu => ?_
    split at hu
    · rw [List.mem_singleton.mp hu]
      exact ⟨nofun, nofun⟩
    · cases hu
  | poll revents =>
    obtain ⟨-, hidle, hinactive, -⟩ := ha
    simp only [Prod.mk.injEq] at hbook
    rw [hbook.1, hbook.2.1, hbook.2.2, hidle]
    rw [hidle, hinactive] at h
    exact h.poll hheeds
  | dispatch =>
    obtain ⟨hready, hidle, -⟩ := ha
    simp only [Prod.mk.injEq] at hbook
    rw [hbook.1, hbook.2.1, hbook.2.2]
    rw [hidle, hready] at h
    exact h.dispatch
  | task k => exact absurd ⟨k, rfl⟩ htask
  | ret =>
    obtain ⟨hfirst, -⟩ := ha
    obtain ⟨todo, hs⟩ := List.head?_eq_some_iff.mp hfirst
    simp only [Prod.mk.injEq] at hbook
    rw [hbook.1, hbook.2.1, hbook.2.2, hs]
    rw [hs] at h
    exact h.quiet [] nofun
  | connectEstablished => exact absurd rfl hestablish
  | _ =>
    simp only [Prod.mk.injEq] at hbook
    rw [hbook.1, hbook.2.1, hbook.2.2]
    exact h

/-- A session is new and has made no call, or its calls are in order. -/
def Tracing (p : Session κ τ × List UserCall) : Prop :=
  p.1.Initial ∧ p.2 = [] ∨ p.1.established = true ∧ p.1.OnTrack p.2

omit [DecidableEq τ] in
theorem Tracing.ordered {p : Session κ τ × List UserCall} (h : Tracing p) : Ordered p.2 := by
  obtain ⟨-, hnone⟩ | ⟨-, htrack⟩ := h
  · rw [hnone]
    exact ⟨0, List.nil_prefix⟩
  · exact htrack.calls.elim Upto.ordered Through.ordered

omit [DecidableEq τ] in
theorem onTrack_connectEstablished (c : TcpConnection κ τ) :
    ((new c).perform .connectEstablished).OnTrack [.up] :=
  ⟨List.pairwise_singleton _ Task.user, nofun, nofun, nofun, nofun, .inl ⟨0, rfl⟩⟩

theorem Tracing.next {p : Session κ τ × List UserCall} (h : Tracing p)
    (ha : (traced threadId_).enabled p a) (hheeds : Heeds p a) :
    Tracing ((traced threadId_).next p a) := by
  obtain ⟨s, calls⟩ := p
  obtain ⟨hinit, rfl⟩ | ⟨hest, htrack⟩ := h
  · obtain rfl | ⟨p, rfl⟩ := hinit.action ha.1
    · obtain ⟨c, -, rfl⟩ := hinit
      exact .inr ⟨rfl, onTrack_connectEstablished c⟩
    · obtain hinit | ⟨c, -, hs⟩ := hinit.next ha
      · exact .inl ⟨hinit, rfl⟩
      · exact absurd (congrArg Session.established hs) (by obtain ⟨c, -, rfl⟩ := hinit; nofun)
  · exact .inr ⟨next_established ha.1 hest, htrack.next hest ha.1 hheeds⟩

/-- **The user's calls come in order.**  From construction on, whatever the events, what each read
returns and what is queued meanwhile: where `DOWN` is heeded, the calls made so far are a prefix of
`UP MSG* DOWN`. -/
theorem ordered_of_heeded (hinit : s.Initial) (hvalid : (traced threadId_).Valid (s, []) as)
    (hheeds : (traced threadId_).Along Heeds (s, []) as) :
    Ordered ((traced threadId_).run (s, []) as).2 := by
  have hrun := Machine.along_and.mpr ⟨hvalid, hheeds⟩
  have hend := hrun.invariant (I := Tracing) (fun _ _ h ha => h.next ha.1 ha.2) (.inl ⟨hinit, rfl⟩)
  exact hend.ordered

/-- A peer that sends, closes and is hung up on. -/
theorem ordered_of_heeded_peer :
    Ordered ((traced ()).run ((new (.new () 7 .new), []) : Session Unit Unit × _)
      [.connectEstablished, .ret, .poll EPOLLIN, .dispatch, .task ⟨⟨-1, 0, 0⟩, .data []⟩, .ret,
        .task ⟨⟨-1, 0, 0⟩, .data []⟩, .removeConnection, .functor ⟨⟨-1, 0, 0⟩, .data []⟩]).2 :=
  ordered_of_heeded ⟨_, constructed_new _ _ rfl rfl, rfl⟩
    ((Machine.logged_valid ..).mpr (by decide +kernel)) (by decide)

/-- **A hang-up with urgent data pending**: the close branch runs, then the read branch, which finds
the end of the stream and closes again. -/
theorem not_ordered_hup :
    (new (.new () 7 .new) : Session Unit Unit).Initial ∧
    (traced ()).Valid ((new (.new () 7 .new), []) : Session Unit Unit × _)
      [.connectEstablished, .ret, .poll (EPOLLHUP ||| EPOLLPRI), .dispatch,
        .task ⟨⟨-1, 0, 0⟩, .data []⟩, .ret, .task ⟨⟨-1, 0, 0⟩, .data []⟩, .task ⟨⟨-1, 0, 0⟩, .data []⟩] ∧
    ¬ Ordered ((traced ()).run ((new (.new () 7 .new), []) : Session Unit Unit × _)
      [.connectEstablished, .ret, .poll (EPOLLHUP ||| EPOLLPRI), .dispatch,
        .task ⟨⟨-1, 0, 0⟩, .data []⟩, .ret, .task ⟨⟨-1, 0, 0⟩, .data []⟩,
        .task ⟨⟨-1, 0, 0⟩, .data []⟩]).2 := by
  refine ⟨⟨_, constructed_new _ _ rfl rfl, rfl⟩,
    (Machine.logged_valid ..).mpr (by decide +kernel), ?_⟩
  rintro ⟨n, h⟩
  have hcalls : [UserCall.up, .down, .down] <+: .up :: (List.replicate n .msg ++ [.down]) := h
  cases n with
  | zero => simp at hcalls
  | succ n => simp [List.replicate_succ] at hcalls

end Session

end Mymuduo
