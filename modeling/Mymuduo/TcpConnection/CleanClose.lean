import Mymuduo.TcpConnection.Inert
import Mymuduo.TcpConnection.SendContract

/-!
# TcpConnection/CleanClose — when a closed connection stays inert

What a closed connection can still be made to do (`TcpConnection/Inert`) comes from what was under
way when it closed: a message past the test of `send`, a second branch of the same event, a branch
the destructor overtakes.  So it stays inert in every run in which

* no message is on its way at the close;
* the kernel reports no hang-up that is followed by a read branch, `EPOLLHUP | EPOLLPRI`;
* the destructor, on the loop's thread, comes between two events.

From the close on `send` then lets nothing through, the kernel reports nothing, and what is left to
run finds nothing to do (`inert_of_closesClean`).
-/

namespace Mymuduo

open Machinery TcpConnection

variable {κ τ : Type*}

/-- The branches of an event that may close the connection. -/
def Task.mayClose : Task → Bool
  | closeCallback | readCallback => true
  | errorCallback | writeCallback | user | removeConnection => false

/-- The branches of an event that act on it. -/
def Task.acts : Task → Bool
  | closeCallback | readCallback | writeCallback => true
  | errorCallback | user | removeConnection => false

/-- **An event runs the close branch and the read branch.** -/
def Overlaps (revents : Mask) : Prop :=
  revents &&& EPOLLHUP ≠ 0#32 ∧ revents &&& EPOLLIN = 0#32 ∧ revents &&& EPOLLPRI ≠ 0#32

instance (revents : Mask) : Decidable (Overlaps revents) := inferInstanceAs (Decidable (_ ∧ _ ∧ _))

/-- Any other runs one of them at most. -/
theorem countP_handleEventWithGuard {revents : Mask} (h : ¬ Overlaps revents) :
    (Channel.handleEventWithGuard revents).countP Task.mayClose ≤ 1 := by
  by_cases hclose : revents &&& EPOLLHUP ≠ 0#32 ∧ revents &&& EPOLLIN = 0#32
  · have hread : revents &&& (EPOLLIN ||| EPOLLPRI) = 0#32 := by
      rw [BitVec.and_or_distrib_left, hclose.2, BitVec.zero_or]
      by_contra hpri
      exact h ⟨hclose.1, hclose.2, hpri⟩
    simp only [Channel.handleEventWithGuard, hclose, hread, ne_eq, not_true_eq_false, if_false,
      List.append_nil, List.countP_append]
    split_ifs <;> simp [Task.mayClose]
  · simp only [Channel.handleEventWithGuard, hclose, if_false, List.nil_append, List.countP_append]
    split_ifs <;> simp [Task.mayClose]

namespace TcpConnection

variable {c : TcpConnection κ τ} {m : Method τ}

/-- What a method leaves to do is none of them. -/
theorem countP_callbacks (m : Method τ) : m.callbacks.countP Task.mayClose = 0 := by
  cases m with
  | handleRead k =>
    cases k with
    | fail errno => rfl
    | data d => cases d <;> rfl
  | _ => rfl

theorem writeCallback_notMem_callbacks (m : Method τ) : .writeCallback ∉ m.callbacks := by
  cases m with
  | handleRead k =>
    cases k with
    | fail errno => simp [Method.callbacks]
    | data d => cases d <;> simp [Method.callbacks]
  | _ => simp [Method.callbacks]

theorem index_run_connectDestoryed (c : TcpConnection κ τ) :
    (Method.run .connectDestoryed c).channel_.index_ = .kNew := by
  rw [(Method.run_does .connectDestoryed c).channel]
  by_cases hs : c.state_ = .kConnected <;>
    simp [Method.effect, hs, Effect.none, onChannels, onChannel] <;> rfl

/-- `handleClose` takes a registered channel out of the kernel's set, and clears its mask. -/
theorem handleClose_silences (hc : c.Agrees) (hadded : c.channel_.index_ = .kAdded) :
    c.handleClose.channel_.index_ ≠ .kAdded ∧ c.handleClose.channel_.isWriting = false := by
  have hindex := ChannelOp.index_call hc
    (show ChannelOp.disableAll.mask? _ = some Channel.kNoneEvent from rfl)
  refine ⟨?_, ChannelOp.isWriting_disableAll ..⟩
  have hchannel := (Method.run_does .handleClose c).channel
  rw [show c.handleClose.channel_ = _ from hchannel]
  simp [Method.effect, onChannels, onChannel, hindex, hadded]

end TcpConnection

namespace Session

variable [DecidableEq τ] {threadId_ : τ} {s : Session κ τ} {a : Action κ τ} {m : Method τ}
  {as : List (Action κ τ)}

/-! ## One branch at a time -/

/-- No two branches that may close are left of an event. -/
structure Spaced (s : Session κ τ) : Prop where
  turn : s.active = true → s.todo = [] ∧
    (Channel.handleEventWithGuard s.conn.channel_.revents_).countP Task.mayClose ≤ 1
  branches : s.todo.countP Task.mayClose ≤ 1

theorem Spaced.book (h : s.Spaced) (ha : s.Ready threadId_ a)
    (hpoll : ∀ revents, a = .poll revents → ¬ Overlaps revents) :
    (s.book threadId_ a).Spaced := by
  have hevent := book_event threadId_ s a
  have htail : s.todo.tail.countP Task.mayClose ≤ 1 :=
    ((List.tail_sublist _).countP_le).trans h.branches
  cases a with
  | functor k =>
    refine ⟨fun hactive => (by cases hactive.symm.trans ha.2.2.1), ?_⟩
    simp only [Session.book]
    split <;> simp [Task.mayClose]
  | poll revents =>
    exact ⟨fun _ => ⟨ha.2.1, countP_handleEventWithGuard (hpoll _ rfl)⟩, h.branches⟩
  | dispatch => exact ⟨fun hactive => (by cases hactive), (h.turn ha.1).2⟩
  | task k =>
    exact ⟨fun hactive => ⟨congrArg List.tail (h.turn hactive).1, (h.turn hactive).2⟩, htail⟩
  | ret =>
    exact ⟨fun hactive => ⟨congrArg List.tail (h.turn hactive).1, (h.turn hactive).2⟩, htail⟩
  | _ =>
    obtain ⟨htodo, hactive, hrevents⟩ : _ ∧ _ ∧ _ := by simpa only [Prod.mk.injEq] using hevent
    refine ⟨?_, ?_⟩
    · rw [htodo, hactive, hrevents]
      exact h.turn
    · rw [htodo]
      exact h.branches

theorem Spaced.next (h : s.Spaced) (hlive : s.Live) (ha : (steps threadId_).enabled s a)
    (hpoll : ∀ revents, a = .poll revents → ¬ Overlaps revents) :
    ((steps threadId_).next s a).Spaced := by
  have hbook := h.book ha.1 hpoll
  obtain ⟨htodo, hactive, hrevents⟩ := next_event threadId_ s a
  refine ⟨fun hact => ?_, ?_⟩
  · rw [hactive] at hact
    obtain ⟨hnil, hcount⟩ := hbook.turn hact
    rw [htodo, hrevents, hnil, List.append_nil]
    refine ⟨?_, hcount⟩
    cases hm : s.method threadId_ a with
    | none => rfl
    | some m =>
      have he := hlive.method_isEstablish ha hm
      cases runs_of_method hm with
      | connectEstablished => cases he
      | @task k t m hfirst ht =>
        -- the channel has no turn to come while one of its branches runs
        have hnil := (h.turn hact).1
        rw [hnil] at hfirst
        cases hfirst
      | @functor k f m hfirst hf => cases f <;> cases hf <;> rfl
      | _ => rfl
  · rw [htodo, List.countP_append]
    cases s.method threadId_ a with
    | none => simpa using hbook.branches
    | some m => simpa [countP_callbacks] using hbook.branches

/-! ## After the close -/

/-- **The threads, the kernel and the server keep the close clean.** -/
def ClosesClean (threadId_ : τ) (s : Session κ τ) (a : Action κ τ) : Prop :=
  (s.closed = false → (s.method threadId_ a).any Method.closes = true → s.Settled) ∧
  match a with
  | .poll revents => ¬ Overlaps revents
  | .destroy t => t = threadId_ → s.active = false ∧ ∀ x ∈ s.todo, x.acts = false
  | _ => True

/-- A closed connection with nothing to come that could act on it. -/
structure Spent (s : Session κ τ) : Prop where
  settled : s.Settled
  active : s.active = false
  branches : s.todo.countP Task.mayClose = 0
  index : s.conn.channel_.index_ ≠ .kAdded
  silent : .writeCallback ∈ s.todo → s.conn.channel_.isWriting = false

/-- The methods left to run on it. -/
theorem Spent.runs (h : s.Spent) (hlive : s.Live) (ha : (steps threadId_).enabled s a)
    (hm : s.method threadId_ a = some m) : m = .connectDestoryed ∨ m = .shutdownInLoop ∨
      ∃ r, m = .handleWrite r ∧ s.conn.channel_.isWriting = false := by
  have he := hlive.method_isEstablish ha hm
  have hsend := h.settled.isSendInLoop ha.1 hm
  cases runs_of_method hm with
  | connectEstablished => cases he
  | sendRun k hcall => cases hsend
  | shutdownRun => exact .inr (.inl rfl)
  | @functor k f m hfirst hf =>
    cases f with
    | connectDestoryed =>
      cases hf
      exact .inl rfl
    | shutdownInLoop =>
      cases hf
      exact .inr (.inl rfl)
    | sendInLoop caller data =>
      cases hf
      cases hsend
    | writeCompleteCallback => cases hf
    | highWaterMarkCallback len => cases hf
  | @task k t m hfirst ht =>
    have hmem := List.mem_of_mem_head? hfirst
    have hnone := List.countP_eq_zero.mp h.branches t hmem
    cases t with
    | closeCallback => exact absurd rfl hnone
    | readCallback => exact absurd rfl hnone
    | writeCallback =>
      cases ht
      exact .inr (.inr ⟨_, rfl, h.silent hmem⟩)
    | _ => cases ht
  | destroy => exact .inl rfl

/-- None of them stirs it. -/
theorem Spent.unstirred (h : s.Spent) (hlive : s.Live) (ha : (steps threadId_).enabled s a) :
    ∀ m ∈ s.method threadId_ a, ¬ s.conn.Stirs m := by
  intro m hm
  obtain rfl | rfl | ⟨r, rfl, hw⟩ := h.runs hlive ha hm
  · exact id
  · exact id
  · intro hstirs
    cases hstirs.symm.trans hw

/-- Nor does it register the channel, or have it ask for writing. -/
theorem Spent.channel_next (h : s.Spent) (hlive : s.Live) (ha : (steps threadId_).enabled s a) :
    ((steps threadId_).next s a).conn.channel_.index_ ≠ .kAdded ∧
      (s.conn.channel_.isWriting = false →
        ((steps threadId_).next s a).conn.channel_.isWriting = false) := by
  have hframe := book_frame ha.1
  have hindex : (s.book threadId_ a).conn.channel_.index_ ≠ .kAdded := by
    rw [hframe.index]
    exact h.index
  cases hm : s.method threadId_ a with
  | none =>
    rw [next_of_none hm]
    exact ⟨hindex, hframe.isWriting.trans⟩
  | some m =>
    rw [next_of_some hm]
    refine ⟨?_, fun hw => isWriting_run_of_not_writing (h.settled.isSendInLoop ha.1 hm)
      (hframe.isWriting.trans hw)⟩
    obtain rfl | rfl | ⟨r, rfl, hw⟩ := h.runs hlive ha hm
    · simp [Session.perform, index_run_connectDestoryed]
    · rwa [Session.perform, (Method.run_does _ _).channel]
    · rw [Session.perform, (Method.run_does _ _).channel]
      simpa [Method.effect, hframe.isWriting.trans hw, Effect.none] using hindex

/-- The kernel reports nothing more to it. -/
theorem Spent.book (h : s.Spent) (hlive : s.Live) (ha : s.Ready threadId_ a) :
    (s.book threadId_ a).active = false ∧ ∃ l, (s.book threadId_ a).todo = l ∧
      (l <:+ s.todo ∨ l = [.user]) := by
  have hevent := book_event threadId_ s a
  cases a with
  | poll revents =>
    have hnone : s.conn.poller_.interest s.conn.channel_.fd_ = none := by
      rw [hlive.agrees.interest, if_neg h.index]
    have hreports := ha.1
    rw [Reports, hnone] at hreports
    exact hreports.elim
  | dispatch => cases ha.1.symm.trans h.active
  | functor k =>
    refine ⟨h.active, _, rfl, ?_⟩
    simp only [Session.book]
    split
    · exact .inr rfl
    · exact .inl (List.nil_suffix)
  | task k => exact ⟨h.active, _, rfl, .inl (List.tail_suffix _)⟩
  | ret => exact ⟨h.active, _, rfl, .inl (List.tail_suffix _)⟩
  | _ =>
    obtain ⟨htodo, hactive, -⟩ : _ ∧ _ ∧ _ := by simpa only [Prod.mk.injEq] using hevent
    exact ⟨hactive.trans h.active, _, rfl, .inl (htodo ▸ List.suffix_refl _)⟩

theorem Spent.next (h : s.Spent) (hlive : s.Live) (hclosed : s.closed = true)
    (ha : (steps threadId_).enabled s a) : ((steps threadId_).next s a).Spent := by
  obtain ⟨hactive, l, hl, hsub⟩ := h.book hlive ha.1
  obtain ⟨htodo, hactive', -⟩ := next_event threadId_ s a
  obtain ⟨hindex, hwriting⟩ := h.channel_next hlive ha
  have hcount : l.countP Task.mayClose = 0 := by
    obtain hsuffix | rfl := hsub
    · exact Nat.le_zero.mp (h.branches ▸ hsuffix.sublist.countP_le)
    · rfl
  have hwrite : .writeCallback ∈ l → .writeCallback ∈ s.todo := by
    obtain hsuffix | rfl := hsub
    · exact fun hmem => hsuffix.mem hmem
    · exact fun hmem => absurd hmem (by decide)
  refine ⟨h.settled.next ha.1 fun _ _ _ => (hlive.down hclosed).ne_connected,
    hactive'.trans hactive, ?_, hindex, fun hmem => ?_⟩
  · rw [htodo, hl, List.countP_append, hcount]
    cases s.method threadId_ a with
    | none => rfl
    | some m => exact countP_callbacks m
  · rw [htodo, hl, List.mem_append] at hmem
    refine hwriting (h.silent (hwrite (hmem.resolve_left ?_)))
    cases s.method threadId_ a with
    | none => exact List.not_mem_nil
    | some m => exact writeCallback_notMem_callbacks m

/-- What a close leaves to come, and of the channel. -/
structure Left (s : Session κ τ) (m : Method τ) : Prop where
  active : s.active = false
  branches : s.todo.countP Task.mayClose = 0
  index : (m.run s.conn).channel_.index_ ≠ .kAdded
  silent : .writeCallback ∈ s.todo → (m.run s.conn).channel_.isWriting = false

/-- The close branch, and the read branch that finds the end, are the last of their event. -/
theorem Spaced.left_of_task {k : Answer} {t : Task} (h : s.Spaced) (hlive : s.Live)
    (ha : s.Ready threadId_ (.task k)) (hopen : s.closed = false) (hfirst : s.todo.head? = some t)
    (hclose : t.mayClose = true)
    (hm : ∀ c : TcpConnection κ τ, (m.run c).channel_ = c.handleClose.channel_) :
    (s.book threadId_ (.task k)).Left m := by
  have hframe := book_frame ha
  obtain ⟨hindex, hwriting⟩ := handleClose_silences (hframe.agrees hlive.agrees)
    (hframe.index.trans (hlive.registered hopen))
  obtain ⟨rest, hrest⟩ := List.head?_eq_some_iff.mp hfirst
  have hactive : s.active = false := by
    by_contra hactive
    have hnil := (h.turn (by simpa using hactive)).1
    rw [hnil] at hrest
    cases hrest
  have hcount : rest.countP Task.mayClose = 0 := by
    have hone := h.branches
    rw [hrest, List.countP_cons_of_pos hclose] at hone
    omega
  refine ⟨hactive, ?_, hm _ ▸ hindex, fun _ => hm _ ▸ hwriting⟩
  simpa [Session.book, hrest] using hcount

theorem Live.left_of_closes (h : s.Live) (hspaced : s.Spaced) (ha : (steps threadId_).enabled s a)
    (hopen : s.closed = false) (hm : s.method threadId_ a = some m) (hcloses : m.closes = true)
    (hclean : ClosesClean threadId_ s a) : (s.book threadId_ a).Left m := by
  cases runs_of_method hm with
  | connectEstablished => cases hcloses
  | sendRun k hcall => cases hcloses
  | shutdownRun => cases hcloses
  | @functor k f m hfirst hf =>
    cases f with
    | connectDestoryed =>
      cases hf
      have hnil : (s.book threadId_ (.functor k)).todo = [] := by
        simp [Session.book, hfirst, PendingFunctor.isCallback]
      refine ⟨ha.1.2.2.1, by rw [hnil]; rfl, by simp [index_run_connectDestoryed], ?_⟩
      rw [hnil]
      exact fun hmem => absurd hmem List.not_mem_nil
    | sendInLoop caller data =>
      cases hf
      cases hcloses
    | shutdownInLoop =>
      cases hf
      cases hcloses
    | writeCompleteCallback => cases hf
    | highWaterMarkCallback len => cases hf
  | @task k t m hfirst ht =>
    cases t with
    | closeCallback =>
      cases ht
      exact hspaced.left_of_task h ha.1 hopen hfirst rfl fun _ => rfl
    | readCallback =>
      cases ht
      have hk : k.readv = .data [] := by simpa [Method.closes] using hcloses
      refine hspaced.left_of_task h ha.1 hopen hfirst rfl fun c => ?_
      rw [(Method.run_does _ c).channel, show c.handleClose.channel_ = _ from
        (Method.run_does .handleClose c).channel]
      simp [Method.effect, hk]
    | writeCallback =>
      cases ht
      cases hcloses
    | _ => cases ht
  | destroy =>
    obtain ⟨hactive, hquiet⟩ := hclean.2 rfl
    have hsame : (s.book threadId_ (.destroy threadId_)).todo = s.todo := rfl
    refine ⟨hactive, ?_, by simp [index_run_connectDestoryed], fun hmem => ?_⟩
    · rw [hsame]
      refine List.countP_eq_zero.mpr fun x hx hclose => ?_
      have hacts := hquiet x hx
      cases x with
      | closeCallback => cases hacts
      | readCallback => cases hacts
      | _ => cases hclose
    · cases hquiet _ hmem

/-- So the close leaves the connection spent. -/
theorem Live.spent_of_closes (h : s.Live) (hspaced : s.Spaced)
    (ha : (steps threadId_).enabled s a) (hopen : s.closed = false)
    (hm : s.method threadId_ a = some m) (hcloses : m.closes = true)
    (hclean : ClosesClean threadId_ s a) : ((steps threadId_).next s a).Spent := by
  obtain ⟨hactive, hbranches, hindex, hsilent⟩ :=
    h.left_of_closes hspaced ha hopen hm hcloses hclean
  obtain ⟨htodo, hactive', -⟩ := next_event threadId_ s a
  have hsettled := hclean.1 hopen (by rw [hm]; exact hcloses)
  rw [hm, Option.elim_some] at htodo
  have hnext : ((steps threadId_).next s a).conn = m.run (s.book threadId_ a).conn := by
    rw [next_of_some hm]
    rfl
  refine ⟨hsettled.next ha.1 ?_, hactive'.trans hactive, ?_, hnext ▸ hindex, fun hmem => ?_⟩
  · rintro t data rfl
    cases hm
  · rw [htodo, List.countP_append, countP_callbacks, hbranches]
  · rw [htodo, List.mem_append] at hmem
    rw [hnext]
    exact hsilent (hmem.resolve_left (writeCallback_notMem_callbacks m))

/-- A session is new, or its event is run branch by branch, and closed it is spent. -/
def Clean (s : Session κ τ) : Prop := s.Initial ∨ s.Live ∧ s.Spaced ∧ (s.closed = true → s.Spent)

theorem Clean.next (h : s.Clean) (ha : (steps threadId_).enabled s a)
    (hclean : ClosesClean threadId_ s a) : ((steps threadId_).next s a).Clean := by
  obtain hi | ⟨hlive, hspaced, hspent⟩ := h
  · obtain hi | ⟨c, hc, hs⟩ := hi.next ha
    · exact .inl hi
    · refine .inr (hs ▸ ⟨live_connectEstablished hc, ⟨fun hactive => ?_, Nat.zero_le _⟩,
        fun hclosed => ?_⟩)
      · cases hactive
      · cases hclosed
  · have hpoll : ∀ revents, a = .poll revents → ¬ Overlaps revents := by
      rintro revents rfl
      exact hclean.2
    refine .inr ⟨hlive.next ha, hspaced.next hlive ha hpoll, fun hclosed => ?_⟩
    rw [next_closed ha.1] at hclosed
    cases hc : s.closed with
    | true => exact (hspent hc).next hlive hc ha
    | false =>
      rw [hc, Bool.false_or] at hclosed
      obtain ⟨m, hm, hcloses⟩ : ∃ m, s.method threadId_ a = some m ∧ m.closes = true := by
        simpa [Option.any_eq_true] using hclosed
      exact hlive.spent_of_closes hspaced ha hc hm hcloses hclean

/-- **A connection that closes cleanly stays inert.** -/
theorem inert_of_closesClean (hinit : s.Initial) (hvalid : (steps threadId_).Valid s as)
    (h : (steps threadId_).Along (ClosesClean threadId_) s as) :
    (steps threadId_).Along (Inert threadId_) s as := by
  refine (Machine.along_and.mpr ⟨hvalid, h⟩).imp_of_invariant (I := Clean)
    (fun s a hs ha => hs.next ha.1 ha.2) (fun s a hs ha => ?_) (.inl hinit)
  refine (inert_iff_unstirred (hs.imp_right And.left) ha.1).mpr fun hclosed => ?_
  obtain ⟨c, -, rfl⟩ | ⟨hlive, -, hspent⟩ := hs
  · cases hclosed
  · exact (hspent hclosed).unstirred hlive ha.1

end Session

end Mymuduo
