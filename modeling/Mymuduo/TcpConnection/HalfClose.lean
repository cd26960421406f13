import Mymuduo.TcpConnection.SendContract

/-!
# TcpConnection/HalfClose — `shutdown`, and the bytes that go before it

The write side is shut in two places: by `shutdownInLoop`, if the channel is not writing, and by the
`handleWrite` that drains the buffer, if `state_` is `kDisconnecting`.  Between the two nothing
falls through as long as `state_` stays `kDisconnecting` once `shutdown` has stored it:

    shutdown returned  ⟹  write side shut, or shutdownInLoop queued, or the channel is writing

Two things spoil it.  `shutdown` does nothing unless it finds `kDisconnected`, where its test should
be for `kConnected`; and a `sendInLoop` that runs later assigns `kDisconnected`.  Nor does
`shutdown` wait for what is queued.  Where it is called after a `sendInLoop` has run, and with no
message on its way, the write side is shut last and for certain (`halfClose_of_orderly`).
-/

namespace Mymuduo

open Machinery TcpConnection

variable {κ τ : Type*}

namespace TcpConnection

variable {c : TcpConnection κ τ} {m : Method τ}

/-- **The two places**: the channel is not writing, or the buffer is drained in `kDisconnecting`. -/
theorem method_of_shutdownWrite (h : .shutdownWrite ∈ (m.effect c).calls) :
    m = .shutdownInLoop ∧ c.channel_.isWriting = false ∨
      ∃ r, m = .handleWrite r ∧ c.channel_.isWriting = true ∧ c.Drains r ∧
        c.state_ = .kDisconnecting := by
  cases m with
  | shutdownInLoop =>
    by_cases hw : c.channel_.isWriting = true
    · simp [Method.effect, hw] at h
    · exact .inl ⟨rfl, by simpa using hw⟩
  | handleWrite r =>
    by_cases hw : c.channel_.isWriting = true
    · by_cases hdrain : c.Drains r ∧ c.state_ = .kDisconnecting
      · exact .inr ⟨r, rfl, hw, hdrain⟩
      · simp [Method.effect, hw, hdrain] at h
    · simp [Method.effect, hw, Effect.none] at h
  | sendInLoop caller data r =>
    simp only [Method.effect] at h
    split at h <;> simp at h
  | connectEstablished => simp [Method.effect, Effect.none] at h
  | connectDestoryed =>
    simp only [Method.effect] at h
    split at h <;> simp [Effect.none] at h
  | handleRead k =>
    simp only [Method.effect] at h
    split at h <;> simp [Effect.none] at h
  | handleClose => simp [Method.effect, Effect.none] at h

theorem shutdownWrite_mem_calls (h : .shutdownWrite ∈ (m.effect c).calls) :
    m = .shutdownInLoop ∧ c.channel_.isWriting = false ∨
      c.state_ = .kDisconnecting ∧ (m.effect c).content = [] := by
  obtain hloop | ⟨r, rfl, hw, hdrain, hs⟩ := method_of_shutdownWrite h
  · exact .inl hloop
  · exact .inr ⟨hs, by simpa [Method.effect, hw] using hdrain.2⟩

/-- Either leaves the channel not writing. -/
theorem isWriting_run_of_shutdownWrite (h : .shutdownWrite ∈ (m.effect c).calls) :
    (m.run c).channel_.isWriting = false := by
  obtain ⟨rfl, hw⟩ | ⟨r, rfl, hw, hdrain, -⟩ := method_of_shutdownWrite h
  · exact isWriting_run_of_not_writing rfl hw
  · rw [(Method.run_does _ _).channel]
    simp [Method.effect, hw, hdrain, onChannels, onChannel]

theorem writeShut_run (h : c.WriteShut) : (m.run c).WriteShut := by
  rw [WriteShut, (m.run_does c).calls]
  exact List.mem_append_left _ h

/-- A channel that stops writing in `kDisconnecting` has its write side shut. -/
theorem isWriting_run (hm : m.closes = false) (hstate : c.state_ = .kDisconnecting)
    (hw : c.channel_.isWriting = true) :
    (m.run c).channel_.isWriting = true ∨ (m.run c).WriteShut := by
  have hdoes := m.run_does c
  rw [WriteShut, hdoes.channel, hdoes.calls]
  cases m with
  | handleWrite r =>
    by_cases hdrain : c.Drains r
    · exact .inr (by simp [Method.effect, hw, hdrain, hstate])
    · exact .inl (by simp [Method.effect, hw, hdrain])
  | connectEstablished => exact .inl (by simp [Method.effect, onChannels, onChannel, hw])
  | sendInLoop caller data r => exact .inl (by simp [Method.effect, hw])
  | shutdownInLoop => exact .inl hw
  | handleRead k =>
    have hk : k ≠ .data [] := by simpa [Method.closes] using hm
    exact .inl (by simp [Method.effect, hk, Effect.none, hw])
  | connectDestoryed => cases hm
  | handleClose => cases hm

/-- `shutdownInLoop` shuts it, or leaves that to `handleWrite`. -/
theorem writeShut_shutdownInLoop (c : TcpConnection κ τ) :
    c.shutdownInLoop.WriteShut ∨ c.shutdownInLoop.channel_.isWriting = true := by
  cases hw : c.channel_.isWriting with
  | true => exact .inr (by simp [shutdownInLoop, hw])
  | false => exact .inl (by simp [shutdownInLoop, hw, shutdownWrite, WriteShut])

end TcpConnection

namespace Session

variable [DecidableEq τ] {threadId_ : τ} {s s' : Session κ τ} {a : Action κ τ} {m : Method τ}
  {as : List (Action κ τ)}

/-! ## What an action does to a `shutdown` under way -/

/-- A `shutdown` has stored `kDisconnecting`, or queued its functor. -/
def Storing (s : Session κ τ) : Prop :=
  (∃ t, s.call t = .shutStored) ∨ .shutdownInLoop ∈ s.conn.pendingFunctors_

/-- A `shutdown` has stored `kDisconnecting`, queued its functor, or returned. -/
def Halving (s : Session κ τ) : Prop :=
  (∃ t, s.call t = .shutStored) ∨ .shutdownInLoop ∈ s.conn.pendingFunctors_ ∨
    s.shutdownReturned = true

/-- A step's method queues callbacks only. -/
theorem next_functors (s : Session κ τ) (a : Action κ τ) :
    .shutdownInLoop ∈ ((steps threadId_).next s a).conn.pendingFunctors_ ↔
      .shutdownInLoop ∈ s.conn.pendingFunctors_.drop a.takes ∨
        .shutdownInLoop ∈ s.queues threadId_ a := by
  rw [← List.mem_append, ← book_functors]
  cases hm : s.method threadId_ a with
  | none => rw [next_of_none hm]
  | some m =>
    obtain ⟨cbs, hcbs, hfunctors⟩ := (m.run_does (s.book threadId_ a).conn).functors
    have hnot : PendingFunctor.shutdownInLoop ∉ cbs := fun h => absurd (hcbs _ h) nofun
    rw [next_of_some hm, perform, hfunctors, List.mem_append, or_iff_left hnot]

/-- Only the end of `shutdown` queues it. -/
theorem shutdownRun_of_queues (h : .shutdownInLoop ∈ s.queues threadId_ a) :
    ∃ t, a = .shutdownRun t := by
  cases a with
  | shutdownRun t => exact ⟨t, rfl⟩
  | sendRun t k =>
    simp only [queues] at h
    repeat' split at h
    all_goals simp at h
  | destroy t =>
    simp only [queues] at h
    split at h <;> simp at h
  | removeConnection => simp [queues] at h
  | _ => cases h

/-- A call of `shutdown` returns from its test or from its end. -/
theorem shutdownReturned_next
    (h : ((steps threadId_).next s a).shutdownReturned = true) :
    s.shutdownReturned = true ∨ (∃ t, a = .shutdown t ∧ s.conn.state_ ≠ .kDisconnected) ∨
      ∃ t, a = .shutdownRun t := by
  rw [(next_callers threadId_ s a).2.2] at h
  cases a with
  | shutdown t =>
    by_cases hs : s.conn.state_ = .kDisconnected
    · simp only [book, hs, if_true] at h
      exact .inl h
    · exact .inr (.inl ⟨t, rfl, hs⟩)
  | shutdownRun t => exact .inr (.inr ⟨t, rfl⟩)
  | send t data =>
    by_cases hs : s.conn.state_ = .kConnected <;> simp only [book, hs, if_true, if_false] at h <;>
      exact .inl h
  | sendRun t k =>
    simp only [book] at h
    split at h <;> exact .inl h
  | _ => exact .inl h

/-- **A `shutdown` gets under way at its store.** -/
theorem storing_next (ha : s.Ready threadId_ a) (h : ((steps threadId_).next s a).Storing) :
    s.Storing ∨ ∃ t, a = .shutdownStore t := by
  obtain ⟨t, ht⟩ | hmem := h
  · rw [(next_callers threadId_ s a).1] at ht
    obtain h | h | ⟨_, -, -, h⟩ | ⟨-, -, h⟩ | ⟨rfl, -⟩ := book_call threadId_ s a t
    · exact .inl (.inl ⟨t, h.symm.trans ht⟩)
    · exact absurd (h.symm.trans ht) nofun
    · exact absurd (h.symm.trans ht) nofun
    · exact absurd (h.symm.trans ht) nofun
    · exact .inr ⟨t, rfl⟩
  · obtain hmem | hmem := (next_functors s a).mp hmem
    · exact .inl (.inr (List.mem_of_mem_drop hmem))
    · obtain ⟨t, rfl⟩ := shutdownRun_of_queues hmem
      exact .inl (.inl ⟨t, ha⟩)

omit [DecidableEq τ] in
theorem Storing.halving (h : s.Storing) : s.Halving := h.imp_right .inl

/-- Or its test finds the work done. -/
theorem halving_next (ha : s.Ready threadId_ a) (h : ((steps threadId_).next s a).Halving) :
    s.Halving ∨ (∃ t, a = .shutdownStore t) ∨
      ∃ t, a = .shutdown t ∧ s.conn.state_ ≠ .kDisconnected := by
  obtain hstored | hret := or_assoc.mpr h
  · exact (storing_next ha hstored).imp Storing.halving .inl
  · obtain hret | hfound | ⟨t, rfl⟩ := shutdownReturned_next hret
    · exact .inl (.inr (.inr hret))
    · exact .inr (.inr hfound)
    · exact .inl (.inl ⟨t, ha⟩)

/-- Only such a `shutdown` has `shutdownInLoop` run. -/
theorem storing_of_method (ha : s.Ready threadId_ a)
    (hm : s.method threadId_ a = some .shutdownInLoop) : s.Storing := by
  cases runs_of_method hm with
  | shutdownRun => exact .inl ⟨threadId_, ha⟩
  | @functor k f m hfirst hf =>
    cases f with
    | shutdownInLoop => exact .inr (List.mem_of_mem_head? hfirst)
    | _ => cases hf
  | @task k t m hfirst ht => cases t <;> cases ht

/-- A functor of `shutdown` stays queued until it runs. -/
theorem shutdownInLoop_next (ha : s.Ready threadId_ a)
    (h : .shutdownInLoop ∈ s.conn.pendingFunctors_ ∨ ∃ t, a = .shutdownRun t) :
    .shutdownInLoop ∈ ((steps threadId_).next s a).conn.pendingFunctors_ ∨
      s.method threadId_ a = some .shutdownInLoop := by
  rw [next_functors]
  obtain hmem | ⟨t, rfl⟩ := h
  · cases a with
    | functor k =>
      obtain ⟨f, fs, hf⟩ := List.exists_cons_of_ne_nil ha.1
      rw [hf, List.mem_cons] at hmem
      obtain rfl | hmem := hmem
      · exact .inr (by simp [method, hf, PendingFunctor.method])
      · exact .inl (.inl (by simpa [hf, Action.takes] using hmem))
    | _ => exact .inl (.inl hmem)
  · by_cases ht : t = threadId_
    · exact .inr (by simp [method, ht])
    · exact .inl (.inr (by simp [queues, ht]))

/-! ## The half-close -/

/-- The calls an action makes on the socket. -/
def socketCalls (threadId_ : τ) (s : Session κ τ) (a : Action κ τ) : List SocketCall :=
  ((steps threadId_).next s a).conn.socketCalls.drop s.conn.socketCalls.length

/-- **The write side is shut last**: whatever `send` has accepted is written by then, and nothing
waits. -/
def ShutsLast (threadId_ : τ) (s : Session κ τ) (a : Action κ τ) : Prop :=
  s.closed = false → .shutdownWrite ∈ s.socketCalls threadId_ a →
    let s' := (steps threadId_).next s a
    s'.conn.outputBuffer_.content = [] ∧
      s'.conn.written = (s'.ran ++ s'.conn.queued).flatMap Prod.snd ∧
      ∀ t, (s'.call t).isSending = false

/-- **And it is shut**: no open connection is left quiet after a `shutdown` without it. -/
def NotLost (s : Session κ τ) : Prop :=
  s.closed = false → s.shutdownReturned = true → s.conn.pendingFunctors_ = [] →
    s.conn.outputBuffer_.content = [] → s.conn.WriteShut

/-- The half-close of a run. -/
def HalfClose (threadId_ : τ) (s : Session κ τ) (as : List (Action κ τ)) : Prop :=
  (steps threadId_).Along (ShutsLast threadId_) s as ∧ (steps threadId_).Always NotLost s as

/-- `shutdown` finds what its test asks for, or the work of another that has returned; and no
message is on its way when it stores `kDisconnecting`. -/
def Orderly (s : Session κ τ) : Action κ τ → Prop
  | .shutdown _ => s.closed = false → s.conn.state_ = .kDisconnected ∨
      s.conn.state_ = .kDisconnecting ∧ s.shutdownReturned = true
  | .shutdownStore _ => s.closed = false → s.Settled
  | _ => True

instance [Fintype τ] (s : Session κ τ) : ∀ a, Decidable (s.Orderly a)
  | .shutdown _ => inferInstanceAs (Decidable (_ → _ ∨ _ ∧ _))
  | .shutdownStore _ => inferInstanceAs (Decidable (_ → _))
  | .connectEstablished | .send _ _ | .sendRun _ _ | .shutdownRun _ | .functor _ | .poll _
  | .dispatch | .task _ | .ret | .removeConnection | .destroy _ | .others _ | .consume _ =>
      isTrue trivial

/-- The half-close is made, or a functor or an event is sure to make it. -/
def Ahead (s : Session κ τ) : Prop :=
  s.conn.WriteShut ∨ .shutdownInLoop ∈ s.conn.pendingFunctors_ ∨ s.conn.channel_.isWriting = true

/-- `shutdownInLoop` shuts the write side, or leaves that to `handleWrite`. -/
theorem ahead_of_queued (ha : s.Ready threadId_ a)
    (h : .shutdownInLoop ∈ s.conn.pendingFunctors_ ∨ ∃ t, a = .shutdownRun t) :
    ((steps threadId_).next s a).Ahead := by
  obtain hstay | hm := shutdownInLoop_next ha h
  · exact .inr (.inl hstay)
  · rw [next_of_some hm]
    exact (writeShut_shutdownInLoop _).imp_right .inr

/-- `handleWrite` shuts it with the last byte. -/
theorem Ahead.next (h : s.Ahead) (ha : s.Ready threadId_ a)
    (hs : s.conn.state_ = .kDisconnecting)
    (hopen : (s.method threadId_ a).any Method.closes = false) :
    ((steps threadId_).next s a).Ahead := by
  have hframe := book_frame ha
  obtain hshut | hmem | hw := h
  · left
    have hbook : (s.book threadId_ a).conn.WriteShut := by
      rw [WriteShut, hframe.calls]
      exact hshut
    cases hm : s.method threadId_ a with
    | none => rwa [next_of_none hm]
    | some m =>
      rw [next_of_some hm]
      exact writeShut_run hbook
  · exact ahead_of_queued ha (.inl hmem)
  · have hbook : (s.book threadId_ a).conn.channel_.isWriting = true := hframe.isWriting.trans hw
    cases hm : s.method threadId_ a with
    | none =>
      rw [next_of_none hm]
      exact .inr (.inr hbook)
    | some m =>
      rw [hm, Option.any_some] at hopen
      rw [next_of_some hm]
      exact (isWriting_run hopen (book_disconnecting hs) hbook).elim (fun hw => .inr (.inr hw)) .inl

/-- **An open connection on its way to the half-close.** -/
structure HalfClosing (s : Session κ τ) : Prop where
  live : s.Live
  output : s.conn.output = s.ran.flatMap Prod.snd
  settled : s.closed = false → s.conn.state_ = .kDisconnecting → s.Settled
  disconnecting : s.closed = false → s.Halving → s.conn.state_ = .kDisconnecting
  ahead : s.closed = false → s.shutdownReturned = true → s.Ahead

omit [DecidableEq τ] in
theorem HalfClosing.not_lost (h : s.HalfClosing) : s.NotLost := by
  intro hopen hreturned hquiet hempty
  obtain hshut | hmem | hw := h.ahead hopen hreturned
  · exact hshut
  · rw [hquiet] at hmem
    cases hmem
  · exact absurd hempty ((h.live.armed hopen).mp hw)

/-- Once stored, `kDisconnecting` stays until the connection closes. -/
theorem HalfClosing.state_next (h : s.HalfClosing) (ha : (steps threadId_).enabled s a)
    (hopen : ((steps threadId_).next s a).closed = false)
    (hs : s.conn.state_ = .kDisconnecting) :
    ((steps threadId_).next s a).conn.state_ = .kDisconnecting := by
  rw [next_closed ha.1, Bool.or_eq_false_iff] at hopen
  have hbook : (s.book threadId_ a).conn.state_ = .kDisconnecting := book_disconnecting hs
  cases hm : s.method threadId_ a with
  | none => rwa [next_of_none hm]
  | some m =>
    rw [hm, Option.any_some] at hopen
    have hmessage := (h.settled hopen.1 hs).message ha.1 hm
    have hsend : m.isSendInLoop = true → (s.book threadId_ a).conn.state_ = .kDisconnected := by
      intro hsend
      cases m <;> cases hsend
      cases hmessage
    rw [next_of_some hm]
    exact (run_silent hopen.2 (h.live.method_isEstablish ha hm) hsend).1.trans hbook

/-- Nothing but `shutdown` stores it. -/
theorem Live.state_of_next (h : s.Live) (ha : (steps threadId_).enabled s a)
    (hs : ((steps threadId_).next s a).conn.state_ = .kDisconnecting) :
    s.conn.state_ = .kDisconnecting ∨ ∃ t, a = .shutdownStore t := by
  have hbook : (s.book threadId_ a).conn.state_ = .kDisconnecting := by
    cases hm : s.method threadId_ a with
    | none => rwa [next_of_none hm] at hs
    | some m =>
      rw [next_of_some hm] at hs
      obtain hdisc | hsame := effect_state (s.book threadId_ a).conn (h.method_isEstablish ha hm)
      · exact absurd (hdisc.symm.trans hs) nofun
      · exact hsame.symm.trans hs
  rw [book_state] at hbook
  cases a with
  | shutdownStore t => exact .inr ⟨t, rfl⟩
  | _ => exact .inl hbook

/-- **Every orderly action keeps it so.** -/
theorem HalfClosing.next (h : s.HalfClosing) (ha : (steps threadId_).enabled s a)
    (hkeep : Keeps threadId_ s a) (horder : s.Orderly a) :
    ((steps threadId_).next s a).HalfClosing := by
  have hopen_of : ((steps threadId_).next s a).closed = false → s.closed = false ∧
      (s.method threadId_ a).any Method.closes = false := fun hopen =>
    Bool.or_eq_false_iff.mp ((next_closed ha.1).symm.trans hopen)
  -- a `shutdown` that returns at once has found the work of another
  have hagain : s.closed = false → (∃ t, a = .shutdown t ∧ s.conn.state_ ≠ .kDisconnected) →
      s.shutdownReturned = true := by
    rintro hopen ⟨t, rfl, hs⟩
    exact ((horder hopen).resolve_left hs).2
  refine ⟨h.live.next ha, ?_, fun hopen hs => ?_, fun hopen hhalving => ?_,
    fun hopen hreturned => ?_⟩
  · rw [next_output ha hkeep, next_ran ha.1, List.flatMap_append, h.output]
  · obtain hs | ⟨t, rfl⟩ := h.live.state_of_next ha hs
    · exact (h.settled (hopen_of hopen).1 hs).next ha.1 fun _ _ _ => by rw [hs]; nofun
    · exact (horder (hopen_of hopen).1).next ha.1 (by rintro _ _ ⟨⟩)
  · have hopen₀ := (hopen_of hopen).1
    obtain hbefore | ⟨t, rfl⟩ | hfound := halving_next ha.1 hhalving
    · exact h.state_next ha hopen (h.disconnecting hopen₀ hbefore)
    · rfl
    · exact h.state_next ha hopen (h.disconnecting hopen₀ (.inr (.inr (hagain hopen₀ hfound))))
  · obtain ⟨hopen₀, hcloses⟩ := hopen_of hopen
    have hbefore : s.shutdownReturned = true → ((steps threadId_).next s a).Ahead := fun hret =>
      (h.ahead hopen₀ hret).next ha.1 (h.disconnecting hopen₀ (.inr (.inr hret))) hcloses
    obtain hret | hfound | hrun := shutdownReturned_next hreturned
    · exact hbefore hret
    · exact hbefore (hagain hopen₀ hfound)
    · exact ahead_of_queued ha.1 (.inr hrun)

/-- The calls on the socket are those of the method that runs. -/
theorem socketCalls_eq (ha : s.Ready threadId_ a) : s.socketCalls threadId_ a =
    (s.method threadId_ a).elim [] fun m => (m.effect (s.book threadId_ a).conn).calls := by
  have hframe := book_frame ha
  cases hm : s.method threadId_ a with
  | none =>
    rw [socketCalls, next_of_none hm, hframe.calls, List.drop_length]
    rfl
  | some m =>
    rw [socketCalls, next_of_some hm, perform, (m.run_does _).calls, hframe.calls, List.drop_left]
    rfl

/-- An orderly half-close is the last thing that happens to the output. -/
theorem HalfClosing.shutsLast (h : s.HalfClosing) (ha : (steps threadId_).enabled s a)
    (hkeep : Keeps threadId_ s a) : ShutsLast threadId_ s a := by
  intro hopen hshut
  have hframe := book_frame ha.1
  rw [socketCalls_eq ha.1] at hshut
  cases hm : s.method threadId_ a with
  | none =>
    rw [hm] at hshut
    cases hshut
  | some m =>
    have hdoes := m.run_does (s.book threadId_ a).conn
    rw [hm] at hshut
    have hplace := shutdownWrite_mem_calls hshut
    -- either place finds a `shutdown` under way
    have hs : s.conn.state_ = .kDisconnecting := by
      obtain ⟨rfl, -⟩ | ⟨hs, -⟩ := hplace
      · exact h.disconnecting hopen (storing_of_method ha.1 hm).halving
      · rw [book_state] at hs
        cases a with
        | shutdownStore t => cases hm
        | _ => exact hs
    have hempty : ((steps threadId_).next s a).conn.outputBuffer_.content = [] := by
      rw [next_of_some hm, perform, hdoes.content]
      obtain ⟨rfl, hw⟩ | ⟨-, hcontent⟩ := hplace
      · have harmed := (hframe.armed (h.live.armed hopen)).mpr.mt (by rw [hw]; rintro ⟨⟩)
        exact not_not.mp harmed
      · exact hcontent
    have hsettled := (h.settled hopen hs).next ha.1 fun _ _ _ => by rw [hs]; rintro ⟨⟩
    have houtput := next_output ha hkeep
    rw [h.output, ← List.flatMap_append, ← next_ran ha.1, TcpConnection.output, hempty,
      List.append_nil] at houtput
    exact ⟨hempty, by rw [houtput, hsettled.2, List.append_nil], hsettled.1⟩

/-- A session is new, or its half-close is on its way. -/
def Graceful (s : Session κ τ) : Prop := s.Initial ∨ s.HalfClosing

omit [DecidableEq τ] in
theorem halfClosing_connectEstablished {c : TcpConnection κ τ} (hc : c.Constructed) :
    ((new c).perform .connectEstablished).HalfClosing := by
  have hinit : (new c).Initial := ⟨c, hc, rfl⟩
  refine ⟨live_connectEstablished hc, hinit.sent.2.2.2, fun _ => nofun, fun _ hhalving => ?_,
    nofun⟩
  obtain ⟨t, ht⟩ | hmem | hret := hhalving
  · cases ht
  · have hnone : ((new c).perform .connectEstablished).conn.pendingFunctors_ = [] := hc.functors
    rw [hnone] at hmem
    cases hmem
  · cases hret

theorem Graceful.next (h : s.Graceful) (ha : (steps threadId_).enabled s a)
    (hkeep : Keeps threadId_ s a) (horder : s.Orderly a) :
    ((steps threadId_).next s a).Graceful := by
  obtain hi | hh := h
  · obtain hi | ⟨c, hc, hs⟩ := hi.next ha
    · exact .inl hi
    · exact .inr (hs ▸ halfClosing_connectEstablished hc)
  · exact .inr (hh.next ha hkeep horder)

theorem Graceful.shutsLast (h : s.Graceful) (ha : (steps threadId_).enabled s a)
    (hkeep : Keeps threadId_ s a) : ShutsLast threadId_ s a := by
  obtain hi | hh := h
  · intro _ hshut
    rw [socketCalls, hi.next_calls ha, List.drop_nil] at hshut
    cases hshut
  · exact hh.shutsLast ha hkeep

omit [DecidableEq τ] in
theorem Graceful.not_lost (h : s.Graceful) : s.NotLost := by
  obtain ⟨c, -, rfl⟩ | hh := h
  · intro _ hret
    cases hret
  · exact hh.not_lost

/-- **The half-close comes last, and it comes.**  From construction on, whatever the kernel takes at
a time and as long as it does not report the peer gone: a run whose calls of `shutdown` are orderly
shuts the write side only when all accepted bytes are written, and leaves no quiet connection with
it open. -/
theorem halfClose_of_orderly (hinit : s.Initial) (hvalid : (steps threadId_).Valid s as)
    (hkeep : (steps threadId_).Along (Keeps threadId_) s as)
    (horder : (steps threadId_).Along Orderly s as) : HalfClose threadId_ s as := by
  have hgraceful : s.Graceful := .inl hinit
  have hrun := Machine.along_and.mpr ⟨hvalid, Machine.along_and.mpr ⟨hkeep, horder⟩⟩
  have hstep : ∀ (s : Session κ τ) a, s.Graceful → (steps threadId_).enabled s a ∧
      Keeps threadId_ s a ∧ s.Orderly a → ((steps threadId_).next s a).Graceful :=
    fun _ _ hs ha => hs.next ha.1 ha.2.1 ha.2.2
  exact ⟨hrun.imp_of_invariant hstep (fun _ _ hs ha => hs.shutsLast ha.1 ha.2.1) hgraceful,
    hrun.always hstep (fun _ hs => hs.not_lost) hgraceful⟩

/-- Another thread that sends, waits for its message to run, and shuts down. -/
theorem halfClose_of_orderly_send :
    HalfClose true (new (.new () 7 .new) : Session Unit Bool)
      [.connectEstablished, .ret, .send false [1], .sendRun false ⟨⟨-1, 0, 0⟩, .data []⟩,
        .functor ⟨⟨1, 0, 0⟩, .data []⟩, .shutdown false, .shutdownStore false, .shutdownRun false,
        .functor ⟨⟨-1, 0, 0⟩, .data []⟩] :=
  halfClose_of_orderly ⟨_, constructed_new _ _ rfl rfl, rfl⟩ (by decide) (by decide) (by decide)

/-- **One that does not wait**: its `shutdown` finds `kConnected` and does nothing, and the
connection falls quiet with its write side open. -/
theorem not_halfClose_connected :
    (new (.new () 7 .new) : Session Unit Bool).Initial ∧
    (steps true).Valid (new (.new () 7 .new) : Session Unit Bool)
      [.connectEstablished, .ret, .send false [1], .sendRun false ⟨⟨-1, 0, 0⟩, .data []⟩,
        .shutdown false, .functor ⟨⟨1, 0, 0⟩, .data []⟩] ∧
    (steps true).Along (Keeps true) (new (.new () 7 .new) : Session Unit Bool)
      [.connectEstablished, .ret, .send false [1], .sendRun false ⟨⟨-1, 0, 0⟩, .data []⟩,
        .shutdown false, .functor ⟨⟨1, 0, 0⟩, .data []⟩] ∧
    ¬ ((steps true).run (new (.new () 7 .new) : Session Unit Bool)
      [.connectEstablished, .ret, .send false [1], .sendRun false ⟨⟨-1, 0, 0⟩, .data []⟩,
        .shutdown false, .functor ⟨⟨1, 0, 0⟩, .data []⟩]).NotLost := by
  refine ⟨⟨_, constructed_new _ _ rfl rfl, rfl⟩, by decide, by decide, fun h => ?_⟩
  have hshut := h (by decide) (by decide) (by decide) (by decide)
  exact absurd hshut (by unfold WriteShut; decide)

end Session

end Mymuduo
