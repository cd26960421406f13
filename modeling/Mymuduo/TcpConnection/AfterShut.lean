import Mymuduo.TcpConnection.HalfClose

/-!
# TcpConnection/AfterShut — no write after the half-close

A `::write` on a socket whose write side is shut is `EPIPE`, and `SIGPIPE` unless it is ignored.
Two methods write: `handleWrite` where the channel is writing, `sendInLoop` where it is not and
nothing waits.  When `shutdownWrite` is called on an open connection the channel is not writing and
the buffer is empty, and from there

    handleWrite     does not write, until a sendInLoop has left bytes
    sendInLoop      writes

so all depends on the functors of the threads that passed the test of `send` before.  The guard that
should hold them back assigns where it should compare (`writesLast_iff`).
-/

namespace Mymuduo

open Machinery TcpConnection

variable {κ τ : Type*}

namespace TcpConnection

variable {c : TcpConnection κ τ} {m : Method τ}

/-- **No `::write` comes after a `shutdownWrite`.** -/
def WritesLast (c : TcpConnection κ τ) : Prop :=
  c.socketCalls.Pairwise fun x y => x = .shutdownWrite → y.isWrite = false

/-- The methods that call `::write` where they find the connection so. -/
def Writes (c : TcpConnection κ τ) : Method τ → Prop
  | .sendInLoop _ _ _ => c.WritesDirectly
  | .handleWrite _ => c.channel_.isWriting = true
  | .connectEstablished | .connectDestoryed | .shutdownInLoop | .handleRead _ | .handleClose =>
      False

theorem exists_isWrite_iff (c : TcpConnection κ τ) (m : Method τ) :
    (∃ x ∈ (m.effect c).calls, x.isWrite = true) ↔ c.Writes m := by
  cases m with
  | sendInLoop caller data r =>
    by_cases hdirect : c.WritesDirectly <;>
      simp [Method.effect, Writes, hdirect, SocketCall.isWrite]
  | handleWrite r =>
    by_cases hw : c.channel_.isWriting = true <;>
      simp [Method.effect, Effect.none, Writes, hw, SocketCall.isWrite]
  | connectEstablished => simp [Method.effect, Effect.none, Writes]
  | connectDestoryed =>
    by_cases hs : c.state_ = .kConnected <;> simp [Method.effect, Effect.none, Writes, hs]
  | shutdownInLoop =>
    by_cases hw : c.channel_.isWriting = true <;>
      simp [Method.effect, Writes, hw, SocketCall.isWrite]
  | handleRead k =>
    by_cases hk : k = .data [] <;> simp [Method.effect, Effect.none, Writes, hk]
  | handleClose => simp [Method.effect, Effect.none, Writes]

/-- The calls of one method are in order by themselves: a `shutdownWrite` is the last of them. -/
theorem pairwise_calls (c : TcpConnection κ τ) (m : Method τ) :
    (m.effect c).calls.Pairwise fun x y => x = .shutdownWrite → y.isWrite = false := by
  cases m with
  | handleWrite r =>
    by_cases hw : c.channel_.isWriting = true
    · by_cases hdrain : c.Drains r ∧ c.state_ = .kDisconnecting <;>
        simp [Method.effect, hw, hdrain]
    · simp [Method.effect, Effect.none, hw]
  | sendInLoop caller data r =>
    by_cases hdirect : c.WritesDirectly <;> simp [Method.effect, hdirect]
  | shutdownInLoop => by_cases hw : c.channel_.isWriting = true <;> simp [Method.effect, hw]
  | connectDestoryed =>
    by_cases hs : c.state_ = .kConnected <;> simp [Method.effect, Effect.none, hs]
  | handleRead k => by_cases hk : k = .data [] <;> simp [Method.effect, Effect.none, hk]
  | connectEstablished => exact List.Pairwise.nil
  | handleClose => exact List.Pairwise.nil

/-- So a method spoils the order exactly if it writes after the half-close. -/
theorem writesLast_run (c : TcpConnection κ τ) (m : Method τ) :
    (m.run c).WritesLast ↔ c.WritesLast ∧ (c.WriteShut → ¬ c.Writes m) := by
  rw [WritesLast, (m.run_does c).calls, List.pairwise_append, ← exists_isWrite_iff]
  simp only [pairwise_calls c m, true_and]
  refine and_congr_right fun _ => ?_
  constructor
  · rintro h hshut ⟨x, hx, hwrite⟩
    exact absurd ((h _ hshut x hx rfl).symm.trans hwrite) nofun
  · rintro h x hx y hy rfl
    have hnone := h hx
    exact Bool.eq_false_iff.mpr fun hwrite => hnone ⟨y, hy, hwrite⟩

end TcpConnection

namespace Session

variable [DecidableEq τ] {threadId_ : τ} {s s' : Session κ τ} {a : Action κ τ} {m : Method τ}
  {as : List (Action κ τ)}

/-! ## Runs -/

/-- An action writes after the half-close. -/
def WritesLate (threadId_ : τ) (s : Session κ τ) (a : Action κ τ) : Prop :=
  s.conn.WriteShut ∧ ∃ m ∈ s.method threadId_ a, s.conn.Writes m

/-- What may run once the write side is shut: a `sendInLoop` where the connection is closed and
something waits, and a `handleWrite` unless the connection closed with its channel still writing. -/
def LetsRun (s : Session κ τ) : Method τ → Prop
  | .sendInLoop _ _ _ => s.closed = true ∧ ¬ s.conn.WritesDirectly
  | .handleWrite _ => s.closed = true → s.conn.channel_.isWriting = false
  | .connectEstablished | .connectDestoryed | .shutdownInLoop | .handleRead _ | .handleClose => True

instance (s : Session κ τ) : ∀ m, Decidable (s.LetsRun m)
  | .sendInLoop _ _ _ => inferInstanceAs (Decidable (_ ∧ _))
  | .handleWrite _ => inferInstanceAs (Decidable (_ → _))
  | .connectEstablished | .connectDestoryed | .shutdownInLoop | .handleRead _ | .handleClose =>
      isTrue trivial

/-- **Nothing else runs after it.** -/
def Withheld (threadId_ : τ) (s : Session κ τ) (a : Action κ τ) : Prop :=
  s.conn.WriteShut → ∀ m ∈ s.method threadId_ a, s.LetsRun m

instance (c : TcpConnection κ τ) : Decidable c.WriteShut := inferInstanceAs (Decidable (_ ∈ _))

instance (s : Session κ τ) (a : Action κ τ) : Decidable (Withheld threadId_ s a) :=
  inferInstanceAs (Decidable (_ → ∀ m ∈ s.method threadId_ a, _))

omit [DecidableEq τ] in
theorem Frame.writesLast_congr (h : Frame s s') : s'.conn.WritesLast ↔ s.conn.WritesLast := by
  rw [WritesLast, h.calls, WritesLast]

omit [DecidableEq τ] in
theorem Frame.writeShut_iff (h : Frame s s') : s'.conn.WriteShut ↔ s.conn.WriteShut := by
  rw [WriteShut, h.calls, WriteShut]

omit [DecidableEq τ] in
theorem Frame.writes_iff (h : Frame s s') (m : Method τ) :
    s'.conn.Writes m ↔ s.conn.Writes m := by
  cases m <;> simp only [Writes, WritesDirectly, h.isWriting, h.output]

/-- An action spoils the order exactly if it writes late. -/
theorem next_writesLast (ha : s.Ready threadId_ a) :
    ((steps threadId_).next s a).conn.WritesLast ↔
      s.conn.WritesLast ∧ ¬ WritesLate threadId_ s a := by
  have hframe := book_frame ha
  cases hm : s.method threadId_ a with
  | none => rw [next_of_none hm, hframe.writesLast_congr]; simp [WritesLate, hm]
  | some m =>
    rw [next_of_some hm, perform, writesLast_run, hframe.writesLast_congr, hframe.writeShut_iff,
      hframe.writes_iff]
    simp [WritesLate, hm]

/-- An open connection whose write side is shut has nothing to write. -/
def Drained (s : Session κ τ) : Prop :=
  s.conn.WriteShut → s.closed = false → s.conn.channel_.isWriting = false

omit [DecidableEq τ] in
theorem Live.writesDirectly (h : s.Live) (hdrained : s.Drained) (hshut : s.conn.WriteShut)
    (hopen : s.closed = false) : s.conn.WritesDirectly := by
  have hw := hdrained hshut hopen
  refine ⟨hw, ?_⟩
  by_contra hcontent
  exact absurd ((h.armed hopen).mpr hcontent) (by rw [hw]; nofun)

omit [DecidableEq τ] in
/-- **So its `sendInLoop` writes, and nothing else does.** -/
theorem Live.letsRun_iff (h : s.Live) (hdrained : s.Drained) (hshut : s.conn.WriteShut) :
    s.LetsRun m ↔ ¬ s.conn.Writes m := by
  cases m with
  | sendInLoop caller data r =>
    refine and_iff_right_of_imp fun hnot => ?_
    by_contra hopen
    exact hnot (h.writesDirectly hdrained hshut (Bool.eq_false_iff.mpr hopen))
  | handleWrite r =>
    simp only [LetsRun, Writes, Bool.not_eq_true]
    constructor
    · intro hclosed
      cases hc : s.closed with
      | true => exact hclosed hc
      | false => exact hdrained hshut hc
    · exact fun hw _ => hw
  | _ => exact iff_of_true trivial id

theorem Live.writesLate_iff (h : s.Live) (hdrained : s.Drained) :
    ¬ WritesLate threadId_ s a ↔ Withheld threadId_ s a := by
  constructor
  · exact fun hlate hshut m hm =>
      (h.letsRun_iff hdrained hshut).mpr fun hwrites => hlate ⟨hshut, m, hm, hwrites⟩
  · rintro hkeep ⟨hshut, m, hm, hwrites⟩
    exact (h.letsRun_iff hdrained hshut).mp (hkeep hshut m hm) hwrites

/-- The write side is shut by the call, and stays shut. -/
theorem writeShut_next (ha : s.Ready threadId_ a) :
    ((steps threadId_).next s a).conn.WriteShut ↔ s.conn.WriteShut ∨
      ∃ m, s.method threadId_ a = some m ∧
        .shutdownWrite ∈ (m.effect (s.book threadId_ a).conn).calls := by
  have hframe := book_frame ha
  cases hm : s.method threadId_ a with
  | none =>
    rw [next_of_none hm, hframe.writeShut_iff]
    simp
  | some m =>
    rw [next_of_some hm, Session.perform, WriteShut, (m.run_does _).calls, List.mem_append,
      ← WriteShut, hframe.writeShut_iff]
    simp

/-- A channel that is not writing once the write side is shut does not begin to, unless a
`sendInLoop` runs. -/
theorem isWriting_next_of_writeShut (ha : s.Ready threadId_ a)
    (hsend : s.conn.WriteShut → ∀ m ∈ s.method threadId_ a, m.isSendInLoop = false)
    (hw : s.conn.WriteShut → s.conn.channel_.isWriting = false)
    (hshut : ((steps threadId_).next s a).conn.WriteShut) :
    ((steps threadId_).next s a).conn.channel_.isWriting = false := by
  have hframe := book_frame ha
  obtain hbefore | ⟨m, hm, hcall⟩ := (writeShut_next ha).mp hshut
  · cases hm : s.method threadId_ a with
    | none =>
      rw [next_of_none hm]
      exact hframe.isWriting.trans (hw hbefore)
    | some m =>
      rw [next_of_some hm]
      exact isWriting_run_of_not_writing (hsend hbefore m hm) (hframe.isWriting.trans (hw hbefore))
  · rw [next_of_some hm]
    exact isWriting_run_of_shutdownWrite hcall

/-- The half-close of an open connection finds it drained, and drained it stays. -/
theorem drained_next (hdrained : s.Drained) (ha : (steps threadId_).enabled s a)
    (hkeep : Withheld threadId_ s a) : ((steps threadId_).next s a).Drained := by
  intro hshut hopen
  have hopen₀ := (Bool.or_eq_false_iff.mp ((next_closed ha.1).symm.trans hopen)).1
  refine isWriting_next_of_writeShut ha.1 (fun hbefore m hm => ?_)
    (fun hbefore => hdrained hbefore hopen₀) hshut
  have hlets := hkeep hbefore m hm
  cases m with
  | sendInLoop caller data r => exact absurd (hlets.1.symm.trans hopen₀) nofun
  | _ => rfl

/-- A session is new, or its connection is live, and drained once its write side is shut. -/
def Quenched (s : Session κ τ) : Prop := s.Initial ∨ s.Live ∧ s.Drained

theorem Quenched.next (h : s.Quenched) (ha : (steps threadId_).enabled s a)
    (hkeep : Withheld threadId_ s a) : ((steps threadId_).next s a).Quenched := by
  obtain hfirst | ⟨hlive, hdrained⟩ := h
  · obtain hi | ⟨c, hc, hs⟩ := hfirst.next ha
    · exact .inl hi
    · refine .inr ⟨hs ▸ live_connectEstablished hc, fun hshut => ?_⟩
      rw [WriteShut, hfirst.next_calls ha] at hshut
      cases hshut
  · exact .inr ⟨hlive.next ha, drained_next hdrained ha hkeep⟩

theorem Quenched.writesLate_iff (h : s.Quenched) :
    ¬ WritesLate threadId_ s a ↔ Withheld threadId_ s a := by
  obtain hi | ⟨hlive, hdrained⟩ := h
  · have hnone : ¬ s.conn.WriteShut := by
      rw [WriteShut, hi.calls]
      exact List.not_mem_nil
    exact iff_of_true (fun hlate => hnone hlate.1) fun hshut => absurd hshut hnone
  · exact hlive.writesLate_iff hdrained

omit [DecidableEq τ] in
theorem Initial.writesLast (h : s.Initial) : s.conn.WritesLast := by
  rw [WritesLast, h.calls]
  exact List.Pairwise.nil

/-- The order is kept by a run in which no action writes late. -/
theorem writesLast_iff_along (hinit : s.Initial) (hvalid : (steps threadId_).Valid s as) :
    ((steps threadId_).run s as).conn.WritesLast ↔
      (steps threadId_).Along (fun s a => ¬ WritesLate threadId_ s a) s as := by
  have hlate := Machine.run_iff_along _ (I := fun _ => True) (φ := fun s => s.conn.WritesLast)
    (fun _ _ _ _ => trivial) (fun _ _ _ ha => next_writesLast ha.1) hvalid trivial
  exact hlate.trans (and_iff_right hinit.writesLast)

/-- **Nothing is written after the half-close, exactly.**  From construction on, and whatever the
threads do, no `::write` follows the `shutdownWrite` of a connection if and only if nothing is let
through after it. -/
theorem writesLast_iff (hinit : s.Initial) (hvalid : (steps threadId_).Valid s as) :
    ((steps threadId_).run s as).conn.WritesLast ↔
      (steps threadId_).Along (Withheld threadId_) s as :=
  (writesLast_iff_along hinit hvalid).trans
    (Machine.along_congr_of_guarded (I := Quenched) (fun _ _ hs ha hkeep => hs.next ha hkeep)
      (fun _ _ hs _ => hs.writesLate_iff) hvalid (.inl hinit))

/-- The loop's thread sends and shuts down; another that sends after that is turned away. -/
theorem writesLast_iff_turned_away :
    ((steps true).run (new (.new () 7 .new) : Session Unit Bool)
      [.connectEstablished, .send true [1], .sendRun true ⟨⟨1, 0, 0⟩, .data []⟩, .shutdown true,
        .shutdownStore true, .shutdownRun true, .send false [2], .ret]).conn.WritesLast :=
  (writesLast_iff ⟨_, constructed_new _ _ rfl rfl, rfl⟩ (by decide)).mpr (by decide)

/-- **One that passed the test before** has its message written to the shut socket. -/
theorem not_writesLast_passed :
    (new (.new () 7 .new) : Session Unit Bool).Initial ∧
    (steps true).Valid (new (.new () 7 .new) : Session Unit Bool)
      [.connectEstablished, .send false [2], .send true [1], .sendRun true ⟨⟨1, 0, 0⟩, .data []⟩,
        .shutdown true, .shutdownStore true, .shutdownRun true, .ret,
        .sendRun false ⟨⟨-1, 0, 0⟩, .data []⟩, .functor ⟨⟨-1, EPIPE, EPIPE⟩, .data []⟩] ∧
    ¬ ((steps true).run (new (.new () 7 .new) : Session Unit Bool)
      [.connectEstablished, .send false [2], .send true [1], .sendRun true ⟨⟨1, 0, 0⟩, .data []⟩,
        .shutdown true, .shutdownStore true, .shutdownRun true, .ret,
        .sendRun false ⟨⟨-1, 0, 0⟩, .data []⟩, .functor ⟨⟨-1, EPIPE, EPIPE⟩, .data []⟩]).conn.WritesLast :=
  ⟨⟨_, constructed_new _ _ rfl rfl, rfl⟩, by decide, by unfold WritesLast; decide⟩

/-! ## The callers

What a user can see to: that no message is on its way when `shutdown` stores `kDisconnecting`.  From
there `send` lets nothing through, so nothing can come after the half-close. -/

/-- **`shutdown` stores when no message is on its way.** -/
def StoresSettled (s : Session κ τ) : Action κ τ → Prop
  | .shutdownStore _ => s.Settled
  | _ => True

/-- A `shutdown` has stored `kDisconnecting`, however far it has come since. -/
def Stored (s : Session κ τ) : Prop :=
  s.Storing ∨ s.conn.state_ = .kDisconnecting ∨ s.conn.WriteShut

/-- The half-close comes from such a `shutdown`. -/
theorem stored_of_shutdownWrite (ha : s.Ready threadId_ a) (hm : s.method threadId_ a = some m)
    (hcall : .shutdownWrite ∈ (m.effect (s.book threadId_ a).conn).calls) : s.Stored := by
  obtain ⟨rfl, -⟩ | ⟨hs, -⟩ := shutdownWrite_mem_calls hcall
  · exact .inl (storing_of_method ha hm)
  · rw [book_state] at hs
    split at hs
    · cases hm
    · exact .inr (.inl hs)

/-- **Only the store of `shutdown` begins it.** -/
theorem Live.stored_next (h : s.Live) (ha : (steps threadId_).enabled s a)
    (hnext : ((steps threadId_).next s a).Stored) : s.Stored ∨ ∃ t, a = .shutdownStore t := by
  obtain hstoring | hs | hshut := hnext
  · exact (storing_next ha.1 hstoring).imp_left .inl
  · exact (h.state_of_next ha hs).imp_left fun hs => .inr (.inl hs)
  · obtain hbefore | ⟨m, hm, hcall⟩ := (writeShut_next ha.1).mp hshut
    · exact .inl (.inr (.inr hbefore))
    · exact .inl (stored_of_shutdownWrite ha.1 hm hcall)

/-- What such a `shutdown` has found stays so: no message is on its way, and once the write side is
shut the channel is not writing. -/
structure Hushed (s : Session κ τ) : Prop where
  live : s.Live
  settled : s.Stored → s.Settled ∧ Down s.conn.state_
  silent : s.conn.WriteShut → s.conn.channel_.isWriting = false

theorem Hushed.next (h : s.Hushed) (ha : (steps threadId_).enabled s a)
    (hstore : s.StoresSettled a) : ((steps threadId_).next s a).Hushed := by
  refine ⟨h.live.next ha, fun hstored => ?_, fun hshut => ?_⟩
  · obtain ⟨hsettled, hdown⟩ : s.Settled ∧ Down s.conn.state_ := by
      obtain hbefore | ⟨t, rfl⟩ := h.live.stored_next ha hstored
      · exact h.settled hbefore
      · exact ⟨hstore, h.live.down_of_shutdownStore ha.1⟩
    exact ⟨hsettled.next ha.1 fun _ _ _ => hdown.ne_connected, h.live.down_next ha hdown⟩
  · refine isWriting_next_of_writeShut ha.1 (fun hbefore m hm => ?_) h.silent hshut
    exact (h.settled (.inr (.inr hbefore))).1.isSendInLoop ha.1 hm

theorem Hushed.not_writesLate (h : s.Hushed) (ha : s.Ready threadId_ a) :
    ¬ WritesLate threadId_ s a := by
  rintro ⟨hshut, m, hm, hwrites⟩
  have hsend := (h.settled (.inr (.inr hshut))).1.isSendInLoop ha hm
  cases m with
  | sendInLoop caller data r => cases hsend
  | handleWrite r => exact absurd (hwrites.symm.trans (h.silent hshut)) nofun
  | _ => exact hwrites

/-- **A user who shuts down with no message on its way** has nothing written after the
half-close. -/
theorem writesLast_of_storesSettled (hinit : s.Initial) (hvalid : (steps threadId_).Valid s as)
    (h : (steps threadId_).Along StoresSettled s as) :
    ((steps threadId_).run s as).conn.WritesLast := by
  refine (writesLast_iff_along hinit hvalid).mpr ?_
  refine (Machine.along_and.mpr ⟨hvalid, h⟩).imp_of_invariant
    (I := fun s => s.Initial ∨ s.Hushed) (fun s a hs ha => ?_) (fun s a hs ha => ?_) (.inl hinit)
  · obtain hi | hh := hs
    · obtain hi' | ⟨c, hc, hs'⟩ := hi.next ha.1
      · exact .inl hi'
      · have hnone : ¬ ((steps threadId_).next s a).conn.WriteShut := by
          rw [WriteShut, hi.next_calls ha.1]
          exact List.not_mem_nil
        rw [hs'] at hnone ⊢
        refine .inr ⟨live_connectEstablished hc, ?_, fun hshut => absurd hshut hnone⟩
        rintro ((⟨t, ht⟩ | hmem) | hs | hshut)
        · cases ht
        · have hfunctors : ((new c).perform .connectEstablished).conn.pendingFunctors_ = [] :=
            hc.functors
          exact absurd (hfunctors ▸ hmem) List.not_mem_nil
        · cases hs
        · exact absurd hshut hnone
    · exact .inr (hh.next ha.1 ha.2)
  · obtain hi | hh := hs
    · rintro ⟨hshut, -⟩
      rw [WriteShut, hi.calls] at hshut
      cases hshut
    · exact hh.not_writesLate ha.1.1

end Session

end Mymuduo
