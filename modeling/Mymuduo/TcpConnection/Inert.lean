import Mymuduo.TcpConnection.Phases

/-!
# TcpConnection/Inert — what a closed connection can still do

Once `handleClose` or `connectDestoryed` has run nothing should reach the socket or the poller
again.  Nothing in the code sees to that: the guard of `sendInLoop` does not hold anything back,
`handleClose` has no guard at all, and `connectDestoryed` leaves the mask of a connection that is
not `kConnected` as it is.  What a closed connection does then depends on the channel and the buffer
alone:

    sendInLoop      writes if nothing is buffered and the channel is not writing,
                    asks for writing if it leaves bytes and the channel is not writing
    handleClose     registers the channel again, with an empty mask, unless it is registered
    handleWrite     writes if the channel is writing

and a run leaves its closed connection inert exactly if none of this happens (`inert_iff`).
-/

namespace Mymuduo

open Machinery TcpConnection

variable {κ τ : Type*}

namespace TcpConnection

variable {c : TcpConnection κ τ} {m : Method τ}

/-- How often `::write` has been called. -/
def writes (c : TcpConnection κ τ) : ℕ := c.socketCalls.countP SocketCall.isWrite

/-- The methods that stir a connection where they find it so. -/
def Stirs (c : TcpConnection κ τ) : Method τ → Prop
  | .sendInLoop _ data _ =>
      c.channel_.isWriting = false ∧ (c.outputBuffer_.content = [] ∨ data ≠ [])
  | .handleClose => c.channel_.index_ ≠ .kAdded
  | .handleRead k => k = .data [] ∧ c.channel_.index_ ≠ .kAdded
  | .handleWrite _ => c.channel_.isWriting = true
  | .connectEstablished | .connectDestoryed | .shutdownInLoop => False

instance (c : TcpConnection κ τ) : ∀ m, Decidable (c.Stirs m)
  | .sendInLoop _ _ _ => inferInstanceAs (Decidable (_ ∧ _))
  | .handleClose => inferInstanceAs (Decidable (_ ≠ _))
  | .handleRead _ => inferInstanceAs (Decidable (_ ∧ _))
  | .handleWrite _ => inferInstanceAs (Decidable (_ = _))
  | .connectEstablished | .connectDestoryed | .shutdownInLoop => isFalse id

/-- Nothing stirred: no `::write`, no new event, and the poller took up nothing it had let go of. -/
structure Still (c c' : TcpConnection κ τ) : Prop where
  writes : c'.writes = c.writes
  events : c'.channel_.events_ &&& ~~~c.channel_.events_ = 0#32
  interest : c.poller_.interest c.channel_.fd_ = none →
    c'.poller_.interest c.channel_.fd_ = none
  channels : c.poller_.channels_ c.channel_.fd_ = none →
    c'.poller_.channels_ c.channel_.fd_ = none

/-- A method that makes no `::write` and no call on the channel leaves it still. -/
theorem still_of_effect (hops : (m.effect c).ops = [])
    (hcalls : (m.effect c).calls.countP SocketCall.isWrite = 0) : c.Still (m.run c) := by
  have hdoes := m.run_does c
  refine ⟨?_, ?_, ?_, ?_⟩
  · rw [writes, hdoes.calls, List.countP_append, hcalls]
    rfl
  · rw [hdoes.channel, hops]
    exact BitVec.and_not_self _
  · rw [hdoes.poller, hops]
    exact id
  · rw [hdoes.poller, hops]
    exact id

/-- A method that makes a `::write` does not. -/
theorem not_still_of_effect (hcalls : (m.effect c).calls.countP SocketCall.isWrite ≠ 0) :
    ¬ c.Still (m.run c) := by
  intro h
  have hwrites := h.writes
  rw [writes, (m.run_does c).calls, List.countP_append] at hwrites
  exact hcalls (Nat.add_eq_left.mp hwrites)

/-- `disableAll` is still on a registered channel, and on no other. -/
theorem still_disableAll_iff (hc : c.Agrees) (hops : (m.effect c).ops = [.disableAll])
    (hcalls : (m.effect c).calls = []) : c.Still (m.run c) ↔ c.channel_.index_ = .kAdded := by
  have hdoes := m.run_does c
  have hint : (m.run c).poller_.interest c.channel_.fd_ =
      if c.channel_.index_ = .kAdded then none else some ⟨Channel.kNoneEvent, c.addr⟩ := by
    rw [hdoes.poller, hops]
    simpa [onChannels, onChannel] using
      ChannelOp.interest_call hc
        (show ChannelOp.disableAll.mask? _ = some Channel.kNoneEvent from rfl)
  constructor
  · intro h
    by_contra hi
    have hnone := h.interest (by rw [hc.interest, if_neg hi])
    rw [hint, if_neg hi] at hnone
    cases hnone
  · intro hi
    refine ⟨?_, ?_, fun _ => by rw [hint, if_pos hi], fun hnone => ?_⟩
    · rw [writes, hdoes.calls, hcalls, List.append_nil]
      rfl
    · rw [hdoes.channel, hops]
      simp [onChannels, onChannel, ChannelOp.events_call, ChannelOp.mask?, Channel.kNoneEvent]
    · rw [hc.channels.mpr (by simp [hi])] at hnone
      cases hnone

/-- `remove` is always still. -/
theorem still_remove (hc : c.Agrees) (hops : (m.effect c).ops = [.remove])
    (hcalls : (m.effect c).calls = []) : c.Still (m.run c) := by
  have hdoes := m.run_does c
  have hgone := EPollPoller.removeChannel_eq (hc.tracks c.channel_.events_)
  have hpoller : (m.run c).poller_ = (c.poller_.removeChannel c.addr c.channel_).1 := by
    rw [hdoes.poller, hops]
    rfl
  refine ⟨?_, ?_, fun _ => ?_, fun _ => ?_⟩
  · rw [writes, hdoes.calls, hcalls, List.append_nil]
    rfl
  · rw [hdoes.channel, hops]
    exact BitVec.and_not_self _
  · rw [hpoller, hgone]
    exact Function.update_self ..
  · rw [hpoller, hgone]
    exact Function.update_self ..

/-- Asking for writing is stirring, where the channel did not. -/
theorem not_still_enableWriting (hw : c.channel_.isWriting = false)
    (hops : (m.effect c).ops = [.enableWriting]) : ¬ c.Still (m.run c) := by
  intro h
  have hevents := h.events
  have hclear : c.channel_.events_ &&& Channel.kWriteEvent = 0#32 := by
    simpa [Channel.isWriting] using hw
  have hmask : (m.run c).channel_.events_ = c.channel_.events_ ||| Channel.kWriteEvent := by
    rw [(m.run_does c).channel, hops]
    simp [onChannels, onChannel, ChannelOp.events_call, ChannelOp.mask?]
  rw [hmask, Mask.or_and_not_of_disjoint hclear] at hevents
  exact absurd hevents (by decide)

/-- **One method on a connection that is down**: it stirs it exactly where the table says. -/
theorem still_iff (hc : c.Agrees) (he : m.isEstablish = false) (hdown : Down c.state_) :
    c.Still (m.run c) ↔ ¬ c.Stirs m := by
  cases m with
  | connectEstablished => cases he
  | connectDestoryed =>
    have hs : c.state_ ≠ .kConnected := hdown.ne_connected
    exact iff_of_true (still_remove hc (by simp [Method.effect, hs]) (by
      simp [Method.effect, hs, Effect.none])) id
  | shutdownInLoop =>
    refine iff_of_true (still_of_effect rfl ?_) id
    simp only [Method.effect]
    split <;> rfl
  | handleRead k =>
    by_cases hk : k = .data []
    · rw [still_disableAll_iff hc (by simp [Method.effect, hk]) (by
        simp [Method.effect, hk, Effect.none])]
      simp [Stirs, hk]
    · refine iff_of_true (still_of_effect ?_ ?_) ?_ <;>
        simp [Method.effect, hk, Effect.none, Stirs]
  | handleClose =>
    rw [still_disableAll_iff hc rfl rfl]
    simp [Stirs]
  | handleWrite r =>
    cases hw : c.channel_.isWriting with
    | false =>
      refine iff_of_true (still_of_effect ?_ ?_) ?_ <;>
        simp [Method.effect, hw, Effect.none, Stirs]
    | true =>
      refine iff_of_false (not_still_of_effect ?_) (not_not.mpr hw)
      simp [Method.effect, hw, SocketCall.isWrite]
  | sendInLoop caller data r =>
    cases hw : c.channel_.isWriting with
    | true =>
      have hdirect : ¬ c.WritesDirectly := fun h => by cases h.1.symm.trans hw
      refine iff_of_true (still_of_effect ?_ ?_) ?_ <;>
        simp [Method.effect, hw, hdirect, Stirs]
    | false =>
      by_cases hempty : c.outputBuffer_.content = []
      · have hdirect : c.WritesDirectly := ⟨hw, hempty⟩
        refine iff_of_false (not_still_of_effect ?_) (not_not.mpr ⟨hw, .inl hempty⟩)
        simp [Method.effect, hdirect, SocketCall.isWrite]
      · have hdirect : ¬ c.WritesDirectly := fun h => hempty h.2
        by_cases hdata : data = []
        · refine iff_of_true (still_of_effect ?_ ?_) ?_ <;>
            simp [Method.effect, hdirect, leftover, hdata, hempty, Stirs]
        · refine iff_of_false (not_still_enableWriting hw ?_) (not_not.mpr ⟨hw, .inr hdata⟩)
          simp [Method.effect, hdirect, leftover, hdata, hw]

end TcpConnection

namespace Session

/-! ## Runs -/

variable [DecidableEq τ] {threadId_ : τ} {s s' : Session κ τ} {a : Action κ τ} {m : Method τ}
  {as : List (Action κ τ)}

/-- **The law at one action**: a closed connection stays inert. -/
def Inert (threadId_ : τ) (s : Session κ τ) (a : Action κ τ) : Prop :=
  s.closed = true → s.conn.Still ((steps threadId_).next s a).conn

/-- A closed connection is not stirred. -/
def Unstirred (threadId_ : τ) (s : Session κ τ) (a : Action κ τ) : Prop :=
  s.closed = true → ∀ m ∈ s.method threadId_ a, ¬ s.conn.Stirs m

instance (s : Session κ τ) (a : Action κ τ) : Decidable (Unstirred threadId_ s a) :=
  inferInstanceAs (Decidable (_ → ∀ m ∈ s.method threadId_ a, _))

omit [DecidableEq τ] in
theorem Frame.writes (h : Frame s s') : s'.conn.writes = s.conn.writes :=
  congrArg (List.countP SocketCall.isWrite) h.calls

omit [DecidableEq τ] in
/-- Bookkeeping leaves a connection still, and no easier to stir. -/
theorem Frame.still (h : Frame s s') : s.conn.Still s'.conn := by
  refine ⟨h.writes, ?_, ?_, ?_⟩
  · rw [h.events]
    exact BitVec.and_not_self _
  · rw [h.interest]
    exact id
  · rw [h.channels]
    exact id

omit [DecidableEq τ] in
theorem Frame.still_iff (h : Frame s s') (c : TcpConnection κ τ) :
    s.conn.Still c ↔ s'.conn.Still c := by
  constructor
  · rintro ⟨hw, he, hi, hc⟩
    refine ⟨hw.trans h.writes.symm, ?_, ?_, ?_⟩
    · rwa [h.events]
    · rwa [h.fd, h.interest]
    · rwa [h.fd, h.channels]
  · rintro ⟨hw, he, hi, hc⟩
    refine ⟨hw.trans h.writes, ?_, ?_, ?_⟩
    · rwa [h.events] at he
    · rwa [h.fd, h.interest] at hi
    · rwa [h.fd, h.channels] at hc

omit [DecidableEq τ] in
theorem Frame.stirs_iff (h : Frame s s') (m : Method τ) : s.conn.Stirs m ↔ s'.conn.Stirs m := by
  cases m <;> simp only [Stirs, h.isWriting, h.output, h.index]

/-- **One action of a session.** -/
theorem inert_iff_unstirred (h : s.Phased) (ha : (steps threadId_).enabled s a) :
    Inert threadId_ s a ↔ Unstirred threadId_ s a := by
  refine forall_congr' fun hclosed => ?_
  have hlive : s.Live := by
    refine h.resolve_left ?_
    rintro ⟨c, hc, rfl⟩
    cases hclosed
  have hframe := book_frame ha.1
  have hbook := hlive.book ha.1
  cases hm : s.method threadId_ a with
  | none =>
    rw [next_of_none hm]
    exact iff_of_true hframe.still (by simp)
  | some m =>
    rw [next_of_some hm, hframe.still_iff]
    have hdown : Down (s.book threadId_ a).conn.state_ := hbook.down (hframe.closed.trans hclosed)
    have hone := still_iff hbook.agrees (hlive.method_isEstablish ha hm) hdown
    rw [← hframe.stirs_iff] at hone
    simpa [perform] using hone

/-- **A closed connection stays inert, exactly.**  From construction on, no action on a closed
connection calls `::write`, adds an event or brings the channel back into the kernel's set or
`channels_`, if and only if none finds it as the table says. -/
theorem inert_iff (hinit : s.Initial) (hvalid : (steps threadId_).Valid s as) :
    (steps threadId_).Along (Inert threadId_) s as ↔
      (steps threadId_).Along (Unstirred threadId_) s as :=
  Machine.along_congr_of_invariant (fun _ _ hs ha => Phased.next hs ha)
    (fun _ _ hs ha => inert_iff_unstirred hs ha) hvalid (.inl hinit)

/-- A peer that closes while another thread is sending: without the functor the connection stays
inert to its end. -/
theorem inert_iff_removed :
    (steps true).Along (Inert true) (new (.new () 7 .new) : Session Unit Bool)
      [.connectEstablished, .ret, .poll EPOLLHUP, .dispatch, .task ⟨⟨-1, 0, 0⟩, .data []⟩,
        .send false [1], .ret, .task ⟨⟨-1, 0, 0⟩, .data []⟩, .removeConnection,
        .functor ⟨⟨-1, 0, 0⟩, .data []⟩] :=
  (inert_iff ⟨_, constructed_new _ _ rfl rfl, rfl⟩ (by decide)).mpr (by decide)

/-- **A functor queued before the close and run after it** writes to the socket. -/
theorem not_inert_queued :
    (new (.new () 7 .new) : Session Unit Bool).Initial ∧
    (steps true).Valid (new (.new () 7 .new) : Session Unit Bool)
      [.connectEstablished, .ret, .send false [1], .sendRun false ⟨⟨-1, 0, 0⟩, .data []⟩,
        .poll EPOLLHUP, .dispatch, .task ⟨⟨-1, 0, 0⟩, .data []⟩, .ret,
        .task ⟨⟨-1, 0, 0⟩, .data []⟩, .functor ⟨⟨1, 0, 0⟩, .data []⟩] ∧
    ¬ (steps true).Along (Inert true) (new (.new () 7 .new) : Session Unit Bool)
      [.connectEstablished, .ret, .send false [1], .sendRun false ⟨⟨-1, 0, 0⟩, .data []⟩,
        .poll EPOLLHUP, .dispatch, .task ⟨⟨-1, 0, 0⟩, .data []⟩, .ret,
        .task ⟨⟨-1, 0, 0⟩, .data []⟩, .functor ⟨⟨1, 0, 0⟩, .data []⟩] := by
  refine ⟨⟨_, constructed_new _ _ rfl rfl, rfl⟩, by decide, ?_⟩
  rintro ⟨-, -, -, -, -, -, -, -, -, hlast, -⟩
  exact absurd (hlast (by decide)).writes (by decide)

end Session

end Mymuduo
