import Mymuduo.TcpConnection.SendContract

/-!
# TcpConnection/Lifecycle — `state_` from `kconnecting` to `kDisconnected`

    kconnecting ──▸ kConnected ──▸ kDisconnecting ──▸ kDisconnected
                  connectEstablished                    handleClose, connectDestoryed

Two pieces of code leave the line.  The guard of `sendInLoop` assigns `kDisconnected` where it means
to compare; and `shutdown` stores `kDisconnecting` where it finds `kDisconnected`, not `kConnected`.
A run in which neither happens to an open connection follows the line, and `state_` then says
exactly whether the connection's channel is watched for reading (`lifecycle_iff`).
-/

namespace Mymuduo

open Machinery TcpConnection

/-- How far a state is along the line. -/
def StateE.stage : StateE → ℕ
  | kconnecting => 0
  | kConnected => 1
  | kDisconnecting => 2
  | kDisconnected => 3

variable {κ τ : Type*}

namespace TcpConnection

variable {c : TcpConnection κ τ} {m : Method τ}

/-- `state_` says the connection is open. -/
def Open (c : TcpConnection κ τ) : Prop := c.state_ = .kConnected ∨ c.state_ = .kDisconnecting

/-- The channel asks for reading, and the poller watches it with its mask. -/
def Watched (c : TcpConnection κ τ) : Prop :=
  c.channel_.isReading = true ∧
    c.poller_.interest c.channel_.fd_ = some ⟨c.channel_.events_, c.addr⟩

/-- A closing method that finds the connection connected, or not reading, leaves it
`kDisconnected`, or as it is, and not reading. -/
theorem closes_silent (hm : m.closes = true)
    (h : c.state_ = .kConnected ∨ c.state_ = .kDisconnected ∧ c.channel_.isReading = false) :
    (m.run c).state_ = .kDisconnected ∧ (m.run c).channel_.isReading = false := by
  have hdoes := m.run_does c
  rw [hdoes.state, hdoes.channel]
  cases m with
  | connectDestoryed =>
    obtain hs | ⟨hs, hread⟩ := h
    · simp [Method.effect, hs, onChannels, onChannel]
    · simpa [Method.effect, hs, Effect.none, onChannels, onChannel] using hread
  | handleRead k =>
    have hk : k = .data [] := by simpa [Method.closes] using hm
    simp [Method.effect, hk, onChannels, onChannel]
  | handleClose => simp [Method.effect, onChannels, onChannel]
  | connectEstablished => cases hm
  | sendInLoop caller data r => cases hm
  | shutdownInLoop => cases hm
  | handleWrite r => cases hm

end TcpConnection

namespace Session

variable [DecidableEq τ] {threadId_ : τ} {s : Session κ τ} {a : Action κ τ}
  {as : List (Action κ τ)}

/-- The law at one action: `state_` does not go back, and becomes `kDisconnected` in a closing
method only. -/
def Forward (threadId_ : τ) (s : Session κ τ) (a : Action κ τ) : Prop :=
  s.conn.state_.stage ≤ ((steps threadId_).next s a).conn.state_.stage ∧
  (s.conn.state_ ≠ .kDisconnected → ((steps threadId_).next s a).conn.state_ = .kDisconnected →
    (s.method threadId_ a).any Method.closes = true)

instance (s : Session κ τ) (a : Action κ τ) : Decidable (Forward threadId_ s a) :=
  inferInstanceAs (Decidable (_ ∧ (_ → _ → _)))

/-- **The lifecycle of a run**: the law at every action, and in every state between two actions
`state_` says whether the channel is watched for reading. -/
def Lifecycle (threadId_ : τ) (s : Session κ τ) (as : List (Action κ τ)) : Prop :=
  (steps threadId_).Along (Forward threadId_) s as ∧
  (steps threadId_).Always (fun s => s.conn.Open ↔ s.conn.Watched) s as

/-- The store `shutdown` makes. -/
def Action.isShutdownStore : Action κ τ → Bool
  | .shutdownStore _ => true
  | _ => false

/-- Neither piece of code leaves the line: `sendInLoop` finds `kDisconnected` already, and no
`shutdown` stores `kDisconnecting` over it. -/
def KeepsState (threadId_ : τ) (s : Session κ τ) (a : Action κ τ) : Prop :=
  (∀ m ∈ s.method threadId_ a, m.isSendInLoop = true → s.conn.state_ = .kDisconnected) ∧
  (a.isShutdownStore = true → s.conn.state_ ≠ .kDisconnected)

instance (s : Session κ τ) (a : Action κ τ) : Decidable (KeepsState threadId_ s a) :=
  inferInstanceAs (Decidable ((∀ m ∈ s.method threadId_ a, _) ∧ (_ → _)))

/-- Where `state_` is as long as nothing leaves the line. -/
structure OnLine (s : Session κ τ) : Prop where
  live : s.Live
  connected : s.closed = false → s.conn.state_ = .kConnected
  disconnected : s.closed = true →
    s.conn.state_ = .kDisconnected ∧ s.conn.channel_.isReading = false

omit [DecidableEq τ] in
theorem OnLine.open_iff_watched (h : s.OnLine) : s.conn.Open ↔ s.conn.Watched := by
  cases hc : s.closed with
  | false =>
    refine iff_of_true (.inl (h.connected hc)) ⟨h.live.isReading hc, ?_⟩
    rw [h.live.agrees.interest, if_pos (h.live.registered hc)]
  | true =>
    obtain ⟨hstate, hread⟩ := h.disconnected hc
    refine iff_of_false ?_ ?_
    · simp [Open, hstate]
    · simp [Watched, hread]

omit [DecidableEq τ] in
theorem Initial.open_iff_watched (h : s.Initial) : s.conn.Open ↔ s.conn.Watched := by
  obtain ⟨c, hc, rfl⟩ := h
  refine iff_of_false ?_ ?_
  · simp [Open, new, hc.state]
  · simp [Watched, new, hc.interest]

/-- On the line no `shutdown` is under way: its test finds `kDisconnected`, and the store that
follows is excluded. -/
theorem OnLine.not_shutdownStore (h : s.OnLine) (ha : (steps threadId_).enabled s a)
    (hkeep : KeepsState threadId_ s a) (t : τ) : a ≠ .shutdownStore t := by
  rintro rfl
  cases hc : s.closed with
  | false => exact (h.live.down_of_shutdownStore ha.1).ne_connected (h.connected hc)
  | true => exact hkeep.2 rfl (h.disconnected hc).1

theorem OnLine.book_state (h : s.OnLine) (ha : (steps threadId_).enabled s a)
    (hkeep : KeepsState threadId_ s a) : (s.book threadId_ a).conn.state_ = s.conn.state_ := by
  rw [Session.book_state]
  split
  · exact absurd rfl (h.not_shutdownStore ha hkeep _)
  · rfl

theorem OnLine.next (h : s.OnLine) (ha : (steps threadId_).enabled s a)
    (hkeep : KeepsState threadId_ s a) : ((steps threadId_).next s a).OnLine := by
  have hlive := h.live.next ha
  have hframe := book_frame ha.1
  have hstate := h.book_state ha hkeep
  have hclosed := next_closed ha.1
  cases hm : s.method threadId_ a with
  | none =>
    rw [hm, Option.any_none, Bool.or_false] at hclosed
    rw [next_of_none hm] at hlive hclosed ⊢
    refine ⟨hlive, ?_, ?_⟩
    · rw [hclosed, hstate]
      exact h.connected
    · rw [hclosed, hstate, hframe.isReading]
      exact h.disconnected
  | some m =>
    rw [hm, Option.any_some] at hclosed
    have he := h.live.method_isEstablish ha hm
    have hfound : (s.book threadId_ a).conn.state_ = .kConnected ∨
        (s.book threadId_ a).conn.state_ = .kDisconnected ∧
          (s.book threadId_ a).conn.channel_.isReading = false := by
      rw [hstate, hframe.isReading]
      cases hc : s.closed with
      | false => exact .inl (h.connected hc)
      | true => exact .inr (h.disconnected hc)
    rw [next_of_some hm] at hlive hclosed ⊢
    cases hcloses : m.closes with
    | true =>
      rw [hcloses, Bool.or_true] at hclosed
      exact ⟨hlive, fun hopen => absurd (hopen.symm.trans hclosed) nofun,
        fun _ => closes_silent hcloses hfound⟩
    | false =>
      have hsend : m.isSendInLoop = true → (s.book threadId_ a).conn.state_ = .kDisconnected := by
        rw [hstate]
        exact hkeep.1 m hm
      obtain ⟨hstate', hread'⟩ := run_silent hcloses he hsend
      rw [hcloses, Bool.or_false] at hclosed
      refine ⟨hlive, ?_, ?_⟩
      · rw [hclosed]
        exact fun hopen => hstate'.trans (hstate.trans (h.connected hopen))
      · rw [hclosed]
        rintro hdone
        obtain ⟨hd, hr⟩ := h.disconnected hdone
        exact ⟨hstate'.trans (hstate.trans hd), hread'.trans (hframe.isReading.trans hr)⟩

omit [DecidableEq τ] in
theorem onLine_connectEstablished {c : TcpConnection κ τ} (hc : c.Constructed) :
    ((new c).perform .connectEstablished).OnLine :=
  ⟨live_connectEstablished hc, fun _ => rfl, nofun⟩

/-- A session on the line is new, or its connection is where it should be. -/
def Line (s : Session κ τ) : Prop := s.Initial ∨ s.OnLine

omit [DecidableEq τ] in
theorem Line.open_iff_watched (h : s.Line) : s.conn.Open ↔ s.conn.Watched :=
  h.elim Initial.open_iff_watched OnLine.open_iff_watched

theorem Line.next (h : s.Line) (ha : (steps threadId_).enabled s a)
    (hkeep : KeepsState threadId_ s a) : ((steps threadId_).next s a).Line := by
  obtain hi | hl := h
  · obtain hi | ⟨c, hc, hs⟩ := hi.next ha
    · exact .inl hi
    · exact .inr (hs ▸ onLine_connectEstablished hc)
  · exact .inr (hl.next ha hkeep)

/-- On the line `state_` goes forward. -/
theorem Line.forward (h : s.Line) (ha : (steps threadId_).enabled s a)
    (hkeep : KeepsState threadId_ s a) : Forward threadId_ s a := by
  have hclosed := next_closed ha.1
  obtain hi | hl := h
  · -- from `kconnecting` everything is forward, and nothing leads to `kDisconnected`
    have hstage : s.conn.state_.stage = 0 := by
      obtain ⟨c, hc, rfl⟩ := hi
      simp [new, hc.state, StateE.stage]
    refine ⟨hstage ▸ Nat.zero_le _, fun _ hdisc => ?_⟩
    obtain ⟨c, hc, hs⟩ | ⟨c, hc, hs⟩ := hi.next ha
    · rw [hs] at hdisc
      cases hc.state.symm.trans hdisc
    · rw [hs] at hdisc
      cases hdisc
  · have hl' := hl.next ha hkeep
    cases hc : s.closed with
    | false =>
      have hstate := hl.connected hc
      cases hc' : ((steps threadId_).next s a).closed with
      | false =>
        rw [Forward, hstate, hl'.connected hc']
        exact ⟨Nat.le_refl _, by rintro _ ⟨⟩⟩
      | true =>
        rw [hc, hc', Bool.false_or] at hclosed
        rw [Forward, hstate, (hl'.disconnected hc').1]
        exact ⟨by decide, fun _ _ => hclosed.symm⟩
    | true =>
      rw [hc, Bool.true_or] at hclosed
      rw [Forward, (hl.disconnected hc).1, (hl'.disconnected hclosed).1]
      exact ⟨Nat.le_refl _, fun h => absurd rfl h⟩

/-- And wherever it goes forward, neither piece of code has left the line. -/
theorem Forward.keepsState (h : Forward threadId_ s a) : KeepsState threadId_ s a := by
  obtain ⟨hstage, hclose⟩ := h
  refine ⟨fun m hm hsend => ?_, fun hstore hs => ?_⟩
  · by_contra hs
    have hm : s.method threadId_ a = some m := hm
    rw [next_of_some hm, hm, Option.any_some] at hclose
    cases m <;> cases hsend
    exact absurd (hclose hs (Method.run_does _ _).state) nofun
  · cases a <;> cases hstore
    rw [hs, next_of_none rfl] at hstage
    exact absurd hstage (by simp [book, setState, StateE.stage])

/-- A run that leaves `state_` to the line follows it. -/
theorem lifecycle_of_keepsState (hinit : s.Initial) (hvalid : (steps threadId_).Valid s as)
    (h : (steps threadId_).Along (KeepsState threadId_) s as) : Lifecycle threadId_ s as := by
  have hrun := Machine.along_and.mpr ⟨hvalid, h⟩
  have hline : s.Line := .inl hinit
  have hstep : ∀ (s : Session κ τ) a, s.Line →
      (steps threadId_).enabled s a ∧ KeepsState threadId_ s a →
      ((steps threadId_).next s a).Line := fun _ _ hs ha => hs.next ha.1 ha.2
  exact ⟨hrun.imp_of_invariant hstep (fun _ _ hs ha => hs.forward ha.1 ha.2) hline,
    hrun.always hstep (fun _ hs => hs.open_iff_watched) hline⟩

/-- **The lifecycle of a connection, exactly.**  A run from construction follows the line, and keeps
`state_` and the poller in step, if and only if no `sendInLoop` runs on an open connection and no
`shutdown` stores over `kDisconnected`. -/
theorem lifecycle_iff (hinit : s.Initial) (hvalid : (steps threadId_).Valid s as) :
    Lifecycle threadId_ s as ↔ (steps threadId_).Along (KeepsState threadId_) s as :=
  ⟨fun h => h.1.mono fun _ _ => Forward.keepsState, lifecycle_of_keepsState hinit hvalid⟩

/-- A peer that connects and closes. -/
theorem lifecycle_iff_peer_close :
    Lifecycle () (new (.new () 7 .new) : Session Unit Unit)
      [.connectEstablished, .ret, .poll EPOLLHUP, .dispatch, .task ⟨⟨-1, 0, 0⟩, .data []⟩, .ret,
        .task ⟨⟨-1, 0, 0⟩, .data []⟩, .removeConnection, .functor ⟨⟨-1, 0, 0⟩, .data []⟩] :=
  (lifecycle_iff ⟨_, constructed_new _ _ rfl rfl, rfl⟩ (by decide)).mpr (by decide)

/-- **A connection that greets its peer**: the first `sendInLoop` leaves `state_` at
`kDisconnected`, with the channel watched for reading. -/
theorem not_lifecycle_send :
    (new (.new () 7 .new) : Session Unit Unit).Initial ∧
    (steps ()).Valid (new (.new () 7 .new) : Session Unit Unit)
      [.connectEstablished, .send () [1], .sendRun () ⟨⟨1, 0, 0⟩, .data []⟩] ∧
    ¬ Lifecycle () (new (.new () 7 .new) : Session Unit Unit)
      [.connectEstablished, .send () [1], .sendRun () ⟨⟨1, 0, 0⟩, .data []⟩] :=
  ⟨⟨_, constructed_new _ _ rfl rfl, rfl⟩, by decide, fun h => absurd h.1 (by decide)⟩

/-! ## The callers

What they can see to themselves: that nobody sends before the connection closes, and nobody shuts it
down after. -/

/-- Nobody sends on the open connection, or shuts down the closed one. -/
def Discreet (s : Session κ τ) : Action κ τ → Prop
  | .send _ _ => s.closed = true
  | .shutdown _ => s.closed = false
  | _ => True

/-- No call of `send` or `shutdown` has come past its test. -/
structure Unused (s : Session κ τ) : Prop where
  settled : s.Settled
  idle : ∀ t, (s.call t).isShutting = false

omit [DecidableEq τ] in
theorem Line.onLine (h : s.Line) (hs : s.established = true) : s.OnLine := by
  obtain ⟨c, -, rfl⟩ | hl := h
  · cases hs
  · exact hl

theorem Unused.keepsState (h : s.Unused) (ha : s.Ready threadId_ a) : KeepsState threadId_ s a := by
  refine ⟨fun m hm hsend => ?_, fun hstore => ?_⟩
  · exact absurd (hsend.symm.trans (h.settled.isSendInLoop ha hm)) nofun
  · cases a <;> cases hstore
    have htested : s.call _ = .shutTested := ha
    exact absurd (h.idle _) (by rw [htested]; nofun)

/-- On the line every call fails its test, if it is made where it should be. -/
theorem Unused.next (h : s.Unused) (hline : s.Line) (ha : s.Ready threadId_ a)
    (hdiscreet : s.Discreet a) : ((steps threadId_).next s a).Unused := by
  refine ⟨h.settled.next ha ?_, fun t => ?_⟩
  · rintro t data rfl
    rw [((hline.onLine ha.1).disconnected hdiscreet).1]
    nofun
  · rw [(next_callers threadId_ s a).1]
    obtain h' | h' | ⟨data, -, -, h'⟩ | ⟨rfl, hs, -⟩ | ⟨rfl, -⟩ := book_call threadId_ s a t
    · exact h' ▸ h.idle t
    · exact h' ▸ rfl
    · exact h' ▸ rfl
    · exact absurd (hs.symm.trans ((hline.onLine ha.1).connected hdiscreet)) nofun
    · have htested : s.call t = .shutTested := ha
      exact absurd (h.idle t) (by rw [htested]; nofun)

/-- **A connection nobody sends on**, and nobody shuts down after its close, keeps to the line. -/
theorem lifecycle_of_discreet (hinit : s.Initial) (hvalid : (steps threadId_).Valid s as)
    (h : (steps threadId_).Along Discreet s as) : Lifecycle threadId_ s as := by
  have hunused : s.Unused := ⟨hinit.settled, by obtain ⟨c, -, rfl⟩ := hinit; exact fun _ => rfl⟩
  refine lifecycle_of_keepsState hinit hvalid ?_
  exact (Machine.along_and.mpr ⟨hvalid, h⟩).imp_of_invariant (I := fun s => s.Line ∧ s.Unused)
    (fun s a hs ha => ⟨hs.1.next ha.1 (hs.2.keepsState ha.1.1), hs.2.next hs.1 ha.1.1 ha.2⟩)
    (fun s a hs ha => hs.2.keepsState ha.1.1) ⟨.inl hinit, hunused⟩

end Session

end Mymuduo
