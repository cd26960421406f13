import Mymuduo.EchoServer.OnMessage

/-!
# EchoServer/Answer — one answer to a connection, and the half-close after it

The library lets one message of a connection through: `sendInLoop` leaves `state_` at
`kDisconnected`, where `send` refuses the next and `shutdown` passes its test.  For `onMessage` that
is just right.  The first message is sent back whole and the write side is shut behind it; later
ones are taken and dropped.

    heard    [msg, …]
    output   []  ──sendInLoop──▸  msg  ──shutdownInLoop, or the handleWrite that drains──▸  shut
-/

namespace Mymuduo

open Machinery TcpConnection

/-- What has been heard of a connection that is open and has sent nothing: what `onMessage` is at. -/
def OnMessage.First (heard : List (List Byte)) (content : List Byte) (call : Call) :
    OnMessage → Prop
  | idle => heard = []
  | retrieve => heard = [content]
  | send msg => heard = [msg]
  | sendInLoop => ∃ msg, call = .sending msg ∧ heard = [msg]
  | shutdown | shutdownStore | shutdownInLoop | ret => False

/-- How far the half-close of an open connection is that has sent its message. -/
def OnMessage.Rest {κ τ : Type*} (c : TcpConnection κ τ) : OnMessage → Prop
  | sendInLoop => False
  | shutdown => c.state_ = .kDisconnected ∨
      c.state_ = .kDisconnecting ∧ (c.WriteShut ∨ c.channel_.isWriting = true)
  | shutdownStore => True
  | shutdownInLoop => c.state_ = .kDisconnecting
  | idle | retrieve | send _ | ret =>
      c.state_ = .kDisconnecting ∧ (c.WriteShut ∨ c.channel_.isWriting = true)

namespace Session

variable {κ τ : Type*} [DecidableEq τ] {threadId_ : τ} {s s' : Session κ τ} {pc : OnMessage}
  {b : Action κ τ ⊕ ℕ} {a : Action κ τ} {m : Method τ} {heard : List (List Byte)}

/-! ## The half-close -/

/-- **The write side of a session of the server**: a closed connection writes nothing, and one whose
write side is shut is connected no more. -/
structure HalfShut (s : Session κ τ) : Prop where
  drained : s.Drained
  stopped : s.closed = true → s.conn.channel_.isWriting = false
  shut : s.conn.WriteShut → s.conn.state_ ≠ .kConnected
  last : s.conn.WritesLast

omit [DecidableEq τ] in
/-- A connection is connected while it is open and has sent nothing. -/
theorem Gated.connected (h : s.Gated) (hstate : s.conn.state_ = .kConnected) :
    s.Live ∧ s.ran = [] ∧ s.closed = false := by
  obtain ⟨c, hc, rfl⟩ | ⟨hlive, hgate⟩ := h
  · cases hc.state.symm.trans hstate
  · exact ⟨hlive, hgate.mp hstate⟩

omit [DecidableEq τ] in
theorem Gated.initial (h : s.Gated) (hnew : s.established = false) : s.Initial := by
  obtain hi | ⟨hlive, -⟩ := h
  · exact hi
  · cases hlive.established.symm.trans hnew

omit [DecidableEq τ] in
theorem Initial.not_writeShut (h : s.Initial) : ¬ s.conn.WriteShut := by
  rw [WriteShut, h.calls]
  exact List.not_mem_nil

omit [DecidableEq τ] in
theorem HalfShut.quenched (h : HalfShut s) (hgated : s.Gated) : s.Quenched :=
  hgated.imp id fun hlive => ⟨hlive.1, h.drained⟩

/-- Nothing is let through after the half-close. -/
theorem HalfShut.withheld (h : HalfShut s) (hact : Acting threadId_ s pc)
    (hpassed : pc = .sendInLoop → s.conn.state_ = .kConnected)
    (hb : (echo threadId_).enabled (s, pc) (.inl a)) : Withheld threadId_ s a := by
  intro hshut m hm
  cases hact.runs hb hm with
  | sendInLoop r hcall => exact absurd (hpassed rfl) (h.shut hshut)
  | handleWrite r => exact h.stopped
  | _ => trivial

omit [DecidableEq τ] in
/-- A closing method stops the writing; `connectDestoryed` may leave it to those before it. -/
theorem isWriting_run_closes {c : TcpConnection κ τ} (hm : m.closes = true)
    (hw : m = .connectDestoryed → c.channel_.isWriting = false) :
    (m.run c).channel_.isWriting = false := by
  cases m with
  | handleClose => exact ChannelOp.isWriting_disableAll ..
  | handleRead k =>
    have hk : k = .data [] := by simpa [Method.closes] using hm
    subst hk
    exact ChannelOp.isWriting_disableAll ..
  | connectDestoryed =>
    simp only [Method.run, connectDestoryed]
    split
    · exact ChannelOp.isWriting_disableAll ..
    · exact hw rfl
  | _ => cases hm

/-- A closed connection writes no more. -/
theorem HalfShut.stopped_next (h : HalfShut s) (hgated : s.Gated) (hact : Acting threadId_ s pc)
    (hpassed : pc = .sendInLoop → s.conn.state_ = .kConnected)
    (hb : (echo threadId_).enabled (s, pc) (.inl a))
    (hclosed : ((steps threadId_).next s a).closed = true) :
    ((steps threadId_).next s a).conn.channel_.isWriting = false := by
  have ha : (steps threadId_).enabled s a := hb.1
  have hframe := book_frame ha.1
  rw [next_closed ha.1] at hclosed
  cases hm : s.method threadId_ a with
  | none =>
    rw [next_of_none hm, hframe.isWriting]
    exact h.stopped (by simpa [hm] using hclosed)
  | some m =>
    rw [next_of_some hm, Session.perform]
    have hruns := hact.runs hb hm
    by_cases hcloses : m.closes = true
    · refine isWriting_run_closes hcloses ?_
      rintro rfl
      cases hruns with
      | connectDestoryed hclosed => exact hframe.isWriting.trans (h.stopped hclosed)
    · have hold : s.closed = true := by simpa [hm, hcloses] using hclosed
      have hsend : m.isSendInLoop = false := by
        cases hruns with
        | sendInLoop r hcall =>
          cases (hgated.connected (hpassed rfl)).2.2.symm.trans hold
        | _ => rfl
      exact isWriting_run_of_not_writing hsend (hframe.isWriting.trans (h.stopped hold))

/-- A connection whose write side is shut is connected no more. -/
theorem HalfShut.shut_next (h : HalfShut s) (hgated : s.Gated) (hact : Acting threadId_ s pc)
    (hb : (echo threadId_).enabled (s, pc) (.inl a))
    (hshut : ((steps threadId_).next s a).conn.WriteShut) :
    ((steps threadId_).next s a).conn.state_ ≠ .kConnected := by
  have ha : (steps threadId_).enabled s a := hb.1
  have hframe := book_frame ha.1
  have hbook : (s.book threadId_ a).conn.state_ = .kConnected → s.conn.state_ = .kConnected := by
    rw [book_state]
    split
    · rintro ⟨⟩
    · exact id
  obtain hi | ⟨hlive, -⟩ := hgated
  · exact absurd hshut (by rw [WriteShut, hi.next_calls ha]; exact List.not_mem_nil)
  intro hstate
  cases hm : s.method threadId_ a with
  | none =>
    rw [next_of_none hm] at hshut hstate
    exact h.shut (hframe.writeShut_iff.mp hshut) (hbook hstate)
  | some m =>
    rw [next_of_some hm, Session.perform] at hshut hstate
    obtain ⟨hconn, -⟩ := (connected_run (hlive.method_isEstablish ha hm)).mp hstate
    rw [WriteShut, (m.run_does _).calls, List.mem_append] at hshut
    obtain hbefore | hcall := hshut
    · exact h.shut (hframe.writeShut_iff.mp hbefore) (hbook hconn)
    · obtain ⟨rfl, -⟩ | ⟨hdisc, -⟩ := shutdownWrite_mem_calls hcall
      · -- the thread is in `shutdown`, past its test
        cases hact.runs hb hm with
        | shutdownInLoop hstored =>
          have hdown := hlive.shutting threadId_ (by rw [hstored]; rfl)
          exact hdown.ne_connected (hbook hconn)
      · cases hdisc.symm.trans hconn

theorem HalfShut.next (h : HalfShut s) (hgated : s.Gated) (hact : Acting threadId_ s pc)
    (hpassed : pc = .sendInLoop → s.conn.state_ = .kConnected)
    (hb : (echo threadId_).enabled (s, pc) (.inl a)) :
    HalfShut ((steps threadId_).next s a) where
  drained := by
    obtain hi | ⟨-, hdrained⟩ :=
      (h.quenched hgated).next hb.1 (h.withheld hact hpassed hb)
    · exact fun hshut => absurd hshut hi.not_writeShut
    · exact hdrained
  stopped := h.stopped_next hgated hact hpassed hb
  shut := h.shut_next hgated hact hb
  last := (next_writesLast hb.1.1).mpr
    ⟨h.last, (h.quenched hgated).writesLate_iff.mpr (h.withheld hact hpassed hb)⟩

/-! ## The answer -/

/-- **What becomes of the messages heard**: the first is sent, unless the connection is closed before,
and then the half-close is under way. -/
structure Answering (threadId_ : τ) (heard : List (List Byte)) (s : Session κ τ)
    (pc : OnMessage) : Prop where
  passed : pc = .sendInLoop → s.conn.state_ = .kConnected
  input : pc ≠ .retrieve → s.conn.inputBuffer_.content = []
  ran : s.ran = [] ∨ ∃ msg, s.ran = [(threadId_, msg)] ∧ heard.head? = some msg
  first : s.ran = [] → s.closed = false →
    pc.First heard s.conn.inputBuffer_.content (s.call threadId_)
  rest : s.ran ≠ [] → s.closed = false → pc.Rest s.conn

omit [DecidableEq τ] in
/-- What an action changes beside these is nothing to it. -/
theorem Answering.quiet (h : Answering threadId_ heard s pc) (hframe : Frame s s')
    (hstate : s'.conn.state_ = s.conn.state_) (hinput : s'.conn.inputBuffer_ = s.conn.inputBuffer_)
    (hcall : s'.call threadId_ = s.call threadId_) : Answering threadId_ heard s' pc where
  passed hpc := hstate.trans (h.passed hpc)
  input hpc := by
    rw [hinput]
    exact h.input hpc
  ran := by
    rw [hframe.ran]
    exact h.ran
  first := by
    rw [hframe.ran, hframe.closed, hinput, hcall]
    exact h.first
  rest := by
    rw [hframe.ran, hframe.closed]
    intro hran hopen
    have hrest := h.rest hran hopen
    cases pc with
    | sendInLoop => exact hrest
    | shutdownStore => trivial
    | _ => simpa only [OnMessage.Rest, hstate, hframe.writeShut_iff, hframe.isWriting] using hrest

omit [DecidableEq τ] in
/-- A method delivers exactly what it calls the message callback for. -/
theorem heard_flatten (m : Method τ) : m.heard.flatten = m.delivered := by
  cases m with
  | handleRead k =>
    cases k with
    | fail errno => rfl
    | data bytes => cases bytes <;> simp [Method.heard, Method.delivered, ReadvResult.bytes]
  | _ => rfl

omit [DecidableEq τ] in
theorem heard_eq (m : Method τ) : m.heard = [] ∨ m.heard = [m.delivered] := by
  cases m with
  | handleRead k =>
    cases k with
    | fail errno => exact .inl rfl
    | data bytes => cases bytes <;> simp [Method.heard, Method.delivered, ReadvResult.bytes]
  | _ => exact .inl rfl

omit [DecidableEq τ] in
/-- A half-close under way goes on with what runs beside it. -/
theorem rest_run {c : TcpConnection κ τ} (he : m.isEstablish = false) (hm : m.closes = false)
    (hsend : m.isSendInLoop = false)
    (h : c.state_ = .kDisconnecting ∧ (c.WriteShut ∨ c.channel_.isWriting = true)) :
    (m.run c).state_ = .kDisconnecting ∧
      ((m.run c).WriteShut ∨ (m.run c).channel_.isWriting = true) := by
  refine ⟨?_, h.2.elim (fun hshut => .inl (writeShut_run hshut)) fun hw =>
    (isWriting_run hm h.1 hw).symm⟩
  rw [(m.run_does c).state, ← h.1]
  cases m with
  | handleRead k =>
    have hk : k ≠ .data [] := by simpa [Method.closes] using hm
    simp [Method.effect, Effect.none, hk]
  | handleWrite r => simp only [Method.effect]; split <;> rfl
  | shutdownInLoop => rfl
  | sendInLoop caller data r => cases hsend
  | connectEstablished => cases he
  | connectDestoryed => cases hm
  | handleClose => cases hm

omit [DecidableEq τ] in
/-- **An event**, or the end of the connection: what it reads is what `onMessage` will find. -/
theorem Answering.event (h : Answering threadId_ heard s .idle) (he : m.isEstablish = false)
    (hsend : m.isSendInLoop = false) (hallowed : m.Allowed s.conn) :
    Answering threadId_ (heard ++ m.heard) (s.perform m)
      (if m.heard = [] then .idle else .retrieve) := by
  have hcontent : (m.run s.conn).inputBuffer_.content = m.delivered := by
    rw [Method.input_run hallowed, h.input (by simp), List.nil_append]
  have hmessage : m.message = [] := by
    cases m <;> first | rfl | cases hsend
  have hran : (s.perform m).ran = s.ran := by rw [Session.perform, hmessage, List.append_nil]
  have hopen : (s.perform m).closed = false → s.closed = false ∧ m.closes = false :=
    Bool.or_eq_false_iff.mp
  refine ⟨?_, ?_, ?_, ?_, ?_⟩
  · split <;> simp
  · obtain hnone | hone := heard_eq m
    · intro _
      rw [Session.perform, hcontent, ← heard_flatten, hnone]
      rfl
    · rw [if_neg (by simp [hone])]
      exact fun hpc => absurd rfl hpc
  · rw [hran]
    refine h.ran.imp_right ?_
    rintro ⟨msg, hmsg, hhead⟩
    refine ⟨msg, hmsg, ?_⟩
    rw [List.head?_append, hhead]
    rfl
  · rw [hran]
    intro hnil hclosed
    have hfirst : heard = [] := h.first hnil (hopen hclosed).1
    obtain hnone | hone := heard_eq m
    · rw [if_pos hnone, hnone, hfirst]
      rfl
    · rw [if_neg (by simp [hone]), hone, hfirst]
      change [m.delivered] = [(m.run s.conn).inputBuffer_.content]
      rw [hcontent]
  · rw [hran]
    intro hne hclosed
    have hrest := rest_run he (hopen hclosed).2 hsend (h.rest hne (hopen hclosed).1)
    split <;> exact hrest

/-! ### `onMessage` -/

omit [DecidableEq τ] in
/-- A callback is run on a connection that is established. -/
theorem Acting.gate (h : Acting threadId_ s pc) (hgated : s.Gated) (hpc : pc ≠ .idle) :
    s.conn.state_ = .kConnected ↔ s.ran = [] ∧ s.closed = false := by
  obtain ⟨c, -, rfl⟩ | ⟨-, hgate⟩ := hgated
  · cases h.user hpc
  · exact hgate

/-- Its `send` lets the message through, or it is not the first, or too late. -/
theorem Answering.send {data : List Byte} (h : Answering threadId_ heard s (.send data))
    (hgate : s.conn.state_ = .kConnected ↔ s.ran = [] ∧ s.closed = false) :
    Answering threadId_ heard (s.book threadId_ (.send threadId_ data))
      (if s.conn.state_ = .kConnected then .sendInLoop else .shutdown) := by
  rw [book]
  split
  case isTrue hconn =>
    obtain ⟨hran, hopen⟩ := hgate.mp hconn
    refine ⟨fun _ => hconn, fun _ => h.input (by simp), h.ran, fun _ _ => ?_, fun hne => absurd hran hne⟩
    exact ⟨data, by simp, h.first hran hopen⟩
  case isFalse hconn =>
    exact ⟨by simp, fun _ => h.input (by simp), h.ran,
      fun hran hopen => absurd (hgate.mpr ⟨hran, hopen⟩) hconn,
      fun hne hopen => .inr (h.rest hne hopen)⟩

omit [DecidableEq τ] in
/-- The message is sent. -/
theorem Answering.sendRun {data : List Byte} {r : WriteResult}
    (h : Answering threadId_ heard s .sendInLoop) (hgated : s.Gated)
    (hcall : s.call threadId_ = .sending data) (hs : s'.conn = s.conn) (hran : s'.ran = s.ran) :
    Answering threadId_ heard (s'.perform (.sendInLoop threadId_ data r)) .shutdown := by
  obtain ⟨-, hnone, hopen⟩ := hgated.connected (h.passed rfl)
  obtain ⟨msg, hmsg, hheard⟩ := h.first hnone hopen
  obtain rfl : data = msg := by simpa [hcall] using hmsg
  have hsent : (s'.perform (.sendInLoop threadId_ data r)).ran = [(threadId_, data)] := by
    simp [Session.perform, hran, hnone, Method.message]
  have hinput : (Method.run (.sendInLoop threadId_ data r) s.conn).inputBuffer_ =
      s.conn.inputBuffer_ := by
    obtain ⟨b, -, heq⟩ := sendInLoop_eq s.conn data r
    rw [Method.run, heq, onChannels_eq]
  refine ⟨by simp, fun _ => ?_, .inr ⟨data, hsent, by rw [hheard]; rfl⟩, fun hran => ?_,
    fun _ _ => .inl ?_⟩
  · rw [Session.perform, hs, hinput]
    exact h.input (by simp)
  · rw [hsent] at hran
    cases hran
  · exact (Method.run_does (.sendInLoop threadId_ data r) s'.conn).state

/-- Its `shutdown` passes its test after the message, and only then unless the connection is
closed. -/
theorem Answering.shutdown (h : Answering threadId_ heard s .shutdown) :
    Answering threadId_ heard (s.book threadId_ (.shutdown threadId_))
      (if s.conn.state_ = .kDisconnected then .shutdownStore else .ret) := by
  rw [book]
  split
  case isTrue hdisc =>
    exact ⟨by simp, fun _ => h.input (by simp), h.ran, h.first, fun _ _ => trivial⟩
  case isFalse hdisc =>
    exact ⟨by simp, fun _ => h.input (by simp), h.ran, h.first,
      fun hne hopen => (h.rest hne hopen).resolve_left hdisc⟩

theorem Answering.shutdownStore (h : Answering threadId_ heard s .shutdownStore) :
    Answering threadId_ heard (s.book threadId_ (.shutdownStore threadId_)) .shutdownInLoop :=
  ⟨by simp, fun _ => h.input (by simp), h.ran, h.first, fun _ _ => rfl⟩

omit [DecidableEq τ] in
/-- The half-close is done, or left to `handleWrite`. -/
theorem Answering.shutdownRun (h : Answering threadId_ heard s .shutdownInLoop)
    (hs : s'.conn = s.conn) (hran : s'.ran = s.ran) (hclosed : s'.closed = s.closed) :
    Answering threadId_ heard (s'.perform .shutdownInLoop) .ret := by
  have hinput : s.conn.shutdownInLoop.inputBuffer_ = s.conn.inputBuffer_ := by
    unfold TcpConnection.shutdownInLoop
    split <;> rfl
  have hstate : s.conn.shutdownInLoop.state_ = s.conn.state_ := by
    unfold TcpConnection.shutdownInLoop
    split <;> rfl
  have hsame : (s'.perform .shutdownInLoop).ran = s.ran := by
    simp [Session.perform, hran, Method.message]
  have hopen : (s'.perform .shutdownInLoop).closed = s.closed := by
    simp [Session.perform, hclosed, Method.closes]
  have hconn : (s'.perform .shutdownInLoop).conn = s.conn.shutdownInLoop := by
    rw [Session.perform, hs]
    rfl
  refine ⟨by simp, fun _ => ?_, ?_, ?_, ?_⟩
  · rw [hconn, hinput]
    exact h.input (by simp)
  · rw [hsame]
    exact h.ran
  · rw [hsame, hopen]
    exact h.first
  · rw [hsame, hopen, hconn]
    exact fun hne hclosed =>
      ⟨hstate.trans (h.rest hne hclosed), writeShut_shutdownInLoop s.conn⟩

omit [DecidableEq τ] in
/-- It takes all there is. -/
theorem Answering.consume {len : ℕ} (h : Answering threadId_ heard s .retrieve)
    (hlen : len = s.conn.inputBuffer_.content.length)
    (hs : s'.conn = { s.conn with inputBuffer_ := s.conn.inputBuffer_.retrieve len })
    (hran : s'.ran = s.ran) (hclosed : s'.closed = s.closed) :
    Answering threadId_ heard s' (.send s.conn.inputBuffer_.content) := by
  refine ⟨by simp, fun _ => ?_, ?_, ?_, ?_⟩
  · rw [hs, SafeBuffer.content_retrieve, hlen, List.drop_length]
  · rw [hran]
    exact h.ran
  · rw [hran, hclosed]
    exact h.first
  · rw [hran, hclosed, hs]
    exact h.rest

/-! ### Every action -/

/-- What an action changes beside its method leaves the input buffer alone, but for what a callback
takes. -/
theorem book_inputBuffer (hconsume : ∀ len, a ≠ .consume len) :
    (s.book threadId_ a).conn.inputBuffer_ = s.conn.inputBuffer_ := by
  cases a with
  | consume len => exact absurd rfl (hconsume len)
  | send t data => simp only [book]; split <;> rfl
  | shutdown t => simp only [book]; split <;> rfl
  | sendRun t k => simp only [book]; split <;> first | rfl | (dsimp only; split <;> rfl)
  | shutdownRun t => simp only [book]; split <;> rfl
  | destroy t => simp only [book]; split <;> rfl
  | _ => rfl

omit [DecidableEq τ] in
/-- `connectEstablished` makes it connected. -/
theorem Answering.established (h : Answering threadId_ heard s .idle) (hs : s.Initial) :
    Answering threadId_ heard (s.perform .connectEstablished) .idle := by
  obtain ⟨c, -, rfl⟩ := hs
  exact ⟨by simp, fun _ => h.input (by simp), .inl rfl, fun _ _ => h.first rfl rfl, fun hne => absurd rfl hne⟩

omit [DecidableEq τ] in
/-- `onMessage` is over. -/
theorem Answering.over (h : Answering threadId_ heard s pc) (hpc : pc = .idle ∨ pc = .ret) :
    Answering threadId_ heard s .idle := by
  obtain rfl | rfl := hpc
  · exact h
  · exact ⟨by simp, fun _ => h.input (by simp), h.ran,
      fun hran hopen => (h.first hran hopen).elim, h.rest⟩

theorem Answering.next (h : Answering threadId_ heard s pc) (hact : Acting threadId_ s pc)
    (hgated : s.Gated) (hb : (echo threadId_).enabled (s, pc) (.inl a)) :
    Answering threadId_ (heard ++ s.hears threadId_ (.inl a)) ((steps threadId_).next s a)
      (s.goesOn threadId_ pc (.inl a)) := by
  have hframe := book_frame hb.1.1
  obtain ⟨ha, hfollows⟩ := hb
  have ha : (steps threadId_).enabled s a := ha
  -- beside its method an action changes nothing here, but where `onMessage` acts
  have hbook : (∀ t, a ≠ .shutdownStore t) → (∀ len, a ≠ .consume len) →
      (s.book threadId_ a).call threadId_ = s.call threadId_ →
      Answering threadId_ heard (s.book threadId_ a) pc := by
    intro hstore hconsume hcall
    refine h.quiet hframe ?_ (book_inputBuffer hconsume) hcall
    rw [book_state]
    split
    · exact absurd rfl (hstore _)
    · rfl
  have hquiet : s.method threadId_ a = none → (∀ t, a ≠ .shutdownStore t) →
      (∀ len, a ≠ .consume len) → (s.book threadId_ a).call threadId_ = s.call threadId_ →
      Answering threadId_ (heard ++ s.hears threadId_ (.inl a)) ((steps threadId_).next s a) pc := by
    intro hm hstore hconsume hcall
    rw [hears_of_none hm, List.append_nil, next_of_none hm]
    exact hbook hstore hconsume hcall
  cases a with
  | connectEstablished =>
    obtain rfl := hact.idle (by simp [ha.1.2.1])
    have hm : s.method threadId_ .connectEstablished = some .connectEstablished := rfl
    rw [hears_of_some hm, next_of_some hm, show (Method.heard _) = [] from rfl, List.append_nil]
    exact h.established (hgated.initial ha.1.1)
  | send t data =>
    obtain ⟨rfl, rfl⟩ := hfollows
    rw [hears_of_none rfl, List.append_nil, next_of_none rfl]
    exact h.send (hact.gate hgated (by simp))
  | sendRun t k =>
    obtain ⟨rfl, rfl⟩ := hfollows
    obtain ⟨data, hcall⟩ : ∃ data, s.call t = .sending data := by
      have hcalling : (s.call t).isSending = true := hact.caller
      cases hcall : s.call t <;> simp [hcall, Call.isSending] at hcalling ⊢
    have hm : s.method t (.sendRun t k) = some (.sendInLoop t data k.write) := by
      simp only [method, hcall, if_true]
    rw [hears_of_some hm, next_of_some hm, show (Method.heard _) = [] from rfl, List.append_nil]
    exact h.sendRun hgated hcall (by simp [book, hcall]) hframe.ran
  | shutdown t =>
    obtain ⟨rfl, rfl⟩ := hfollows
    rw [hears_of_none rfl, List.append_nil, next_of_none rfl]
    exact h.shutdown
  | shutdownStore t =>
    obtain ⟨rfl, rfl⟩ := hfollows
    rw [hears_of_none rfl, List.append_nil, next_of_none rfl]
    exact h.shutdownStore
  | shutdownRun t =>
    obtain ⟨rfl, rfl⟩ := hfollows
    have hm : s.method t (.shutdownRun t) = some .shutdownInLoop := if_pos rfl
    rw [hears_of_some hm, next_of_some hm, show (Method.heard _) = [] from rfl, List.append_nil]
    exact h.shutdownRun (by simp [book]) hframe.ran hframe.closed
  | functor k =>
    obtain ⟨hpending, htodo, -, -⟩ := ha.1
    obtain rfl := hact.idle (by simp [htodo])
    obtain ⟨f, fs, hf⟩ := List.exists_cons_of_ne_nil hpending
    obtain rfl : f = .connectDestoryed := hact.functors f (by simp [hf])
    have hm : s.method threadId_ (.functor k) = some .connectDestoryed := by simp [method, hf]; rfl
    rw [hears_of_some hm, next_of_some hm]
    exact (hbook (by simp) (by simp) rfl).event rfl rfl (ha.2 _ hm)
  | poll revents => exact hquiet rfl (by simp) (by simp) rfl
  | dispatch => exact hquiet rfl (by simp) (by simp) rfl
  | task k =>
    have hready : s.Ready threadId_ (.task k) := ha.1
    obtain rfl : pc = .idle := hact.idle fun hhead => by simp [Ready, userCode, hhead] at hready
    cases hm : s.method threadId_ (.task k) with
    | none =>
      rw [goesOn, hears_of_none hm, if_pos rfl, ← hears_of_none hm]
      exact hquiet hm (by simp) (by simp) rfl
    | some m =>
      rw [goesOn, hears_of_some hm, next_of_some hm]
      have hkind : m.isEstablish = false ∧ m.isSendInLoop = false := by
        cases runs_of_method hm with
        | @task k t m hfirst ht => cases t <;> cases ht <;> exact ⟨rfl, rfl⟩
      exact (hbook (by simp) (by simp) rfl).event hkind.1 hkind.2 (ha.2 m hm)
  | ret =>
    rw [hears_of_none rfl, List.append_nil, next_of_none rfl]
    exact (hbook (by simp) (by simp) rfl).over hfollows
  | removeConnection => exact hquiet rfl (by simp) (by simp) rfl
  | destroy t => exact hfollows.elim
  | others p => exact hquiet rfl (by simp) (by simp) rfl
  | consume len =>
    obtain ⟨rfl, hlen⟩ := hfollows
    rw [hears_of_none rfl, List.append_nil, next_of_none rfl]
    exact h.consume hlen rfl rfl rfl

/-! ### Every run -/

/-- **The invariant of a session of the server.** -/
structure Echoing (threadId_ : τ) (heard : List (List Byte)) (s : Session κ τ) (pc : OnMessage) :
    Prop where
  gated : s.Gated
  acting : Acting threadId_ s pc
  answering : Answering threadId_ heard s pc
  halfShut : HalfShut s

omit [DecidableEq τ] in
theorem Initial.echoing (h : s.Initial) (hcomplete : s.conn.writeCompleteCallback_ = false)
    (hhigh : s.conn.highWaterMarkCallback_ = false)
    (hinput : s.conn.inputBuffer_.content = []) : Echoing threadId_ [] s .idle := by
  have hshut := h.not_writeShut
  obtain ⟨c, hc, rfl⟩ := h
  refine ⟨.inl ⟨c, hc, rfl⟩, ⟨hhigh, hcomplete, fun _ _ => rfl, rfl, by simp, ?_, ?_⟩,
    ⟨by simp, fun _ => hinput, .inl rfl, fun _ _ => rfl, fun hne => absurd rfl hne⟩,
    ⟨fun hs => absurd hs hshut, by simp [new], fun hs => absurd hs hshut, ?_⟩⟩
  · simp [new, hc.functors]
  · simp [new, hc.functors]
  · simp [new, WritesLast, hc.calls]

theorem Echoing.next {b : Action κ τ ⊕ ℕ} (h : Echoing threadId_ heard s pc)
    (hb : (echo threadId_).enabled (s, pc) b) :
    Echoing threadId_ (heard ++ s.hears threadId_ b) ((marked threadId_).next s b)
      (s.goesOn threadId_ pc b) := by
  cases b with
  | inr mark => exact hb.2.elim
  | inl a =>
    obtain ⟨hgated, hacting, hanswering, hhalf⟩ := h
    exact ⟨hgated.next hb.1, hacting.next hb, hanswering.next hacting hgated hb,
      hhalf.next hgated hacting hanswering.passed hb⟩

/-- **Every run of a session of the server.** -/
theorem Echoing.run {p : Session κ τ × OnMessage} {bs : List (Action κ τ ⊕ ℕ)}
    (h : Echoing threadId_ heard p.1 p.2) (hbs : (echo threadId_).Valid p bs) :
    Echoing threadId_ (heard ++ (marked threadId_).collect (hears threadId_) p.1 bs)
      ((echo threadId_).run p bs).1 ((echo threadId_).run p bs).2 := by
  induction bs generalizing p heard with
  | nil => simpa using h
  | cons b bs ih =>
    rw [Machine.collect_cons, ← List.append_assoc]
    exact ih (h.next hbs.1) hbs.2

/-! ### What it comes to -/

omit [DecidableEq τ] in
/-- What is kept of the messages that run is some of them. -/
theorem kept_sublist (rs : List (TcpConnection κ τ × Method τ)) :
    (rs.flatMap fun r => r.1.kept r.2).Sublist ((rs.flatMap (·.2.message)).map Prod.snd) := by
  have hone : ∀ r : TcpConnection κ τ × Method τ,
      (r.1.kept r.2).Sublist (r.2.message.map Prod.snd) := by
    rintro ⟨c, m⟩
    cases m with
    | sendInLoop caller data r =>
      simp only [TcpConnection.kept, Method.message, List.map_cons, List.map_nil]
      split
      · exact List.nil_sublist _
      · exact List.Sublist.refl _
    | _ => exact List.nil_sublist _
  induction rs with
  | nil => exact List.Sublist.refl _
  | cons r rs ih =>
    rw [List.flatMap_cons, List.flatMap_cons, List.map_append]
    exact (hone r).append ih

/-- **The output is the first message heard**, or there is none. -/
theorem Answering.output {rs : List (TcpConnection κ τ × Method τ)} {ms : List (τ × List Byte)}
    (h : Answering threadId_ heard s pc) (hsums : Sums threadId_ rs ms s) :
    s.conn.output = [] ∨ heard.head? = some s.conn.output := by
  have hkept := kept_sublist rs
  rw [← hsums.ran] at hkept
  rw [hsums.output]
  obtain hnone | ⟨msg, hran, hhead⟩ := h.ran
  · rw [hnone] at hkept
    rw [List.sublist_nil.mp hkept]
    exact .inl rfl
  · rw [hran] at hkept
    obtain hnone | hone := List.sublist_singleton.mp hkept
    · rw [hnone]
      exact .inl rfl
    · rw [hone]
      exact .inr (by simpa using hhead)

omit [DecidableEq τ] in
/-- While the connection is open nothing waits behind the half-close. -/
theorem Echoing.emptied (h : Echoing threadId_ heard s pc) (hopen : s.closed = false)
    (hshut : s.conn.WriteShut) : s.conn.outputBuffer_.content = [] := by
  obtain hi | ⟨hlive, -⟩ := h.gated
  · exact absurd hshut hi.not_writeShut
  · have hquiet := h.halfShut.drained hshut hopen
    by_contra hne
    rw [(hlive.armed hopen).mpr hne] at hquiet
    cases hquiet

omit [DecidableEq τ] in
/-- **Once `onMessage` has returned** on an open connection, the first message has been sent, and the
half-close is done or follows the last of it. -/
theorem Echoing.settled (h : Echoing threadId_ heard s .idle) (hheard : heard ≠ [])
    (hopen : s.closed = false) : ∃ msg, heard.head? = some msg ∧ s.ran = [(threadId_, msg)] ∧
      s.conn.state_ = .kDisconnecting ∧
        (s.conn.WriteShut ∨ s.conn.outputBuffer_.content ≠ [] ∧ s.conn.channel_.isWriting = true) := by
  obtain hnone | ⟨msg, hran, hhead⟩ := h.answering.ran
  · exact absurd (h.answering.first hnone hopen) hheard
  · obtain ⟨hstate, hshut⟩ := h.answering.rest (by simp [hran]) hopen
    refine ⟨msg, hhead, hran, hstate, hshut.imp_right fun hw => ⟨?_, hw⟩⟩
    obtain ⟨c, -, rfl⟩ | ⟨hlive, -⟩ := h.gated
    · cases hran
    · exact (hlive.armed hopen).mp hw

end Session

end Mymuduo
