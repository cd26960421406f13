import Mymuduo.Poller.Agreement
import Mymuduo.TcpConnection.Model

/-!
# TcpConnection/Methods — what a method does, in one record

Every property of a connection is about five things a method can change: `state_`, the channel with
its poller, the bytes waiting in `outputBuffer_`, the calls on the socket, and the functors queued.
`Method.effect` says what a method does to them, as a function of what it finds, and `run_does`
that the code does just that — so nothing after this module looks into a method again.
-/

namespace Mymuduo

open Machinery

/-- The callbacks of the user that a method queues. -/
def PendingFunctor.isCallback {τ : Type*} : PendingFunctor τ → Bool
  | writeCompleteCallback | highWaterMarkCallback _ => true
  | connectDestoryed | sendInLoop _ _ | shutdownInLoop => false

namespace TcpConnection

variable {κ τ : Type*} (c : TcpConnection κ τ)

/-- The methods the loop's thread runs, with the kernel's answers. -/
inductive Method (τ : Type*)
  | connectEstablished
  | connectDestoryed
  | sendInLoop (caller : τ) (data : List Byte) (r : WriteResult)
  | shutdownInLoop
  | handleRead (k : ReadvResult)
  | handleWrite (r : WriteResult)
  | handleClose

namespace Method

def run (m : Method τ) (c : TcpConnection κ τ) : TcpConnection κ τ :=
  match m with
  | connectEstablished => c.connectEstablished
  | connectDestoryed => c.connectDestoryed
  | sendInLoop _ data r => c.sendInLoop data r
  | shutdownInLoop => c.shutdownInLoop
  | handleRead k => c.handleRead k
  | handleWrite r => c.handleWrite r
  | handleClose => c.handleClose

/-- `handleClose` runs, or `connectDestoryed`. -/
def closes : Method τ → Bool
  | connectDestoryed | handleClose => true
  | handleRead k => k = .data []
  | connectEstablished | sendInLoop _ _ _ | shutdownInLoop | handleWrite _ => false

end Method

/-! ## Effects -/

/-- `sendInLoop` tries the socket first. -/
def WritesDirectly : Prop := c.channel_.isWriting = false ∧ c.outputBuffer_.content = []

instance : Decidable c.WritesDirectly := inferInstanceAs (Decidable (_ ∧ _))

/-- The answers on which `sendInLoop` gives a message up. -/
def Faults (r : WriteResult) : Prop :=
  ¬ 0 < r.n ∧ r.errno ≠ EWOULDBLOCK ∧ (r.logged = EPIPE ∨ r.logged = ECONNRESET)

instance (r : WriteResult) : Decidable (Faults r) := inferInstanceAs (Decidable (_ ∧ _))

/-- The bytes of a message that `sendInLoop` leaves to the buffer. -/
def leftover (data : List Byte) (r : WriteResult) : List Byte :=
  if c.WritesDirectly then if Faults r then [] else data.drop r.n.toNat else data

/-- The write drains the buffer. -/
def Drains (r : WriteResult) : Prop := 0 < r.n ∧ c.outputBuffer_.content.drop r.n.toNat = []

instance (r : WriteResult) : Decidable (c.Drains r) := inferInstanceAs (Decidable (_ ∧ _))

/-- The bytes waiting for the socket. -/
def backlog : ℕ := c.outputBuffer_.readableBytes

/-- What a direct write queues: it took the whole message. -/
def completion (data : List Byte) (r : WriteResult) : List (PendingFunctor τ) :=
  if c.WritesDirectly ∧ 0 < r.n ∧ data.drop r.n.toNat = [] ∧ c.writeCompleteCallback_ = true then
    [.writeCompleteCallback]
  else []

/-- What is queued with `rest` left to the buffer: it lifts the backlog over the mark. -/
def flooding (rest : List Byte) : List (PendingFunctor τ) :=
  if rest ≠ [] ∧ c.highWaterMark_ ≤ c.backlog + rest.length ∧ c.backlog < c.highWaterMark_ ∧
      c.highWaterMarkCallback_ = true then
    [.highWaterMarkCallback (c.backlog + rest.length)]
  else []

/-- What a method does: the state it leaves, the calls it makes on the channel, the bytes it leaves
waiting, the calls it makes on the socket. -/
structure Effect where
  state : StateE
  ops : List ChannelOp
  content : List Byte
  calls : List SocketCall

/-- Nothing. -/
def Effect.none : Effect := ⟨c.state_, [], c.outputBuffer_.content, []⟩

/-- **What each method does.** -/
def Method.effect (m : Method τ) (c : TcpConnection κ τ) : Effect :=
  let skip := Effect.none c
  match m with
  | connectEstablished => { skip with state := .kConnected, ops := [.enableReading] }
  | connectDestoryed =>
      if c.state_ = .kConnected then
        { skip with state := .kDisconnected, ops := [.disableAll, .remove] }
      else { skip with ops := [.remove] }
  | sendInLoop _ data r =>
      { state := .kDisconnected
        ops := if c.leftover data r ≠ [] ∧ c.channel_.isWriting = false then [.enableWriting] else []
        content := c.outputBuffer_.content ++ c.leftover data r
        calls := if c.WritesDirectly then [.write (data.take r.n.toNat)] else [] }
  | shutdownInLoop =>
      { skip with calls := if c.channel_.isWriting then [] else [.shutdownWrite] }
  | handleRead k =>
      if k = .data [] then { skip with state := .kDisconnected, ops := [.disableAll] } else skip
  | handleWrite r =>
      if c.channel_.isWriting then
        { skip with
          ops := if c.Drains r then [.disableWriting] else []
          content := c.outputBuffer_.content.drop r.n.toNat
          calls := .write (c.outputBuffer_.content.take r.n.toNat) ::
            if c.Drains r ∧ c.state_ = .kDisconnecting then [.shutdownWrite] else [] }
      else skip
  | handleClose => { skip with state := .kDisconnected, ops := [.disableAll] }

/-- A list of calls on the channel. -/
def onChannels (ops : List ChannelOp) : TcpConnection κ τ := ops.foldl onChannel c

/-- The code did what the effect says, and queued nothing but callbacks. -/
structure Does (c : TcpConnection κ τ) (e : Effect) (c' : TcpConnection κ τ) : Prop where
  addr : c'.addr = c.addr
  state : c'.state_ = e.state
  channel : c'.channel_ = (c.onChannels e.ops).channel_
  poller : c'.poller_ = (c.onChannels e.ops).poller_
  content : c'.outputBuffer_.content = e.content
  calls : c'.socketCalls = c.socketCalls ++ e.calls
  functors : ∃ cbs : List (PendingFunctor τ), (∀ f ∈ cbs, f.isCallback) ∧
    c'.pendingFunctors_ = c.pendingFunctors_ ++ cbs

/-! ## The code has these effects -/

variable {c} {data : List Byte} {r : WriteResult}

/-- The tests `sendInLoop` makes on `errno`. -/
theorem faults_iff (hn : ¬ 0 < r.n) : Faults r ↔
    (r.errno != EWOULDBLOCK && (r.logged == EPIPE || r.logged == ECONNRESET)) = true := by
  simp only [Faults, hn, not_false_eq_true, true_and, Bool.and_eq_true, bne_iff_ne,
    Bool.or_eq_true, beq_iff_eq]

/-- **The direct write**: it touches the socket and may queue a callback, and its locals describe
the leftover. -/
theorem writeDirectly_spec (c : TcpConnection κ τ) (data : List Byte) (r : WriteResult) :
    ∃ l, c.writeDirectly data r = (l, { c with
        socketCalls := c.socketCalls ++
          if c.WritesDirectly then [.write (data.take r.n.toNat)] else []
        pendingFunctors_ := c.pendingFunctors_ ++ c.completion data r }) ∧
      l.remaining = (data.drop l.nwrote).length ∧
      c.leftover data r = if l.faultError then [] else data.drop l.nwrote := by
  by_cases hdirect : c.WritesDirectly
  · have hguard : (!c.channel_.isWriting && c.outputBuffer_.readableBytes == 0) = true := by
      simp [hdirect.1, c.outputBuffer_.readableBytes_eq_zero.mpr hdirect.2]
    by_cases hn : 0 < r.n
    · have hfault : ¬ Faults r := fun h => h.1 hn
      refine ⟨⟨r.n.toNat, data.length - r.n.toNat, false⟩, ?_, by simp,
        by simp [leftover, hdirect, hfault]⟩
      simp [writeDirectly, hguard, hn, write, queueIf_eq, hdirect, completion, List.drop_eq_nil_iff,
        Nat.sub_eq_zero_iff_le]
    · have hzero : r.n.toNat = 0 := Int.toNat_of_nonpos (Int.not_lt.mp hn)
      refine ⟨⟨0, data.length,
        r.errno != EWOULDBLOCK && (r.logged == EPIPE || r.logged == ECONNRESET)⟩, ?_, by simp, ?_⟩
      · simp [writeDirectly, hguard, hn, write, hdirect, completion]
      · simp only [leftover, hdirect, if_true, faults_iff hn, hzero]
  · have hguard : (!c.channel_.isWriting && c.outputBuffer_.readableBytes == 0) = false := by
      simpa [WritesDirectly, c.outputBuffer_.readableBytes_eq_zero] using hdirect
    refine ⟨⟨0, data.length, false⟩, ?_, by simp, by simp [leftover, hdirect]⟩
    simp [writeDirectly, hguard, hdirect, completion]

/-- **The rest of `sendInLoop`**: the leftover goes to the buffer, and where there is one the
channel asks for writing. -/
theorem bufferRemaining_spec {l : SendLocals} (hl : l.remaining = (data.drop l.nwrote).length) :
    ∃ rest, rest = (if l.faultError then [] else data.drop l.nwrote) ∧
      ∃ b : SafeBuffer, b.content = c.outputBuffer_.content ++ rest ∧
        c.bufferRemaining data l =
          { c.onChannels (if rest ≠ [] ∧ c.channel_.isWriting = false then [.enableWriting] else [])
            with pendingFunctors_ := c.pendingFunctors_ ++ c.flooding rest, outputBuffer_ := b } := by
  by_cases hrest : l.faultError = false ∧ 0 < l.remaining
  · obtain ⟨hfault, hpos⟩ := hrest
    have hne : data.drop l.nwrote ≠ [] := by
      rw [← List.length_pos_iff, ← hl]
      exact hpos
    refine ⟨data.drop l.nwrote, by simp [hfault], c.outputBuffer_.append (data.drop l.nwrote),
      by simp, ?_⟩
    have htake : (data.drop l.nwrote).take l.remaining = data.drop l.nwrote := by
      rw [hl, List.take_length]
    have hflood : (if c.outputBuffer_.readableBytes + l.remaining ≥ c.highWaterMark_ &&
        c.outputBuffer_.readableBytes < c.highWaterMark_ && c.highWaterMarkCallback_ then
        [PendingFunctor.highWaterMarkCallback (c.outputBuffer_.readableBytes + l.remaining)]
        else []) = (c.flooding (data.drop l.nwrote) : List (PendingFunctor τ)) := by
      simp only [flooding, backlog, hl, ne_eq, hne, not_false_eq_true, true_and, ge_iff_le,
        Bool.and_eq_true, decide_eq_true_eq, and_assoc]
    by_cases hw : c.channel_.isWriting
    · simp [bufferRemaining, hfault, hpos, htake, queueIf_eq, ← hflood, hw, hne, onChannels]
    · simp [bufferRemaining, hfault, hpos, htake, queueIf_eq, ← hflood, hw, hne, onChannels,
        onChannel]
  · have hguard : (!l.faultError && decide (0 < l.remaining)) = false := by
      simpa using hrest
    have hrest' : (if l.faultError then [] else data.drop l.nwrote) = [] := by
      cases hfault : l.faultError
      · have hzero : (data.drop l.nwrote).length = 0 := by
          rw [← hl]
          exact Nat.eq_zero_of_not_pos fun hpos => hrest ⟨hfault, hpos⟩
        simpa using List.eq_nil_of_length_eq_zero hzero
      · rfl
    refine ⟨[], hrest'.symm, c.outputBuffer_, by simp, ?_⟩
    simp [bufferRemaining, hguard, onChannels, flooding]

/-- **`sendInLoop`, in one record**: the direct write, then the leftover to the buffer. -/
theorem sendInLoop_eq (c : TcpConnection κ τ) (data : List Byte) (r : WriteResult) :
    ∃ b : SafeBuffer, b.content = c.outputBuffer_.content ++ c.leftover data r ∧
      c.sendInLoop data r =
        { onChannels { c with
            state_ := .kDisconnected
            socketCalls := c.socketCalls ++
              if c.WritesDirectly then [.write (data.take r.n.toNat)] else []
            pendingFunctors_ := c.pendingFunctors_ ++ c.completion data r }
            (if c.leftover data r ≠ [] ∧ c.channel_.isWriting = false then [.enableWriting] else [])
          with
          pendingFunctors_ := c.pendingFunctors_ ++ c.completion data r ++
            c.flooding (c.leftover data r)
          outputBuffer_ := b } := by
  obtain ⟨l, hwrite, hl, hleft⟩ := writeDirectly_spec (c.setState .kDisconnected) data r
  -- the connection between the two halves
  let c₂ : TcpConnection κ τ := { c with
    state_ := .kDisconnected
    socketCalls := c.socketCalls ++ if c.WritesDirectly then [.write (data.take r.n.toNat)] else []
    pendingFunctors_ := c.pendingFunctors_ ++ c.completion data r }
  have hrun : c.sendInLoop data r = c₂.bufferRemaining data l :=
    congrArg (fun p => p.2.bufferRemaining data p.1) hwrite
  obtain ⟨rest, hrest, b, hb, hbuffer⟩ := bufferRemaining_spec (c := c₂) hl
  obtain rfl : rest = c.leftover data r := hrest.trans hleft.symm
  exact ⟨b, hb, hrun.trans hbuffer⟩

/-! ### Calls on the channel -/

@[simp] theorem onChannels_nil : c.onChannels [] = c := rfl

/-- Calls on the channel see the channel, its address and the poller, and nothing else. -/
theorem onChannels_congr (c c' : TcpConnection κ τ) (haddr : c'.addr = c.addr)
    (hchannel : c'.channel_ = c.channel_) (hpoller : c'.poller_ = c.poller_) :
    ∀ ops : List ChannelOp, (c'.onChannels ops).channel_ = (c.onChannels ops).channel_ ∧
      (c'.onChannels ops).poller_ = (c.onChannels ops).poller_ := by
  intro ops
  induction ops generalizing c c' with
  | nil => exact ⟨hchannel, hpoller⟩
  | cons op ops ih =>
    refine ih (c.onChannel op) (c'.onChannel op) haddr ?_ ?_ <;>
      simp only [onChannel, haddr, hchannel, hpoller]

/-- They change the channel and the poller, and nothing else. -/
theorem onChannels_eq (ops : List ChannelOp) : c.onChannels ops =
    { c with channel_ := (c.onChannels ops).channel_, poller_ := (c.onChannels ops).poller_ } := by
  induction ops generalizing c with
  | nil => rfl
  | cons op ops ih => exact ih

@[simp] theorem onChannels_addr (ops : List ChannelOp) : (c.onChannels ops).addr = c.addr := by
  rw [onChannels_eq]

@[simp] theorem onChannels_state (ops : List ChannelOp) : (c.onChannels ops).state_ = c.state_ := by
  rw [onChannels_eq]

@[simp] theorem onChannels_socketCalls (ops : List ChannelOp) :
    (c.onChannels ops).socketCalls = c.socketCalls := by
  rw [onChannels_eq]

/-! ### Method by method -/

theorem sendInLoop_does (caller : τ) (data : List Byte) (r : WriteResult) :
    c.Does ((Method.sendInLoop caller data r).effect c) (c.sendInLoop data r) := by
  obtain ⟨b, hb, heq⟩ := sendInLoop_eq c data r
  obtain ⟨hchannel, hpoller⟩ := onChannels_congr c { c with
      state_ := .kDisconnected
      socketCalls := c.socketCalls ++
        if c.WritesDirectly then [.write (data.take r.n.toNat)] else []
      pendingFunctors_ := c.pendingFunctors_ ++ c.completion data r } rfl rfl rfl
    ((Method.sendInLoop caller data r).effect c).ops
  rw [heq]
  refine ⟨onChannels_addr _, onChannels_state _, hchannel, hpoller, hb, onChannels_socketCalls _,
    c.completion data r ++ c.flooding (c.leftover data r), ?_, List.append_assoc ..⟩
  intro f hf
  obtain hf | hf := List.mem_append.mp hf
  · obtain ⟨-, hf⟩ := List.mem_ite_nil_right.mp hf
    rw [List.mem_singleton.mp hf]
    rfl
  · obtain ⟨-, hf⟩ := List.mem_ite_nil_right.mp hf
    rw [List.mem_singleton.mp hf]
    rfl

theorem shutdownInLoop_does :
    c.Does ((Method.shutdownInLoop : Method τ).effect c) c.shutdownInLoop := by
  cases hw : c.channel_.isWriting
  all_goals
    refine ⟨?_, ?_, ?_, ?_, ?_, ?_, [], by simp, ?_⟩ <;>
      simp [shutdownInLoop, shutdownWrite, hw, Method.effect, Effect.none]

theorem connectEstablished_does :
    c.Does ((Method.connectEstablished : Method τ).effect c) c.connectEstablished :=
  ⟨rfl, rfl, rfl, rfl, rfl, by simp [connectEstablished, onChannel, setState, Method.effect,
    Effect.none], [], by simp, by simp [connectEstablished, onChannel, setState]⟩

theorem handleClose_does : c.Does ((Method.handleClose : Method τ).effect c) c.handleClose :=
  ⟨rfl, rfl, rfl, rfl, rfl, by simp [handleClose, onChannel, setState, Method.effect,
    Effect.none], [], by simp, by simp [handleClose, onChannel, setState]⟩

theorem handleRead_does (k : ReadvResult) :
    c.Does ((Method.handleRead k : Method τ).effect c) (c.handleRead k) := by
  by_cases hk : k = .data []
  · refine ⟨?_, ?_, ?_, ?_, ?_, ?_, [], by simp, ?_⟩ <;>
      simp [handleRead, handleClose, hk, Method.effect, Effect.none, onChannels, onChannel,
        setState]
  · refine ⟨?_, ?_, ?_, ?_, ?_, ?_, [], by simp, ?_⟩ <;>
      simp [handleRead, hk, Method.effect, Effect.none, onChannels]

theorem connectDestoryed_does :
    c.Does ((Method.connectDestoryed : Method τ).effect c) c.connectDestoryed := by
  by_cases hs : c.state_ = .kConnected
  · refine ⟨?_, ?_, ?_, ?_, ?_, ?_, [], by simp, ?_⟩ <;>
      simp [connectDestoryed, hs, Method.effect, Effect.none, onChannels, onChannel, setState]
  · refine ⟨?_, ?_, ?_, ?_, ?_, ?_, [], by simp, ?_⟩ <;>
      simp [connectDestoryed, hs, Method.effect, Effect.none, onChannels, onChannel]

theorem handleWrite_does (r : WriteResult) :
    c.Does ((Method.handleWrite r : Method τ).effect c) (c.handleWrite r) := by
  cases hw : c.channel_.isWriting
  case false =>
    refine ⟨?_, ?_, ?_, ?_, ?_, ?_, [], by simp, ?_⟩ <;>
      simp [handleWrite, hw, Method.effect, Effect.none, onChannels]
  by_cases hn : 0 < r.n
  case neg =>
    have hdrain : ¬ c.Drains r := fun h => hn h.1
    have hzero : r.n.toNat = 0 := Int.toNat_of_nonpos (Int.not_lt.mp hn)
    refine ⟨?_, ?_, ?_, ?_, ?_, ?_, [], by simp, ?_⟩ <;>
      simp [handleWrite, hw, hn, hzero, hdrain, write, Method.effect, Effect.none, onChannels]
  by_cases hempty : c.outputBuffer_.content.drop r.n.toNat = []
  case neg =>
    have hdrain : ¬ c.Drains r := fun h => hempty h.2
    have hread : ¬ (c.outputBuffer_.retrieve r.n.toNat).readableBytes = 0 := by
      rwa [SafeBuffer.readableBytes_eq_zero, SafeBuffer.content_retrieve]
    refine ⟨?_, ?_, ?_, ?_, ?_, ?_, [], by simp, ?_⟩ <;>
      simp [handleWrite, hw, hn, hread, hdrain, write, Method.effect, Effect.none, onChannels]
  have hdrain : c.Drains r := ⟨hn, hempty⟩
  have hread : (c.outputBuffer_.retrieve r.n.toNat).readableBytes = 0 := by
    rwa [SafeBuffer.readableBytes_eq_zero, SafeBuffer.content_retrieve]
  refine ⟨?_, ?_, ?_, ?_, ?_, ?_, if c.writeCompleteCallback_ then [.writeCompleteCallback] else [],
    by split <;> simp [PendingFunctor.isCallback], ?_⟩
  all_goals
    by_cases hs : c.state_ = .kDisconnecting <;>
      simp [handleWrite, hw, hn, hread, hdrain, hs, write, queueIf_eq, shutdownInLoop,
        shutdownWrite, Method.effect, Effect.none, onChannels, onChannel]

/-- **Every method does what its effect says.** -/
theorem Method.run_does (m : Method τ) (c : TcpConnection κ τ) : c.Does (m.effect c) (m.run c) := by
  cases m with
  | connectEstablished => exact connectEstablished_does
  | connectDestoryed => exact connectDestoryed_does
  | sendInLoop caller data r => exact sendInLoop_does caller data r
  | shutdownInLoop => exact shutdownInLoop_does
  | handleRead k => exact handleRead_does k
  | handleWrite r => exact handleWrite_does r
  | handleClose => exact handleClose_does

/-! ## What an effect leaves alone -/

/-- The poller agrees with the connection's channel. -/
def Agrees (c : TcpConnection κ τ) : Prop := c.poller_.AgreesAt c.addr c.channel_

theorem onChannels_agrees (h : c.Agrees) (ops : List ChannelOp) : (c.onChannels ops).Agrees := by
  induction ops generalizing c with
  | nil => exact h
  | cons op ops ih => exact ih (ChannelOp.call_agrees h)

theorem Does.agrees {c' : TcpConnection κ τ} {e : Effect} (h : c.Does e c') (hc : c.Agrees) :
    c'.Agrees := by
  have := onChannels_agrees hc e.ops
  rw [Agrees, onChannels_addr] at this
  rwa [Agrees, h.addr, h.channel, h.poller]

theorem onChannels_fd (ops : List ChannelOp) :
    (c.onChannels ops).channel_.fd_ = c.channel_.fd_ := by
  induction ops generalizing c with
  | nil => rfl
  | cons op ops ih => exact ih.trans (ChannelOp.fd_call ..)

theorem Does.fd {c' : TcpConnection κ τ} {e : Effect} (h : c.Does e c') :
    c'.channel_.fd_ = c.channel_.fd_ := by
  rw [h.channel, onChannels_fd]

/-! ## The methods as a machine -/

/-- The kernel's answers a method may get where it finds the connection. -/
def Method.Allowed (m : Method τ) (c : TcpConnection κ τ) : Prop :=
  match m with
  | sendInLoop _ data r => c.WritesDirectly → r.Allowed data.length
  | handleWrite r => c.channel_.isWriting → r.Allowed c.outputBuffer_.content.length
  | handleRead k => c.inputBuffer_.Allowed (.readFd k)
  | connectEstablished | connectDestoryed | shutdownInLoop | handleClose => True

instance Method.Allowed.decidable (c : TcpConnection κ τ) :
    ∀ m : Method τ, Decidable (m.Allowed c)
  -- the answer is looked at first, the buffer only if it must be
  | .sendInLoop _ data r =>
      if h : r.Allowed data.length then isTrue fun _ => h else inferInstanceAs (Decidable (_ → _))
  | .handleWrite _ => inferInstanceAs (Decidable (_ → _))
  | .handleRead _ => inferInstanceAs (Decidable (Buffer.Allowed _ _))
  | .connectEstablished | .connectDestoryed | .shutdownInLoop | .handleClose => isTrue trivial

/-- The methods, in any order and with any answers. -/
def methods : Machine (TcpConnection κ τ) (Method τ) where
  enabled c m := m.Allowed c
  next c m := m.run c

instance (c : TcpConnection κ τ) (m : Method τ) : Decidable (methods.enabled c m) :=
  inferInstanceAs (Decidable (m.Allowed c))

end TcpConnection

end Mymuduo
