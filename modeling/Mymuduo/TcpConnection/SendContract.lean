import Mathlib.Data.Fintype.Defs
import Mymuduo.Machinery.Shuffle
import Mymuduo.TcpConnection.Phases

/-!
# TcpConnection/SendContract — what becomes of the messages of `send`

A message is handed to the connection when the call of `send` that brings it gets past its test: the
loop's thread runs `sendInLoop` on it at once, any other queues it.  From there nothing is lost and
no thread's messages change places, because the loop's thread queues none of its own:

    written ++ outputBuffer_ ++ queued = what was handed over = a shuffle of what was sent

The last equation fails at one place, the test.  `sendInLoop` leaves `state_` at `kDisconnected`, so
after the first one that runs every `send` returns without a trace (`delivered_iff`).
-/

namespace Mymuduo

open Machinery TcpConnection

variable {κ τ : Type*}

/-- The message a functor carries, with the thread it is from. -/
def PendingFunctor.message : PendingFunctor τ → List (τ × List Byte)
  | sendInLoop caller data => [(caller, data)]
  | connectDestoryed | shutdownInLoop | writeCompleteCallback | highWaterMarkCallback _ => []

theorem PendingFunctor.message_of_isCallback {f : PendingFunctor τ} (h : f.isCallback = true) :
    f.message = [] := by
  cases f with
  | sendInLoop caller data => cases h
  | _ => rfl

namespace TcpConnection

variable {c c' : TcpConnection κ τ} {m : Method τ}

/-- The messages of the `sendInLoop` functors still queued, in order. -/
def queued (c : TcpConnection κ τ) : List (τ × List Byte) :=
  c.pendingFunctors_.flatMap PendingFunctor.message

/-- Methods queue callbacks only. -/
theorem queued_run (m : Method τ) (c : TcpConnection κ τ) : (m.run c).queued = c.queued := by
  obtain ⟨cbs, hcbs, hfunctors⟩ := (m.run_does c).functors
  have hnone : cbs.flatMap PendingFunctor.message = [] :=
    List.flatMap_eq_nil_iff.mpr fun f hf => PendingFunctor.message_of_isCallback (hcbs f hf)
  rw [queued, hfunctors, List.flatMap_append, hnone, List.append_nil, queued]

/-- A method gives its message up: the socket it tries first says that the peer is gone. -/
def Drops (c : TcpConnection κ τ) : Method τ → Prop
  | .sendInLoop _ _ r => c.Dropped r
  | .connectEstablished | .connectDestoryed | .shutdownInLoop | .handleRead _ | .handleWrite _
  | .handleClose => False

instance (c : TcpConnection κ τ) : ∀ m, Decidable (c.Drops m)
  | .sendInLoop _ _ _ => inferInstanceAs (Decidable (c.Dropped _))
  | .connectEstablished | .connectDestoryed | .shutdownInLoop | .handleRead _ | .handleWrite _
  | .handleClose => isFalse id

/-- Otherwise the output grows by the message. -/
theorem output_run_of_not_drops (hallowed : m.Allowed c) (hkeep : ¬ c.Drops m) :
    (m.run c).output = c.output ++ m.message.flatMap Prod.snd := by
  rw [output_run m hallowed]
  cases m with
  | sendInLoop caller data r =>
    have hkeep : ¬ c.Dropped r := hkeep
    simp [kept, hkeep, Method.message]
  | _ => rfl

/-- A method leaves `kConnected` only where it found it, and only if it is neither a `sendInLoop`
nor a closing one. -/
theorem connected_run (he : m.isEstablish = false) : (m.run c).state_ = .kConnected ↔
    c.state_ = .kConnected ∧ m.message = [] ∧ m.closes = false := by
  rw [(m.run_does c).state]
  cases m with
  | connectEstablished => cases he
  | connectDestoryed =>
    by_cases hs : c.state_ = .kConnected <;> simp [Method.effect, Effect.none, Method.closes, hs]
  | sendInLoop caller data r => simp [Method.effect, Method.message]
  | shutdownInLoop => simp [Method.effect, Effect.none, Method.message, Method.closes]
  | handleRead k =>
    by_cases hk : k = .data [] <;>
      simp [Method.effect, Effect.none, Method.message, Method.closes, hk]
  | handleWrite r =>
    by_cases hw : c.channel_.isWriting = true <;>
      simp [Method.effect, Effect.none, Method.message, Method.closes, hw]
  | handleClose => simp [Method.effect, Method.closes]

end TcpConnection

namespace Session

variable [DecidableEq τ] {threadId_ : τ} {s s' : Session κ τ} {a : Action κ τ} {m : Method τ}
  {as : List (Action κ τ)}

/-! ## What an action does to the messages -/

/-- The message an action hands over. -/
def handed (s : Session κ τ) : Action κ τ → List (τ × List Byte)
  | .sendRun t _ =>
      match s.call t with
      | .sending data => [(t, data)]
      | .idle | .shutTested | .shutStored => []
  | _ => []

/-- The message a call of `send` returns without having handed over. -/
def refused (s : Session κ τ) : Action κ τ → List (τ × List Byte)
  | .send t data => if s.conn.state_ = .kConnected then [] else [(t, data)]
  | _ => []

variable (threadId_) in
/-- A step's method touches neither the callers nor what they have sent. -/
theorem next_callers (s : Session κ τ) (a : Action κ τ) :
    ((steps threadId_).next s a).call = (s.book threadId_ a).call ∧
      ((steps threadId_).next s a).sent = (s.book threadId_ a).sent ∧
      ((steps threadId_).next s a).shutdownReturned =
        (s.book threadId_ a).shutdownReturned := by
  cases hm : s.method threadId_ a with
  | none => rw [next_of_none hm]; exact ⟨rfl, rfl, rfl⟩
  | some m => rw [next_of_some hm]; exact ⟨rfl, rfl, rfl⟩

/-- Nor does it queue a message. -/
theorem next_queued (s : Session κ τ) (a : Action κ τ) :
    ((steps threadId_).next s a).conn.queued =
      (s.conn.pendingFunctors_.drop a.takes).flatMap PendingFunctor.message ++
        (s.queues threadId_ a).flatMap PendingFunctor.message := by
  have hnext : ((steps threadId_).next s a).conn.queued = (s.book threadId_ a).conn.queued := by
    cases hm : s.method threadId_ a with
    | none => rw [next_of_none hm]
    | some m => rw [next_of_some hm]; exact queued_run m _
  rw [hnext, queued, book_functors, List.flatMap_append]

theorem next_ran (ha : s.Ready threadId_ a) : ((steps threadId_).next s a).ran =
    s.ran ++ (s.method threadId_ a).elim [] Method.message := by
  have hran := (book_frame ha).ran
  cases hm : s.method threadId_ a with
  | none => rw [next_of_none hm, hran]; simp
  | some m => rw [next_of_some hm, perform, hran]; rfl

theorem next_sent (ha : s.Ready threadId_ a) :
    ((steps threadId_).next s a).sent = s.sent ++ (s.handed a ++ s.refused a) := by
  rw [(next_callers threadId_ s a).2.1]
  cases a with
  | send t data => by_cases hs : s.conn.state_ = .kConnected <;> simp [book, handed, refused, hs]
  | sendRun t k =>
    cases hc : s.call t with
    | sending data => simp [book, handed, refused, hc]
    | _ => simp [Ready, hc, Call.isSending] at ha
  | shutdown t => by_cases hs : s.conn.state_ = .kDisconnected <;> simp [book, handed, refused, hs]
  | _ => simp [book, handed, refused]

/-- **The ways of a message**: the loop's thread runs it on the spot, another queues it behind the
rest, and a functor takes the first. -/
theorem next_handed (ha : s.Ready threadId_ a) :
    (∀ x ∈ s.handed a, x.1 = threadId_) ∧
      ((steps threadId_).next s a).ran = s.ran ++ s.handed a ∧
      ((steps threadId_).next s a).conn.queued = s.conn.queued ∨
    (∀ x ∈ s.handed a, x.1 ≠ threadId_) ∧
      ((steps threadId_).next s a).ran = s.ran ∧
      ((steps threadId_).next s a).conn.queued = s.conn.queued ++ s.handed a ∨
    s.handed a = [] ∧ ∃ xs, ((steps threadId_).next s a).ran = s.ran ++ xs ∧
      s.conn.queued = xs ++ ((steps threadId_).next s a).conn.queued := by
  rw [next_ran ha, next_queued]
  cases a with
  | sendRun t k =>
    cases hc : s.call t with
    | sending data =>
      by_cases ht : t = threadId_
      · subst ht
        exact .inl (by simp [method, handed, queued, queues, Action.takes, hc, Method.message])
      · exact .inr (.inl (by simp [method, handed, queued, queues, Action.takes, hc, ht,
          PendingFunctor.message]))
    | _ => simp [Ready, hc, Call.isSending] at ha
  | functor k =>
    obtain ⟨f, fs, hf⟩ := List.exists_cons_of_ne_nil ha.1
    have hhead : ((PendingFunctor.method k f).elim [] Method.message : List (τ × List Byte)) =
        f.message := by
      cases f <;> rfl
    exact .inr (.inr ⟨rfl, f.message, by simp [method, hf, hhead],
      by simp [queued, queues, Action.takes, hf]⟩)
  | task k =>
    have hnone : ((s.method threadId_ (.task k)).elim [] Method.message : List (τ × List Byte)) =
        [] := by
      cases htodo : s.todo.head? with
      | none => simp [method, htodo]
      | some t => cases t <;> simp [method, htodo, Task.method, Method.message]
    exact .inr (.inr ⟨rfl, [], by rw [hnone], by simp [queued, queues, Action.takes]⟩)
  | shutdownRun t =>
    by_cases ht : t = threadId_ <;> refine .inr (.inr ⟨rfl, [], ?_, ?_⟩) <;>
      simp [method, queued, queues, Action.takes, ht, PendingFunctor.message, Method.message]
  | destroy t =>
    by_cases ht : t = threadId_ <;> refine .inr (.inr ⟨rfl, [], ?_, ?_⟩) <;>
      simp [method, queued, queues, Action.takes, ht, PendingFunctor.message, Method.message]
  | _ =>
    refine .inr (.inr ⟨rfl, [], by simp [method, Method.message], ?_⟩)
    simp [queued, queues, Action.takes, PendingFunctor.message]

/-! ## Messages on their way -/

/-- No message is on its way: no thread is inside a `send` that passed its test, and no `sendInLoop`
is queued. -/
def Settled (s : Session κ τ) : Prop :=
  (∀ t, (s.call t).isSending = false) ∧ s.conn.queued = []

instance [Fintype τ] (s : Session κ τ) : Decidable s.Settled := inferInstanceAs (Decidable (_ ∧ _))

omit [DecidableEq τ] in
theorem Initial.settled (h : s.Initial) : s.Settled := by
  obtain ⟨c, hc, rfl⟩ := h
  exact ⟨fun _ => rfl, by simp [new, queued, hc.functors]⟩

omit [DecidableEq τ] in
theorem Settled.handed (h : s.Settled) (ha : s.Ready threadId_ a) : s.handed a = [] := by
  cases a with
  | sendRun t k =>
    have hsending : (s.call t).isSending = true := ha
    rw [h.1 t] at hsending
    cases hsending
  | _ => rfl

/-- A settled session runs no `sendInLoop`. -/
theorem Settled.message (h : s.Settled) (ha : s.Ready threadId_ a)
    (hm : s.method threadId_ a = some m) : m.message = [] := by
  have hran := next_ran ha
  rw [hm, Option.elim_some] at hran
  obtain ⟨-, hsame, -⟩ | ⟨-, hsame, -⟩ | ⟨-, xs, hsame, hq⟩ := next_handed ha
  · rw [h.handed ha] at hsame
    exact List.append_cancel_left (hran.symm.trans hsame)
  · rw [hsame] at hran
    exact List.self_eq_append_right.mp hran
  · rw [h.2] at hq
    rw [(List.append_eq_nil_iff.mp hq.symm).1] at hsame
    exact List.append_cancel_left (hran.symm.trans hsame)

theorem Settled.isSendInLoop (h : s.Settled) (ha : s.Ready threadId_ a)
    (hm : s.method threadId_ a = some m) : m.isSendInLoop = false := by
  have hnone := h.message ha hm
  cases m <;> first | rfl | cases hnone

/-- It stays settled as long as `send` lets nothing through. -/
theorem Settled.next (h : s.Settled) (ha : s.Ready threadId_ a)
    (hs : ∀ t data, a = .send t data → s.conn.state_ ≠ .kConnected) :
    ((steps threadId_).next s a).Settled := by
  refine ⟨fun t => ?_, ?_⟩
  · rw [(next_callers threadId_ s a).1]
    obtain h' | h' | ⟨data, ha, hconn, -⟩ | ⟨-, -, h'⟩ | ⟨-, h'⟩ := book_call threadId_ s a t
    · exact h' ▸ h.1 t
    · exact h' ▸ rfl
    · exact absurd hconn (hs t data ha)
    · exact h' ▸ rfl
    · exact h' ▸ rfl
  · obtain ⟨-, -, hq⟩ | ⟨-, -, hq⟩ | ⟨-, xs, -, hq⟩ := next_handed ha
    · exact hq.trans h.2
    · rw [hq, h.2, h.handed ha]
      rfl
    · rw [h.2] at hq
      exact (List.append_eq_nil_iff.mp hq.symm).2

/-! ## The contract -/

/-- A message with bytes in it; the others leave no trace whatever becomes of them. -/
def carries (x : τ × List Byte) : Bool := x.2 ≠ []

/-- **The contract**: the bytes written, then those waiting, then those of the `sendInLoop` functors
queued, are the messages of `send` one after the other, each thread's in its own order. -/
def Delivered (s : Session κ τ) : Prop :=
  ∃ l, Shuffle l s.sent ∧
    s.conn.written ++ s.conn.outputBuffer_.content ++ s.conn.queued.flatMap Prod.snd =
      l.flatMap Prod.snd

/-- A message is sent in time: no `sendInLoop` has run, and the connection is not closed. -/
def InTime (s : Session κ τ) : Action κ τ → Prop
  | .send _ data => data ≠ [] → s.ran = [] ∧ s.closed = false
  | _ => True

instance (s : Session κ τ) : ∀ a, Decidable (s.InTime a)
  | .send _ _ => inferInstanceAs (Decidable (_ → _ ∧ _))
  | .connectEstablished | .sendRun _ _ | .shutdown _ | .shutdownStore _ | .shutdownRun _
  | .functor _ | .poll _ | .dispatch | .task _ | .ret | .removeConnection | .destroy _ | .others _
  | .consume _ => isTrue trivial

/-- No direct write of an action fails so that its message is given up. -/
def Keeps (threadId_ : τ) (s : Session κ τ) (a : Action κ τ) : Prop :=
  ∀ m ∈ s.method threadId_ a, ¬ s.conn.Drops m

instance (s : Session κ τ) (a : Action κ τ) : Decidable (Keeps threadId_ s a) :=
  inferInstanceAs (Decidable (∀ m ∈ s.method threadId_ a, _))

/-! ## Up to the test -/

omit [DecidableEq τ] in
theorem Frame.drops_iff (h : Frame s s') (m : Method τ) : s.conn.Drops m ↔ s'.conn.Drops m := by
  cases m <;> simp only [Drops, Dropped, WritesDirectly, h.isWriting, h.output]

/-- The output grows by the messages that run. -/
theorem next_output (ha : (steps threadId_).enabled s a) (hkeep : Keeps threadId_ s a) :
    ((steps threadId_).next s a).conn.output =
      s.conn.output ++ ((s.method threadId_ a).elim [] Method.message).flatMap Prod.snd := by
  have hframe := book_frame ha.1
  have hbook : (s.book threadId_ a).conn.output = s.conn.output := by
    rw [TcpConnection.output, TcpConnection.written, hframe.calls, hframe.output]
    rfl
  cases hm : s.method threadId_ a with
  | none => rw [next_of_none hm, hbook]; simp
  | some m =>
    have hnot := (hframe.drops_iff m).not.mp (hkeep m hm)
    rw [next_of_some hm, ← hbook]
    exact output_run_of_not_drops (ha.2 m hm) hnot

/-- **What has been handed over is accounted for.** -/
structure Accounted (threadId_ : τ) (s : Session κ τ) : Prop where
  output : s.conn.output = s.ran.flatMap Prod.snd
  foreign : ∀ x ∈ s.conn.queued, x.1 ≠ threadId_
  order : Shuffle ((s.ran ++ s.conn.queued).filter carries) (s.sent.filter carries)

/-- Every action keeps the account, unless it refuses a message with bytes in it. -/
theorem Accounted.next (h : Accounted threadId_ s) (ha : (steps threadId_).enabled s a)
    (hkeep : Keeps threadId_ s a) (hin : (s.refused a).filter carries = []) :
    Accounted threadId_ ((steps threadId_).next s a) := by
  have hways := next_handed ha.1
  refine ⟨?_, ?_, fun t => ?_⟩
  · rw [next_output ha hkeep, next_ran ha.1, List.flatMap_append, h.output]
  · intro x hx
    obtain ⟨-, -, hq⟩ | ⟨hne, -, hq⟩ | ⟨-, xs, -, hq⟩ := hways
    · exact h.foreign x (hq ▸ hx)
    · rw [hq, List.mem_append] at hx
      exact hx.elim (h.foreign x) (hne x)
    · exact h.foreign x (hq ▸ List.mem_append_right xs hx)
  · have horder := h.order t
    rw [next_sent ha.1]
    simp only [List.filter_append, itemsOf_append, hin, List.append_nil] at horder ⊢
    rw [← horder]
    obtain ⟨heq, hran, hq⟩ | ⟨-, hran, hq⟩ | ⟨hnone, xs, hran, hq⟩ := hways
    · -- the loop's thread has nothing queued to overtake
      rw [hran, hq, List.filter_append, itemsOf_append]
      by_cases ht : t = threadId_
      · have hnone : itemsOf t (s.conn.queued.filter carries) = [] :=
          itemsOf_eq_nil fun x hx => ht ▸ h.foreign x (List.mem_filter.mp hx).1
        simp only [hnone, List.append_nil]
      · have hnone : itemsOf t ((s.handed a).filter carries) = [] :=
          itemsOf_eq_nil fun x hx hxt => ht (hxt.symm.trans (heq x (List.mem_filter.mp hx).1))
        simp only [hnone, List.append_nil]
    · rw [hran, hq, List.filter_append, itemsOf_append, List.append_assoc]
    · rw [hran, hq, hnone]
      simp only [List.filter_append, List.filter_nil, itemsOf_append, itemsOf_nil, List.append_nil,
        List.append_assoc]

omit [DecidableEq τ] in
theorem flatMap_filter_carries (l : List (τ × List Byte)) :
    (l.filter carries).flatMap Prod.snd = l.flatMap Prod.snd := by
  induction l with
  | nil => rfl
  | cons x l ih =>
    by_cases hx : x.2 = []
    · rw [List.filter_cons_of_neg (by simp [carries, hx]), ih, List.flatMap_cons, hx]
      rfl
    · rw [List.filter_cons_of_pos (by simp [carries, hx]), List.flatMap_cons, List.flatMap_cons, ih]

theorem Accounted.stream (h : Accounted threadId_ s) :
    s.conn.written ++ s.conn.outputBuffer_.content ++ s.conn.queued.flatMap Prod.snd =
      (s.ran ++ s.conn.queued).flatMap Prod.snd := by
  rw [List.flatMap_append, ← h.output]
  rfl

theorem Accounted.delivered (h : Accounted threadId_ s) : s.Delivered := by
  obtain ⟨l, hl, hkept⟩ := exists_shuffle h.order
  refine ⟨l, hl, ?_⟩
  rw [h.stream, ← flatMap_filter_carries, ← hkept, flatMap_filter_carries]

/-! ## At the test -/

/-- `state_` lets messages through until the first `sendInLoop`, or the close. -/
def Gated (s : Session κ τ) : Prop :=
  s.Initial ∨ s.Live ∧ (s.conn.state_ = .kConnected ↔ s.ran = [] ∧ s.closed = false)

theorem Gated.next (h : s.Gated) (ha : (steps threadId_).enabled s a) :
    ((steps threadId_).next s a).Gated := by
  obtain hi | ⟨hlive, hgate⟩ := h
  · obtain hi | ⟨c, hc, hs⟩ := hi.next ha
    · exact .inl hi
    · exact .inr (hs ▸ ⟨live_connectEstablished hc, by
        simp [perform, new, Method.message, Method.closes, Method.run, connectEstablished,
          onChannel, setState]⟩)
  · refine .inr ⟨hlive.next ha, ?_⟩
    have hframe := book_frame ha.1
    have hbook :
        (s.book threadId_ a).conn.state_ = .kConnected ↔ s.ran = [] ∧ s.closed = false := by
      rw [← hgate, book_state]
      split
      case h_1 t =>
        -- a `shutdown` stores only where messages are held back already
        exact iff_of_false (by rintro ⟨⟩) (hlive.down_of_shutdownStore ha.1).ne_connected
      case h_2 => exact Iff.rfl
    rw [next_closed ha.1, next_ran ha.1]
    cases hm : s.method threadId_ a with
    | none => rw [next_of_none hm, hbook]; simp
    | some m =>
      have hrun : ((steps threadId_).next s a).conn.state_ =
          (m.run (s.book threadId_ a).conn).state_ := by rw [next_of_some hm]; rfl
      rw [hrun, connected_run (hlive.method_isEstablish ha hm), hbook]
      simp only [Option.elim_some, Option.any_some, List.append_eq_nil_iff, Bool.or_eq_false_iff]
      tauto

omit [DecidableEq τ] in
/-- A message sent in time is not refused, and one that is not is. -/
theorem Gated.inTime_iff (h : s.Gated) (ha : s.Ready threadId_ a) :
    s.InTime a ↔ (s.refused a).filter carries = [] := by
  cases a with
  | send t data =>
    obtain ⟨c, -, rfl⟩ | ⟨-, hgate⟩ := h
    · cases ha.1
    · by_cases hs : s.conn.state_ = .kConnected
      · exact iff_of_true (fun _ => hgate.mp hs) (by simp [refused, hs])
      · have hlate := mt hgate.mpr hs
        simp [InTime, refused, hs, hlate, carries]
  | _ => exact iff_of_true trivial rfl

/-- A delivered session has as many bytes as were sent. -/
theorem Delivered.length (h : s.Delivered) :
    (s.conn.written ++ s.conn.outputBuffer_.content ++ s.conn.queued.flatMap Prod.snd).length =
      (s.sent.flatMap Prod.snd).length := by
  obtain ⟨l, hl, hstream⟩ := h
  rw [hstream, hl.length_flatMap]

/-- **One action of a session.** -/
theorem delivered_next_iff (hg : s.Gated) (h : Accounted threadId_ s)
    (ha : (steps threadId_).enabled s a) (hkeep : Keeps threadId_ s a) :
    ((steps threadId_).next s a).Delivered ↔ s.InTime a := by
  rw [hg.inTime_iff ha.1]
  refine ⟨fun hd => ?_, fun hin => (h.next ha hkeep hin).delivered⟩
  cases a with
  | send t data =>
    by_cases hs : s.conn.state_ = .kConnected
    · simp [refused, hs]
    · -- the bytes of the message are nowhere
      have hnext : (steps threadId_).next s (.send t data) =
          { s with sent := s.sent ++ [(t, data)] } := by rw [next_of_none rfl, book, if_neg hs]
      have hlen := hd.length
      rw [hnext] at hlen
      have hlen' := h.delivered.length
      simp only [List.flatMap_append, List.flatMap_singleton, List.length_append] at hlen hlen'
      have hnil : data = [] := List.eq_nil_of_length_eq_zero (by omega)
      simp [refused, hs, hnil, carries]
  | _ => rfl

/-- What holds of a session whose messages were all sent in time. -/
def Delivering (threadId_ : τ) (s : Session κ τ) : Prop := s.Gated ∧ Accounted threadId_ s

omit [DecidableEq τ] in
theorem Initial.sent (h : s.Initial) :
    s.ran = [] ∧ s.sent = [] ∧ s.conn.queued = [] ∧ s.conn.output = [] := by
  obtain ⟨c, hc, rfl⟩ := h
  refine ⟨rfl, rfl, ?_, ?_⟩
  · simp [new, queued, hc.functors]
  · simp [new, TcpConnection.output, TcpConnection.written, hc.calls, hc.output]

theorem Initial.accounted (h : s.Initial) : Accounted threadId_ s := by
  obtain ⟨hran, hsent, hqueued, houtput⟩ := h.sent
  refine ⟨by rw [houtput, hran]; rfl, by simp [hqueued], ?_⟩
  rw [hran, hsent, hqueued]
  exact .refl _

/-- **The send contract, exactly.**  From construction on, whatever the threads do and however much
the kernel takes at a time, as long as it does not report the peer gone: every message of `send` is
delivered, once and in its thread's order, if and only if each is sent before the first `sendInLoop`
has run. -/
theorem delivered_iff (hinit : s.Initial) (hvalid : (steps threadId_).Valid s as)
    (hkeep : (steps threadId_).Along (Keeps threadId_) s as) :
    (steps threadId_).Always Delivered s as ↔ (steps threadId_).Along InTime s as := by
  have hdelivering : Delivering threadId_ s := ⟨.inl hinit, hinit.accounted⟩
  have hrun := Machine.along_and.mpr ⟨hvalid, hkeep⟩
  rw [Machine.always_iff, and_iff_right hdelivering.2.delivered]
  refine Machine.along_congr_of_guarded (fun s a hs ha hin => ?_) (fun s a hs ha => ?_) hrun
    hdelivering
  · exact ⟨hs.1.next ha.1, hs.2.next ha.1 ha.2 ((hs.1.inTime_iff ha.1.1).mp hin)⟩
  · exact delivered_next_iff hs.1 hs.2 ha.1 ha.2

/-- Two threads that send before either message has run. -/
theorem delivered_iff_two :
    (steps true).Always Delivered (new (.new () 7 .new) : Session Unit Bool)
      [.connectEstablished, .send false [2, 3], .send true [1], .sendRun false ⟨⟨-1, 0, 0⟩, .data []⟩,
        .sendRun true ⟨⟨1, 0, 0⟩, .data []⟩, .ret, .functor ⟨⟨2, 0, 0⟩, .data []⟩] :=
  (delivered_iff ⟨_, constructed_new _ _ rfl rfl, rfl⟩ (by decide) (by decide)).mpr (by decide)

/-- **The second message of a connection** is dropped, the kernel having taken the first. -/
theorem not_delivered_second :
    (new (.new () 7 .new) : Session Unit Unit).Initial ∧
    (steps ()).Valid (new (.new () 7 .new) : Session Unit Unit)
      [.connectEstablished, .send () [1], .sendRun () ⟨⟨1, 0, 0⟩, .data []⟩, .send () [2]] ∧
    (steps ()).Along (Keeps ()) (new (.new () 7 .new) : Session Unit Unit)
      [.connectEstablished, .send () [1], .sendRun () ⟨⟨1, 0, 0⟩, .data []⟩, .send () [2]] ∧
    ¬ ((steps ()).run (new (.new () 7 .new) : Session Unit Unit)
      [.connectEstablished, .send () [1], .sendRun () ⟨⟨1, 0, 0⟩, .data []⟩, .send () [2]]).Delivered :=
  ⟨⟨_, constructed_new _ _ rfl rfl, rfl⟩, by decide, by decide,
    fun h => absurd h.length (by decide)⟩

end Session

end Mymuduo
