import Mymuduo.TcpConnection.AfterShut
import Mymuduo.TcpConnection.Callbacks
import Mymuduo.TcpConnection.Marked
import Mymuduo.TcpServer.InputStream

/-!
# EchoServer/OnMessage — the example server, seen from one of its connections

`EchoServer::onMessage` takes all that has been read, sends it back, and shuts the connection down.

    retrieve ──▸ send ──▸ sendInLoop ──▸ shutdown ──▸ shutdownStore ──▸ shutdownInLoop ──▸ ret
                  │                        ▴   │                                           ▴
                  └── not kConnected ──────┘   └── not kDisconnected ──────────────────────┘

Nobody else calls anything, so a session of the server is one whose loop's thread does that in each
message callback (`echo`).
-/

namespace Mymuduo

open Machinery TcpConnection

/-- What the thread of a loop does next in `onMessage`; `idle` is anywhere else. -/
inductive OnMessage
  | idle
  | retrieve
  | send (msg : List Byte)
  /-- `send` has found `kConnected` -/
  | sendInLoop
  | shutdown
  /-- `shutdown` has passed its test -/
  | shutdownStore
  /-- and has stored `kDisconnecting` -/
  | shutdownInLoop
  | ret
  deriving DecidableEq, Repr

/-- Where a call of the thread is then. -/
def OnMessage.Calling : OnMessage → Call → Prop
  | sendInLoop, call => call.isSending = true
  | shutdownStore, call => call = .shutTested
  | shutdownInLoop, call => call = .shutStored
  | idle, call | retrieve, call | send _, call | shutdown, call | ret, call => call = .idle

/-- The message a method calls the message callback for. -/
def TcpConnection.Method.heard {τ : Type*} : Method τ → List (List Byte)
  | handleRead (.data (b :: bytes)) => [b :: bytes]
  | handleRead (.data []) | handleRead (.fail _) | connectEstablished | connectDestoryed
  | sendInLoop _ _ _ | shutdownInLoop | handleWrite _ | handleClose => []

/-- Where no callback is set, no method queues anything. -/
theorem TcpConnection.run_plain {κ τ : Type*} {c : TcpConnection κ τ} (m : Method τ)
    (hhigh : c.highWaterMarkCallback_ = false) (hcomplete : c.writeCompleteCallback_ = false) :
    (m.run c).pendingFunctors_ = c.pendingFunctors_ ∧
      (m.run c).highWaterMarkCallback_ = false ∧ (m.run c).writeCompleteCallback_ = false := by
  have houtputs : m.outputs = true → (m.run c).pendingFunctors_ = c.pendingFunctors_ ∧
      (m.run c).highWaterMarkCallback_ = false ∧ (m.run c).writeCompleteCallback_ = false := by
    intro hm
    have hsettings := settings_run hm c
    simp only [settings, Prod.mk.injEq] at hsettings
    refine ⟨?_, hsettings.2.1.trans hhigh, hsettings.2.2.trans hcomplete⟩
    rw [pendingFunctors_run hm]
    cases m <;> simp [notices, completion, flooding, hhigh, hcomplete]
  cases m with
  | sendInLoop caller data r => exact houtputs rfl
  | handleWrite r => exact houtputs rfl
  | connectEstablished => exact ⟨rfl, hhigh, hcomplete⟩
  | handleClose => exact ⟨rfl, hhigh, hcomplete⟩
  | connectDestoryed =>
    simp only [Method.run, connectDestoryed]
    split <;> exact ⟨rfl, hhigh, hcomplete⟩
  | shutdownInLoop =>
    simp only [Method.run, shutdownInLoop]
    split <;> exact ⟨rfl, hhigh, hcomplete⟩
  | handleRead k =>
    simp only [Method.run, handleRead]
    split <;> exact ⟨rfl, hhigh, hcomplete⟩

namespace Session

variable {κ τ : Type*} [DecidableEq τ] (threadId_ : τ) (s : Session κ τ)

/-- The message an action calls the message callback for. -/
def hears (b : Action κ τ ⊕ ℕ) : List (List Byte) :=
  (s.runs threadId_ b).flatMap (·.2.heard)

/-- `onMessage` does what is next, and nobody else does anything. -/
def Follows (pc : OnMessage) : Action κ τ ⊕ ℕ → Prop
  | .inl (.consume len) => pc = .retrieve ∧ len = s.conn.inputBuffer_.content.length
  | .inl (.send t data) => t = threadId_ ∧ pc = .send data
  | .inl (.sendRun t _) => t = threadId_ ∧ pc = .sendInLoop
  | .inl (.shutdown t) => t = threadId_ ∧ pc = .shutdown
  | .inl (.shutdownStore t) => t = threadId_ ∧ pc = .shutdownStore
  | .inl (.shutdownRun t) => t = threadId_ ∧ pc = .shutdownInLoop
  | .inl .ret => pc = .idle ∨ pc = .ret
  | .inl (.destroy _) | .inr _ => False
  | .inl .connectEstablished | .inl (.functor _) | .inl (.poll _) | .inl .dispatch | .inl (.task _)
  | .inl .removeConnection | .inl (.others _) => True

/-- What it does after that. -/
def goesOn (pc : OnMessage) : Action κ τ ⊕ ℕ → OnMessage
  | .inl (.consume _) => .send s.conn.inputBuffer_.content
  | .inl (.send _ _) => if s.conn.state_ = .kConnected then .sendInLoop else .shutdown
  | .inl (.sendRun _ _) => .shutdown
  | .inl (.shutdown _) => if s.conn.state_ = .kDisconnected then .shutdownStore else .ret
  | .inl (.shutdownStore _) => .shutdownInLoop
  | .inl (.shutdownRun _) => .ret
  | .inl .ret => .idle
  | .inl (.task k) => if s.hears threadId_ (.inl (.task k)) = [] then pc else .retrieve
  | .inl (.destroy _) | .inl .connectEstablished | .inl (.functor _) | .inl (.poll _)
  | .inl .dispatch | .inl .removeConnection | .inl (.others _) | .inr _ => pc

/-- **A session of the example server.** -/
def echo : Machine (Session κ τ × OnMessage) (Action κ τ ⊕ ℕ) :=
  (marked threadId_).controlled (Follows threadId_) (goesOn threadId_)

/-! ## Who acts -/

variable {threadId_ : τ} {s : Session κ τ} {pc : OnMessage} {b : Action κ τ ⊕ ℕ} {a : Action κ τ}
  {m : Method τ}

/-- **Nobody but the loop's thread is in a call**, nothing is queued but the connection's end, and
that only where it is closed. -/
structure Acting (threadId_ : τ) (s : Session κ τ) (pc : OnMessage) : Prop where
  highWater : s.conn.highWaterMarkCallback_ = false
  writeComplete : s.conn.writeCompleteCallback_ = false
  others : ∀ t ≠ threadId_, s.call t = .idle
  caller : pc.Calling (s.call threadId_)
  user : pc ≠ .idle → s.todo.head? = some .user
  functors : ∀ f ∈ s.conn.pendingFunctors_, f = .connectDestoryed
  due : s.conn.pendingFunctors_ ≠ [] ∨ 0 < s.removals ∨ .removeConnection ∈ s.todo →
    s.closed = true

omit [DecidableEq τ] in
theorem Acting.idle (h : Acting threadId_ s pc) (htodo : s.todo.head? ≠ some .user) : pc = .idle := by
  by_contra hpc
  exact htodo (h.user hpc)

omit [DecidableEq τ] in
/-- A method runs, and its callbacks come first. -/
theorem Acting.perform {pc' : OnMessage} (h : Acting threadId_ s pc)
    (hcaller : pc'.Calling (s.call threadId_))
    (huser : pc' ≠ .idle → (m.callbacks ++ s.todo).head? = some .user) :
    Acting threadId_ (s.perform m) pc' := by
  obtain ⟨hfunctors, hhigh, hcomplete⟩ := run_plain m h.highWater h.writeComplete
  have hremoval : .removeConnection ∈ m.callbacks → m.closes = true := by
    cases m with
    | handleRead k =>
      cases k with
      | fail errno => simp [Method.callbacks]
      | data bytes => cases bytes <;> simp [Method.callbacks, Method.closes]
    | _ => simp [Method.callbacks, Method.closes]
  refine ⟨hhigh, hcomplete, h.others, hcaller, huser, ?_, ?_⟩
  · rw [Session.perform, hfunctors]
    exact h.functors
  · simp only [Session.perform, hfunctors, List.mem_append, Bool.or_eq_true]
    rintro (hq | hr | ht | ht)
    · exact .inl (h.due (.inl hq))
    · exact .inl (h.due (.inr (.inl hr)))
    · exact .inr (hremoval ht)
    · exact .inl (h.due (.inr (.inr ht)))

/-- The loop's thread goes on with its call. -/
theorem Acting.step (h : Acting threadId_ s pc) (pc' : OnMessage) {x : Call}
    (hx : pc'.Calling x) (huser : pc ≠ .idle) :
    Acting threadId_ { s with call := Function.update s.call threadId_ x } pc' :=
  { h with
    others := fun t ht => (Function.update_of_ne ht ..).trans (h.others t ht)
    caller := by simpa using hx
    user := fun _ => h.user huser }

omit [DecidableEq τ] in
theorem removeConnection_notMem_handleEventWithGuard (revents_ : Mask) :
    .removeConnection ∉ Channel.handleEventWithGuard revents_ := by
  simp [Channel.handleEventWithGuard]

/-- A task is taken up. -/
theorem Acting.task {k : Answer} (h : Acting threadId_ s .idle) :
    Acting threadId_ (s.book threadId_ (.task k)) .idle :=
  { h with
    user := fun hpc => absurd rfl hpc
    due := by
      simp only [book]
      rintro (hq | hr | ht)
      · exact h.due (.inl hq)
      · by_cases hhead : s.todo.head? = some .removeConnection
        · exact h.due (.inr (.inr (List.mem_of_mem_head? hhead)))
        · exact h.due (.inr (.inl (by simpa [hhead] using hr)))
      · exact h.due (.inr (.inr (List.mem_of_mem_tail ht))) }

omit [DecidableEq τ] in
/-- A method that speaks calls the message callback first. -/
theorem callbacks_of_heard (h : m.heard ≠ []) : m.callbacks = [.user] := by
  cases m with
  | handleRead k =>
    cases k with
    | fail errno => cases h rfl
    | data bytes =>
      cases bytes with
      | nil => cases h rfl
      | cons b bytes => rfl
  | _ => cases h rfl

theorem hears_of_some (hm : s.method threadId_ a = some m) : s.hears threadId_ (.inl a) = m.heard := by
  simp [hears, runs, hm]

theorem hears_of_none (hm : s.method threadId_ a = none) : s.hears threadId_ (.inl a) = [] := by
  simp [hears, runs, hm]

/-- **The methods a session of the server runs**, and where. -/
inductive EchoRuns (threadId_ : τ) (s : Session κ τ) : OnMessage → Method τ → Prop
  | connectEstablished (hnew : s.established = false) : EchoRuns threadId_ s .idle .connectEstablished
  | sendInLoop {data : List Byte} (r : WriteResult) (hcall : s.call threadId_ = .sending data) :
      EchoRuns threadId_ s .sendInLoop (.sendInLoop threadId_ data r)
  | shutdownInLoop (hcall : s.call threadId_ = .shutStored) :
      EchoRuns threadId_ s .shutdownInLoop .shutdownInLoop
  | connectDestoryed (hclosed : s.closed = true) : EchoRuns threadId_ s .idle .connectDestoryed
  | handleRead (k : ReadvResult) : EchoRuns threadId_ s .idle (.handleRead k)
  | handleWrite (r : WriteResult) : EchoRuns threadId_ s .idle (.handleWrite r)
  | handleClose : EchoRuns threadId_ s .idle .handleClose

theorem Acting.runs (h : Acting threadId_ s pc) (hb : (echo threadId_).enabled (s, pc) (.inl a))
    (hm : s.method threadId_ a = some m) : EchoRuns threadId_ s pc m := by
  obtain ⟨henabled, hfollows⟩ := hb
  have ha : s.Ready threadId_ a := henabled.1
  cases runs_of_method hm with
  | connectEstablished =>
    obtain rfl := h.idle (by simp [ha.2.1])
    exact .connectEstablished ha.1
  | @sendRun data k hcall =>
    obtain ⟨-, rfl⟩ := hfollows
    exact .sendInLoop _ hcall
  | shutdownRun =>
    obtain ⟨-, rfl⟩ := hfollows
    exact .shutdownInLoop ha
  | @functor k f m hfirst hf =>
    obtain rfl := h.idle (by simp [ha.2.1])
    obtain rfl := h.functors f (List.mem_of_mem_head? hfirst)
    cases hf
    exact .connectDestoryed (h.due (.inl ha.1))
  | @task k t m hfirst ht =>
    obtain rfl : pc = .idle := h.idle fun hhead => by simp [Ready, userCode, hhead] at ha
    cases t <;> cases ht
    · exact .handleClose
    · exact .handleRead _
    · exact .handleWrite _
  | destroy => exact hfollows.elim

theorem Acting.next (h : Acting threadId_ s pc) (hb : (echo threadId_).enabled (s, pc) b) :
    Acting threadId_ ((marked threadId_).next s b) (s.goesOn threadId_ pc b) := by
  obtain ⟨henabled, hfollows⟩ := hb
  cases b with
  | inr mark => exact hfollows.elim
  | inl a =>
    have ha : s.Ready threadId_ a := henabled.1
    change Acting threadId_ ((steps threadId_).next s a) _
    cases a with
    | connectEstablished =>
      obtain rfl := h.idle (by simp [ha.2.1])
      exact h.perform h.caller fun hpc => absurd rfl hpc
    | send t data =>
      obtain ⟨rfl, rfl⟩ := hfollows
      rw [next_of_none rfl, book, goesOn]
      split
      · exact h.step _ rfl (by rintro ⟨⟩)
      · have hret := h.step .shutdown (x := s.call t) h.caller (by rintro ⟨⟩)
        rw [Function.update_eq_self] at hret
        exact { hret with }
    | sendRun t k =>
      obtain ⟨rfl, rfl⟩ := hfollows
      obtain ⟨data, hdata⟩ : ∃ data, s.call t = .sending data := by
        cases hcall : s.call t <;> simp [Ready, hcall, Call.isSending] at ha ⊢
      have hm : s.method t (.sendRun t k) = some (.sendInLoop t data k.write) := by
        simp only [method, hdata, if_true]
      rw [next_of_some hm, book, goesOn]
      simp only [hdata, if_true]
      have hcall := h.step .shutdown (x := .idle) rfl (by rintro ⟨⟩)
      have hsent : Acting t { s with
          call := Function.update s.call t .idle
          sent := s.sent ++ [(t, data)] } .shutdown := { hcall with }
      exact hsent.perform hsent.caller hsent.user
    | shutdown t =>
      obtain ⟨rfl, rfl⟩ := hfollows
      rw [next_of_none rfl, book, goesOn]
      split
      · exact h.step _ rfl (by rintro ⟨⟩)
      · have hret := h.step .ret (x := s.call t) h.caller (by rintro ⟨⟩)
        rw [Function.update_eq_self] at hret
        exact { hret with }
    | shutdownStore t =>
      obtain ⟨rfl, rfl⟩ := hfollows
      rw [next_of_none rfl, book, goesOn]
      have hcall := h.step .shutdownInLoop (x := .shutStored) rfl (by rintro ⟨⟩)
      exact { hcall with }
    | shutdownRun t =>
      obtain ⟨rfl, rfl⟩ := hfollows
      have hm : s.method t (.shutdownRun t) = some .shutdownInLoop := if_pos rfl
      rw [next_of_some hm, book, goesOn]
      simp only [if_true]
      have hcall := h.step .ret (x := .idle) rfl (by rintro ⟨⟩)
      have hdone : Acting t { s with
          call := Function.update s.call t .idle
          shutdownReturned := true } .ret := { hcall with }
      exact hdone.perform hdone.caller hdone.user
    | functor k =>
      obtain ⟨hpending, htodo, -, -⟩ := ha
      obtain rfl := h.idle (by simp [htodo])
      obtain ⟨f, fs, hf⟩ := List.exists_cons_of_ne_nil hpending
      obtain rfl : f = .connectDestoryed := h.functors f (by simp [hf])
      rw [next_of_some (by simp [method, hf]; rfl), goesOn]
      have htaken : Acting threadId_ (s.book threadId_ (.functor k)) .idle :=
        { h with
          user := fun hpc => absurd rfl hpc
          functors := fun f hf => h.functors f (List.mem_of_mem_tail hf)
          due := fun _ => h.due (.inl hpending) }
      exact htaken.perform h.caller fun hpc => absurd rfl hpc
    | poll revents =>
      rw [next_of_none rfl, goesOn]
      exact { h with }
    | dispatch =>
      obtain rfl := h.idle (by simp [ha.2.1])
      rw [next_of_none rfl, goesOn]
      exact { h with
        user := fun hpc => absurd rfl hpc
        due := by
          rintro (hq | hr | ht)
          · exact h.due (.inl hq)
          · exact h.due (.inr (.inl hr))
          · exact absurd ht (removeConnection_notMem_handleEventWithGuard _) }
    | task k =>
      obtain rfl : pc = .idle := h.idle fun hhead => by simp [Ready, userCode, hhead] at ha
      rw [goesOn]
      cases hm : s.method threadId_ (.task k) with
      | none =>
        rw [next_of_none hm, hears_of_none hm]
        exact h.task
      | some m =>
        rw [next_of_some hm, hears_of_some hm]
        split
        · exact h.task.perform h.task.caller fun hpc => absurd rfl hpc
        case isFalse hheard =>
          refine h.task.perform h.task.caller fun _ => ?_
          rw [callbacks_of_heard hheard]
          rfl
    | ret =>
      rw [next_of_none rfl, goesOn]
      exact { h with
        caller := by
          obtain rfl | rfl := hfollows <;> exact h.caller
        user := fun hpc => absurd rfl hpc
        due := by
          rintro (hq | hr | ht)
          · exact h.due (.inl hq)
          · exact h.due (.inr (.inl hr))
          · exact h.due (.inr (.inr (List.mem_of_mem_tail ht))) }
    | removeConnection =>
      rw [next_of_none rfl, goesOn]
      exact { h with
        functors := fun f hf => (List.mem_append.mp hf).elim (h.functors f) List.mem_singleton.mp
        due := fun _ => h.due (.inr (.inl ha)) }
    | destroy t => exact hfollows.elim
    | others p =>
      rw [next_of_none rfl, goesOn]
      exact { h with }
    | consume len =>
      obtain ⟨rfl, -⟩ := hfollows
      rw [next_of_none rfl, goesOn]
      exact { h with user := fun _ => ha }

end Session

end Mymuduo
