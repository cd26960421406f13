import Mymuduo.TcpServer.Soundness

/-!
# TcpServer/InputStream — what a connection reads is what its callbacks get

`handleRead` puts at the end of `inputBuffer_` what the socket delivers, and calls the message
callback at once; the callbacks of the connection take from its front.

    socket ──handleRead──▸ inputBuffer_ ──retrieve──▸ callbacks

Nothing else touches the buffer, whatever the other threads, loops and connections do.  So the bytes
of a connection that its callbacks have had, with those still there, are the bytes it has read
(`input_conserved`).
-/

namespace Mymuduo

open Machinery TcpConnection

/-- The bytes a `readv` delivers. -/
def ReadvResult.bytes : ReadvResult → List Byte
  | data bytes => bytes
  | fail _ => []

/-- `readFd` appends what is delivered. -/
theorem SafeBuffer.content_readFd {b : SafeBuffer} {k : ReadvResult} (h : b.Allowed (.readFd k)) :
    (b.readFd k).content = b.content ++ k.bytes := by
  rw [readFd, dif_pos h, content]
  cases k with
  | fail errno => exact (List.append_nil _).symm
  | data bytes =>
    obtain ⟨b', hread, -, hcontent⟩ := Buffer.readFd_spec b.inv h
    simp only [Buffer.call, hread, Option.map_some, Option.get_some]
    exact hcontent

namespace TcpConnection.Method

variable {κ τ : Type*}

/-- The bytes a method reads. -/
def delivered : Method τ → List Byte
  | handleRead k => k.bytes
  | connectEstablished | connectDestoryed | sendInLoop _ _ _ | shutdownInLoop | handleWrite _
  | handleClose => []

/-- **Every method leaves in the input buffer what was there and what it reads.** -/
theorem input_run {m : Method τ} {c : TcpConnection κ τ} (h : m.Allowed c) :
    (m.run c).inputBuffer_.content = c.inputBuffer_.content ++ m.delivered := by
  have honChannels : ∀ (c : TcpConnection κ τ) (ops : List ChannelOp),
      (c.onChannels ops).inputBuffer_ = c.inputBuffer_ := by
    intro c ops
    rw [onChannels_eq]
  cases m with
  | connectEstablished => exact (List.append_nil _).symm
  | handleClose => exact (List.append_nil _).symm
  | connectDestoryed =>
    simp only [run, TcpConnection.connectDestoryed, delivered, List.append_nil]
    split <;> rfl
  | sendInLoop caller data r =>
    obtain ⟨b, -, heq⟩ := sendInLoop_eq c data r
    simp only [run, heq, honChannels, delivered, List.append_nil]
  | shutdownInLoop =>
    simp only [run, TcpConnection.shutdownInLoop, delivered, List.append_nil]
    split <;> rfl
  | handleWrite r =>
    simp only [run, TcpConnection.handleWrite, TcpConnection.shutdownInLoop, queueIf_eq, delivered,
      List.append_nil]
    split_ifs <;> rfl
  | handleRead k =>
    have hread := SafeBuffer.content_readFd h
    have hclose : ∀ c : TcpConnection κ τ, c.handleClose.inputBuffer_ = c.inputBuffer_ := fun _ => rfl
    simp only [run, TcpConnection.handleRead, delivered]
    split
    · rw [hclose]
      exact hread
    · exact hread

/-- A method that reads something calls the message callback. -/
theorem callbacks_of_delivered {m : Method τ} (h : m.delivered ≠ []) : m.callbacks = [.user] := by
  cases m with
  | handleRead k =>
    cases k with
    | fail errno => cases h rfl
    | data bytes =>
      cases bytes with
      | nil => cases h rfl
      | cons b bytes => rfl
  | _ => cases h rfl

end TcpConnection.Method

namespace TcpServer

variable {υ : Type*} [DecidableEq υ] {s : TcpServer υ} {a : Action υ} {l : LoopId} {c : ℕ}
  {m : Method (Thread υ)}

/-- What `c` has read and its callbacks have not taken. -/
def input (s : TcpServer υ) (c : ℕ) : List Byte := (s.conn c).tcp.inputBuffer_.content

/-- The bytes an action reads for `c`. -/
def received (c : ℕ) (s : TcpServer υ) (a : Action υ) : List Byte :=
  match s.job a with
  | some (_, c', m) => if c' = c then m.delivered else []
  | none => []

/-- The bytes a callback takes from the front of the input buffer of `c`. -/
def consumed (c : ℕ) (s : TcpServer υ) : Action υ → List Byte
  | .retrieve l len => if (s.loop l).todo.head?.any (·.1 = c) then (s.input c).take len else []
  | _ => []

/-- What is read is handed to the message callback at once, on the loop's own thread. -/
def Notifies (c : ℕ) (s : TcpServer υ) (a : Action υ) : Prop :=
  received c s a ≠ [] → (s.after a).InCallback (.loop (s.conn c).home) c

/-! ## One action -/

omit [DecidableEq υ] in
/-- A method adds to the input of its own connection. -/
theorem input_perform (h : m.Allowed (s.view c)) (c' : ℕ) : (s.perform l c m).input c' =
    s.input c' ++ if c = c' then m.delivered else [] := by
  by_cases hc : c = c'
  · subst hc
    rw [input, perform_tcp, Method.input_run h, if_pos rfl]
    rfl
  · rw [input, perform_conn_ne (Ne.symm hc), if_neg hc, List.append_nil, input]

omit [DecidableEq υ] in
/-- What is queued reads nothing. -/
theorem delivered_of_functor {f : ServerFunctor υ} {k : Answer} (h : f.method k = some m) :
    m.delivered = [] := by
  rcases f with c | c | ⟨c, g⟩
  · cases h
    rfl
  · cases h
  · cases g <;> cases h <;> rfl

/-- **Apart from its own change an action adds to an input what it reads.** -/
theorem input_after (ha : steps.enabled s a) (c : ℕ) :
    (s.after a).input c = (s.book a).input c ++ received c s a := by
  have hallowed := ha.2
  rcases s.after_cases a with ⟨l, c', m, hb, hafter⟩ | ⟨t, l, f, hr, hafter⟩ | ⟨hb, hr, hafter⟩ <;>
    rw [hafter]
  · have hj := job_of_branch hb
    rw [input_perform (hallowed _ hj), received, hj]
  · rw [received, job_of_request hr, runInLoop]
    have hjob := job_of_request hr
    by_cases ht : t = .loop l
    case neg =>
      simp only [ht, if_false, List.append_nil]
      rfl
    simp only [ht, if_true] at hjob ⊢
    rcases (s.book a).exec_cases l a.answer f with ⟨c', rfl, hexec⟩ | ⟨m, hm, -, hexec⟩ |
      ⟨hraw, -, hexec⟩ | ⟨c', cb, rfl, hcb, hexec⟩ <;> rw [hexec]
    · exact (List.append_nil _).symm
    · rw [hm, Option.map_some] at hjob
      rw [input_perform (hallowed _ hjob), delivered_of_functor hm, hm]
      simp [delivered_of_functor hm]
    · cases hm : f.method a.answer with
      | none => exact (List.append_nil _).symm
      | some m => simp [delivered_of_functor hm]
    · rw [method_of_isCallback hcb]
      exact (List.append_nil _).symm
  · rw [received, job, hb, runs, hr]
    exact (List.append_nil _).symm

/-- **Its own change takes from the front what a callback takes.** -/
theorem input_book (hfresh : s.made ≤ c → s.input c = []) :
    s.input c = consumed c s a ++ (s.book a).input c := by
  have hnone : consumed c s a = [] → (s.book a).input c = s.input c →
      s.input c = consumed c s a ++ (s.book a).input c := by
    intro htake hbook
    rw [htake, hbook, List.nil_append]
  have htcp : ∀ c' (g : TcpConnection ℕ (Thread υ) → TcpConnection ℕ (Thread υ)),
      (∀ tcp, (g tcp).inputBuffer_ = tcp.inputBuffer_) → (s.onTcp c' g).input c = s.input c := by
    intro c' g hg
    by_cases hc : c = c'
    · subst hc
      simp only [input, onTcp, Function.update_self, hg]
    · simp only [input, onTcp, Function.update_of_ne hc]
  cases a with
  | poll l reports =>
    obtain ⟨revt, heq⟩ := setRevents_eq (s := s) reports c
    refine hnone rfl ?_
    change (s.setRevents reports c).tcp.inputBuffer_.content = _
    rw [heq]
    rfl
  | newConncetion sockfd =>
    refine hnone rfl ?_
    by_cases hc : c = s.made
    · rw [hfresh (Nat.le_of_eq hc.symm), hc]
      simp [input, TcpServer.book, accept, TcpConnection.new]
    · rw [input, TcpServer.book, accept_conn s sockfd hc, input]
  | send t c' data => exact hnone rfl (by rw [TcpServer.book]; split <;> rfl)
  | shutdown t c' => exact hnone rfl (by rw [TcpServer.book]; split <;> rfl)
  | shutdownStore t =>
    exact hnone rfl (htcp _ (fun tcp => tcp.setState .kDisconnecting) fun _ => rfl)
  | setHighWaterMarkCallback t c' mark =>
    exact hnone rfl (htcp c' (fun tcp =>
      { tcp with highWaterMarkCallback_ := true, highWaterMark_ := mark }) fun _ => rfl)
  | retrieve l len =>
    rcases hhead : (s.loop l).todo.head? with _ | ⟨c', task⟩
    · exact hnone (by simp [consumed, hhead]) (by simp [TcpServer.book, hhead])
    · by_cases hc : c' = c
      · subst hc
        simp [consumed, hhead, TcpServer.book, input, onTcp]
      · refine hnone (by simp [consumed, hhead, hc]) ?_
        simp only [TcpServer.book, hhead, input, onTcp, Function.update_of_ne (Ne.symm hc)]
  | stop =>
    refine hnone rfl ?_
    rw [TcpServer.book, stopNext]
    cases s.phase with
    | stopping i => simp only; split <;> rfl
    | _ => rfl
  | _ => exact hnone rfl rfl

/-- What is read is read by a branch of an event. -/
theorem branch_of_received (h : received c s a ≠ []) :
    ∃ l m, s.branch a = some (l, c, m) ∧ m.callbacks = [.user] := by
  unfold received at h
  split at h
  case h_2 => cases h rfl
  case h_1 l c' m hj =>
    by_cases hc : c' = c
    · rw [if_pos hc] at h
      obtain hb | ⟨f, hr, hm, -⟩ := job_cases hj
      · exact ⟨l, m, hc ▸ hb, Method.callbacks_of_delivered h⟩
      · cases h (delivered_of_functor hm)
    · rw [if_neg hc] at h
      cases h rfl

/-- **What is read is handed on at once.** -/
theorem Sound.notifies (h : s.Sound) (ha : s.Ready a) (c : ℕ) : Notifies c s a := by
  intro hreceived
  obtain ⟨l, m, hb, hcallbacks⟩ := branch_of_received hreceived
  have hp := h.performs_of_branch ha hb
  have hhome : (s.conn c).home = l := by
    obtain hlt | ⟨sockfd, rfl, -⟩ := lt_book_made hp.made
    · rw [← hp.home]
      obtain ⟨tcp, revt, heq, -⟩ := s.book_conn a hlt
      rw [heq]
    · cases hb
  rcases s.after_cases a with ⟨l', c', m', hb', hafter⟩ | ⟨t, l', f, hr, -⟩ | ⟨hb', -, -⟩
  · obtain ⟨rfl, rfl, rfl⟩ : l = l' ∧ c = c' ∧ m = m' := by simpa [hb] using hb'
    rw [hafter, hhome, InCallback, perform_loop]
    simp [hcallbacks]
  · rw [request_of_branch hb] at hr
    cases hr
  · rw [hb] at hb'
    cases hb'

/-! ## Every run -/

/-- Nothing is in the buffer of a connection that is not there yet. -/
structure Filled (s : TcpServer υ) : Prop where
  sound : s.Sound
  fresh : ∀ c, s.made ≤ c → s.input c = []

theorem Filled.next (h : s.Filled) (ha : steps.enabled s a) : (steps.next s a).Filled := by
  refine ⟨h.sound.next ha.1, fun c hc => ?_⟩
  change (s.after a).made ≤ c at hc
  rw [(s.after_frame a).made] at hc
  have hnew : ¬ c < (s.book a).made := Nat.not_lt.mpr hc
  change (s.after a).input c = []
  rw [input_after ha]
  have hbook := input_book (a := a) (h.fresh c)
  have hmade : s.made ≤ c := by
    have hstep := s.book_server a
    generalize s.book a = s' at hstep hc
    cases hstep with
    | accept sockfd => exact Nat.le_of_succ_le hc
    | stop _ h => exact h ▸ hc
    | other _ _ h => exact h ▸ hc
    | _ => exact hc
  rw [h.fresh c hmade] at hbook
  rw [(List.append_eq_nil_iff.mp hbook.symm).2, List.nil_append]
  by_contra hne
  obtain ⟨l, m, hb, -⟩ := branch_of_received hne
  exact hnew (h.sound.performs_of_branch ha.1 hb).made

omit [DecidableEq υ] in
theorem start_filled (n : ℕ) (b : Bool) : (start n b : TcpServer υ).Filled :=
  ⟨start_sound n b, fun _ _ => SafeBuffer.content_new _⟩

/-- **Input stream conservation**: in every run of a server with any number of sub-loops,
connections and threads, what the callbacks of a connection have taken from its input buffer, with
what is still there, is what has been read for it, in order and once; and each read calls the
message callback, on the thread of the connection's loop. -/
theorem input_conserved (n : ℕ) (b : Bool) (as : List (Action υ)) (h : steps.Valid (start n b) as)
    (c : ℕ) : steps.collect (received c) (start n b) as =
        steps.collect (consumed c) (start n b) as ++ (steps.run (start n b) as).input c ∧
      steps.Along (Notifies c) (start n b) as := by
  refine ⟨?_, (start_sound n b).along h fun s a hs ha => hs.notifies ha.1 c⟩
  have hempty : (start n b : TcpServer υ).input c = [] := (start_filled n b).fresh c (Nat.zero_le c)
  have hqueue : (start n b : TcpServer υ).input c ++ steps.collect (received c) (start n b) as =
      steps.collect (consumed c) (start n b) as ++ (steps.run (start n b) as).input c := by
    refine Machine.collect_queue (m := steps) (P := steps.enabled) (I := Filled) (g := (input · c))
      (fun _ _ hs ha => hs.next ha) (fun s a hs ha => ?_) h (start_filled n b)
    calc s.input c ++ received c s a
        = consumed c s a ++ ((s.book a).input c ++ received c s a) := by
          rw [← List.append_assoc, ← input_book (hs.fresh c)]
      _ = consumed c s a ++ (s.after a).input c := by rw [input_after ha]
  rwa [hempty, List.nil_append] at hqueue

/-- Two reads of a connection, with a callback in between that takes less than there is. -/
theorem input_conserved_partial :
    steps.collect (received 0) (start 0 false : TcpServer Unit)
      [.enter .base, .test .base, .poll .base [], .newConncetion 7, .ret .base,
        .doPendingFunctors .base, .donePendingFunctors .base, .test .base,
        .poll .base [(0, EPOLLIN)], .dispatch .base, .task .base ⟨⟨0, 0, 0⟩, .data [1, 2, 3]⟩,
        .retrieve .base 2, .ret .base, .doPendingFunctors .base, .donePendingFunctors .base,
        .test .base, .poll .base [(0, EPOLLIN)], .dispatch .base,
        .task .base ⟨⟨0, 0, 0⟩, .data [4]⟩] = [1, 2] ++ [3, 4] :=
  (input_conserved 0 false _ (by decide +kernel) 0).1.trans (by decide +kernel)

end TcpServer

end Mymuduo
