import Mymuduo.TcpConnection.Methods

/-!
# TcpConnection/OutputStream — the output of a connection is the concatenation of what it kept

Whatever `sendInLoop` is given reaches the socket by one of two ways, a direct write or the buffer,
and a message is begun on the first only while nothing waits on the second.  So

    written ++ outputBuffer_

grows at its end only, by whole messages: `sendInLoop` appends its message to it or drops it, and
`handleWrite` moves bytes from one part to the other.  The second way is open exactly while the
channel asks for `EPOLLOUT`.

A message is to be dropped where the peer is gone.  What says so is `errno`, and `sendInLoop` reads
it when its log line has been written: what the log line leaves there decides (`LogSpares`).
-/

namespace Mymuduo

open Machinery

namespace TcpConnection

variable {κ τ : Type*} {c c' : TcpConnection κ τ} {m : Method τ} {ms : List (Method τ)}
  {data : List Byte} {r : WriteResult}

/-- The output so far: the bytes on the wire, then the bytes waiting. -/
def output (c : TcpConnection κ τ) : List Byte := c.written ++ c.outputBuffer_.content

/-- **A message is dropped** when its direct write fails and `errno`, as the log line leaves it,
says that the peer is gone. -/
def Dropped (c : TcpConnection κ τ) (r : WriteResult) : Prop :=
  c.WritesDirectly ∧ r.n = -1 ∧ r.errno ≠ EWOULDBLOCK ∧ (r.logged = EPIPE ∨ r.logged = ECONNRESET)

instance (c : TcpConnection κ τ) (r : WriteResult) : Decidable (c.Dropped r) :=
  inferInstanceAs (Decidable (_ ∧ _))

/-- The write failed because the peer is gone. -/
def PeerGone (r : WriteResult) : Prop := r.n = -1 ∧ (r.errno = EPIPE ∨ r.errno = ECONNRESET)

instance (r : WriteResult) : Decidable (PeerGone r) := inferInstanceAs (Decidable (_ ∧ _))

/-- The messages a method adds to the output. -/
def kept (c : TcpConnection κ τ) : Method τ → List (List Byte)
  | .sendInLoop _ data r => if c.Dropped r then [] else [data]
  | .connectEstablished | .connectDestoryed | .shutdownInLoop | .handleRead _ | .handleWrite _
  | .handleClose => []

theorem Does.written {e : Effect} (h : c.Does e c') :
    c'.written = c.written ++ e.calls.flatMap SocketCall.accepted := by
  rw [TcpConnection.written, h.calls, List.flatMap_append]
  rfl

theorem Does.output {e : Effect} (h : c.Does e c') :
    c'.output = c.written ++ e.calls.flatMap SocketCall.accepted ++ e.content := by
  rw [TcpConnection.output, h.written, h.content]

/-! ## One method -/

/-- What a direct write accepts and what it leaves are the message, unless it is dropped. -/
theorem accepted_append_leftover (hdirect : c.WritesDirectly) (hr : r.Allowed data.length) :
    data.take r.n.toNat ++ c.leftover data r = if c.Dropped r then [] else data := by
  simp only [leftover, hdirect, if_true]
  by_cases hfault : Faults r
  · obtain ⟨hn, herrno⟩ := hfault
    have hzero : r.n.toNat = 0 := Int.toNat_of_nonpos (Int.not_lt.mp hn)
    obtain hfail | ⟨hlen, -⟩ | ⟨hpos, -⟩ := hr
    · simp [Faults, Dropped, hdirect, hfail, herrno]
    · -- nothing was asked for, so whatever is done with it nothing is lost
      have hnil : data = [] := List.eq_nil_of_length_eq_zero hlen
      simp [hnil]
    · omega
  · have hkept : ¬ c.Dropped r := fun h => hfault ⟨by rw [h.2.1]; decide, h.2.2⟩
    simp [hfault, hkept]

/-- **Every method adds to the output exactly the messages it keeps.** -/
theorem output_run (m : Method τ) (h : m.Allowed c) :
    (m.run c).output = c.output ++ (c.kept m).flatten := by
  rw [(m.run_does c).output, output]
  cases m with
  | sendInLoop caller data r =>
    by_cases hdirect : c.WritesDirectly
    · have hmessage := accepted_append_leftover hdirect (h hdirect)
      have hempty : c.outputBuffer_.content = [] := hdirect.2
      simp only [Method.effect, hdirect, hempty, if_true, List.flatMap_cons, List.flatMap_nil,
        SocketCall.accepted, List.append_nil, List.nil_append, List.append_assoc, kept, hmessage]
      split <;> simp
    · have hkept : ¬ c.Dropped r := fun hd => hdirect hd.1
      simp [Method.effect, hdirect, kept, hkept, leftover]
  | handleWrite r =>
    by_cases hw : c.channel_.isWriting
    · simp only [Method.effect, hw, if_true, kept, List.flatten_nil, List.append_nil,
        List.flatMap_cons, SocketCall.accepted]
      split <;> simp [SocketCall.accepted, List.append_assoc]
    · simp [Method.effect, hw, Effect.none, kept]
  | shutdownInLoop =>
    by_cases hw : c.channel_.isWriting <;>
      simp [Method.effect, hw, Effect.none, kept, SocketCall.accepted]
  | connectDestoryed =>
    by_cases hs : c.state_ = .kConnected <;> simp [Method.effect, hs, Effect.none, kept]
  | handleRead k =>
    by_cases hk : k = .data [] <;> simp [Method.effect, hk, Effect.none, kept]
  | connectEstablished => simp [Method.effect, Effect.none, kept]
  | handleClose => simp [Method.effect, Effect.none, kept]

/-- The buffer is in use exactly while the channel asks for `EPOLLOUT`. -/
def Armed (c : TcpConnection κ τ) : Prop :=
  c.channel_.isWriting = true ↔ c.outputBuffer_.content ≠ []

/-- **Every method but a closing one keeps it so.** -/
theorem armed_run (m : Method τ) (hm : m.closes = false) (h : c.Armed) : (m.run c).Armed := by
  have hdoes := m.run_does c
  rw [Armed, hdoes.channel, hdoes.content]
  cases m with
  | sendInLoop caller data r =>
    by_cases hleft : c.leftover data r = []
    · simpa [Method.effect, hleft, Armed] using h
    · by_cases hw : c.channel_.isWriting
      · simp [Method.effect, hleft, hw]
      · simp [Method.effect, hleft, hw, onChannels, onChannel]
  | handleWrite r =>
    by_cases hw : c.channel_.isWriting
    · by_cases hdrain : c.Drains r
      · simp [Method.effect, hw, hdrain, onChannels, onChannel, hdrain.2]
      · have hrest : c.outputBuffer_.content.drop r.n.toNat ≠ [] := by
          intro hnil
          by_cases hn : 0 < r.n
          · exact hdrain ⟨hn, hnil⟩
          · rw [Int.toNat_of_nonpos (Int.not_lt.mp hn), List.drop_zero] at hnil
            exact h.mp hw hnil
        simp [Method.effect, hw, hdrain, hrest]
    · simpa [Method.effect, hw, Effect.none, Armed] using h
  | shutdownInLoop => exact h
  | handleRead k =>
    have hk : k ≠ .data [] := by simpa [Method.closes] using hm
    simpa [Method.effect, hk, Effect.none, Armed] using h
  | connectEstablished => simpa [Method.effect, Effect.none, onChannels, onChannel, Armed] using h
  | connectDestoryed => cases hm
  | handleClose => cases hm

/-! ## Any sequence of methods -/

/-- The output at the end of a run is what it was, and the messages kept. -/
theorem output_collect (h : methods.Valid c ms) :
    (methods.run c ms).output = c.output ++ (methods.collect kept c ms).flatten := by
  have hrun := Machine.run_collect (m := methods) (I := fun _ => True) (g := output)
    (f := fun c m => (c.kept m).flatten) (fun _ _ _ _ => trivial)
    (fun _ m _ hm => output_run m hm) h trivial
  rwa [Machine.collect_flatten]

/-! ## Dropped where the peer is gone -/

/-- **The law of a step**: a message joins the output whole, or it is dropped whole and its direct
write has found the peer gone; nothing else adds to the output. -/
def Conserves (c : TcpConnection κ τ) (m : Method τ) : Prop :=
  match m with
  | .sendInLoop _ data r => (m.run c).output = c.output ++ data ∨
      (m.run c).output = c.output ∧ c.WritesDirectly ∧ PeerGone r
  | .connectEstablished | .connectDestoryed | .shutdownInLoop | .handleRead _ | .handleWrite _
  | .handleClose => (m.run c).output = c.output

/-- The log line after a failed direct write does not take it for one that found the peer gone. -/
def LogSpares (c : TcpConnection κ τ) : Method τ → Prop
  | .sendInLoop _ data r => (data ≠ [] ∧ c.WritesDirectly ∧ r.n = -1 ∧
      r.errno ∉ [EWOULDBLOCK, EPIPE, ECONNRESET]) → r.logged ∉ [EPIPE, ECONNRESET]
  | .connectEstablished | .connectDestoryed | .shutdownInLoop | .handleRead _ | .handleWrite _
  | .handleClose => True

instance (c : TcpConnection κ τ) : ∀ m, Decidable (c.LogSpares m)
  | .sendInLoop _ _ _ => inferInstanceAs (Decidable (_ → _))
  | .connectEstablished | .connectDestoryed | .shutdownInLoop | .handleRead _ | .handleWrite _
  | .handleClose => isTrue trivial

/-- A message dropped with its peer there is what the log line is to blame for. -/
theorem logSpares_iff {caller : τ} : c.LogSpares (.sendInLoop caller data r) ↔
    (c.Dropped r → data ≠ [] → PeerGone r) := by
  simp only [LogSpares, Dropped, PeerGone, List.mem_cons, List.not_mem_nil, or_false, not_or]
  constructor
  · rintro h ⟨hdirect, hn, herrno, hlogged⟩ hdata
    refine ⟨hn, ?_⟩
    by_contra hthere
    obtain ⟨hpipe, hreset⟩ := h ⟨hdata, hdirect, hn, herrno, not_or.mp hthere⟩
    exact hlogged.elim hpipe hreset
  · rintro h ⟨hdata, hdirect, hn, herrno, hthere⟩
    exact not_or.mp fun hlogged => not_or.mpr hthere (h ⟨hdirect, hn, herrno, hlogged⟩ hdata).2

/-- **A step obeys the law exactly where the log line does so.** -/
theorem conserves_iff (h : m.Allowed c) : c.Conserves m ↔ c.LogSpares m := by
  have hrun := output_run m h
  cases m with
  | sendInLoop caller data r =>
    rw [logSpares_iff, Conserves, hrun, kept]
    by_cases hdrop : c.Dropped r
    · -- the output is as it was, so it has not grown by the message unless that is empty
      simp only [hdrop, if_true, List.flatten_nil, List.append_nil, List.self_eq_append_right,
        true_and, hdrop.1]
      exact or_iff_not_imp_left.trans (forall_const _).symm
    · exact iff_of_true (.inl (by simp [hdrop])) fun hd => absurd hd hdrop
  | _ => exact iff_of_true (hrun.trans (List.append_nil _)) trivial

/-- **Output stream conservation**, over a run: every message joins the output or is dropped where
the peer is gone; the bytes on the wire followed by the bytes waiting are the messages that were not
dropped, in the order of the calls; and until the connection is closed the channel asks for
`EPOLLOUT` exactly while bytes wait. -/
structure Conserved (c : TcpConnection κ τ) (ms : List (Method τ)) : Prop where
  each : methods.Along Conserves c ms
  output : (methods.run c ms).written ++ (methods.run c ms).outputBuffer_.content =
    c.written ++ (methods.collect kept c ms).flatten
  armed : (∀ m ∈ ms, m.closes = false) → ((methods.run c ms).channel_.isWriting = true ↔
    (methods.run c ms).outputBuffer_.content ≠ [])

/-- **The output is conserved, exactly.**  From an empty buffer, and whatever the kernel answers:
it is in the runs in which no log line makes a failed write look as if the peer were gone. -/
theorem output_conserved_iff (hempty : c.outputBuffer_.content = [])
    (hidle : c.channel_.isWriting = false) (h : methods.Valid c ms) :
    Conserved c ms ↔ methods.Along LogSpares c ms := by
  have heach : methods.Along Conserves c ms ↔ methods.Along LogSpares c ms :=
    Machine.along_congr_of_invariant (I := fun _ => True) (fun _ _ _ _ => trivial)
      (fun _ _ _ hm => conserves_iff hm) h trivial
  refine ⟨fun hc => heach.mp hc.each, fun hlog => ⟨heach.mpr hlog, ?_, fun hopen => ?_⟩⟩
  · have hrun := output_collect h
    simpa [TcpConnection.output, hempty] using hrun
  · have harmed : c.Armed := by simp [Armed, hempty, hidle]
    have hrun : methods.Along (fun _ m => m.closes = false) c ms :=
      Machine.along_of_forall_mem hopen
    exact hrun.invariant (I := Armed) (fun _ m h hm => armed_run m hm h) harmed

/-- A message cut short by the kernel, one that waits behind it, the drain of both, and a message
that finds the peer gone. -/
theorem output_conserved_iff_short :
    (methods.run ({ TcpConnection.new () 7 .new with outputBuffer_ := .new 2 } :
        TcpConnection Unit Unit)
      [.connectEstablished, .sendInLoop () [1, 2, 3] ⟨1, 0, 0⟩, .sendInLoop () [4] ⟨-1, 0, 0⟩,
        .handleWrite ⟨3, 0, 0⟩, .sendInLoop () [5] ⟨-1, EPIPE, EPIPE⟩]).output = [1, 2, 3, 4] :=
  ((output_conserved_iff (by decide) (by decide) (by decide)).mpr (by decide)).output.trans
    (by decide)

/-- **A message lost to the log line**: its write times out, and the log goes to a peer that has reset
its connection. -/
theorem not_output_conserved_logged :
    (TcpConnection.new () 7 .new : TcpConnection Unit Unit).outputBuffer_.content = [] ∧
    (TcpConnection.new () 7 .new : TcpConnection Unit Unit).channel_.isWriting = false ∧
    methods.Valid (TcpConnection.new () 7 .new : TcpConnection Unit Unit)
      [.connectEstablished, .sendInLoop () [1] ⟨-1, ETIMEDOUT, ECONNRESET⟩] ∧
    ¬ Conserved (TcpConnection.new () 7 .new : TcpConnection Unit Unit)
      [.connectEstablished, .sendInLoop () [1] ⟨-1, ETIMEDOUT, ECONNRESET⟩] := by
  refine ⟨by decide, by decide, by decide, fun h => ?_⟩
  obtain ⟨-, hjoins | ⟨-, -, -, hgone⟩, -⟩ := h.each
  · exact absurd hjoins (by decide)
  · exact absurd hgone (by decide)

end TcpConnection

end Mymuduo
