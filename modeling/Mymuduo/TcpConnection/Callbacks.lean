import Mathlib.Data.List.Induction
import Mymuduo.TcpConnection.OutputStream

/-!
# TcpConnection/Callbacks — when the user's callbacks are queued

A connection queues two kinds of callback on its own, both about the bytes waiting in
`outputBuffer_`.  The high-water callback comes when the backlog rises over the mark, with the
backlog it leaves; only `sendInLoop` makes it rise.  The write-complete callback comes when a write
takes bytes and leaves none: `sendInLoop` queues it when the direct write took the whole message,
`handleWrite` when it drains the buffer,

    a step queues it  ↔  it writes bytes, and nothing waits afterwards

and with the output conserved that one law gives both when it comes and how often.  It says so of
the messages kept; a message dropped though its peer is there is accepted and not kept
(`completion_marks_iff`).
-/

namespace Mymuduo

open Machinery

/-- The backlogs the high-water callbacks of a list carry. -/
def highWaterSizes {τ : Type*} : List (PendingFunctor τ) → List ℕ :=
  List.filterMap fun
    | .highWaterMarkCallback size => some size
    | .connectDestoryed | .sendInLoop _ _ | .shutdownInLoop | .writeCompleteCallback => none

/-- The number of write-complete callbacks in a list. -/
def completions {τ : Type*} : List (PendingFunctor τ) → ℕ :=
  List.countP fun
    | .writeCompleteCallback => true
    | .connectDestoryed | .sendInLoop _ _ | .shutdownInLoop | .highWaterMarkCallback _ => false

theorem highWaterSizes_append {τ : Type*} (fs gs : List (PendingFunctor τ)) :
    highWaterSizes (fs ++ gs) = highWaterSizes fs ++ highWaterSizes gs := List.filterMap_append

theorem completions_append {τ : Type*} (fs gs : List (PendingFunctor τ)) :
    completions (fs ++ gs) = completions fs + completions gs := List.countP_append

namespace TcpConnection

variable {κ τ : Type*} {c d : TcpConnection κ τ} {m : Method τ} {ms : List (Method τ)}
  {data : List Byte} {r : WriteResult}

/-- The methods that output bytes. -/
def Method.outputs : Method τ → Bool
  | sendInLoop _ _ _ | handleWrite _ => true
  | connectEstablished | connectDestoryed | shutdownInLoop | handleRead _ | handleClose => false

/-! ## What they queue -/

/-- **The callbacks a method queues.** -/
def notices (c : TcpConnection κ τ) : Method τ → List (PendingFunctor τ)
  | .sendInLoop _ data r => c.completion data r ++ c.flooding (c.leftover data r)
  | .handleWrite r =>
      if c.channel_.isWriting = true ∧ c.Drains r ∧ c.writeCompleteCallback_ = true then
        [.writeCompleteCallback]
      else []
  | .connectEstablished | .connectDestoryed | .shutdownInLoop | .handleRead _ | .handleClose => []

/-- `handleWrite` queues a callback when it drains the buffer. -/
theorem handleWrite_queues (c : TcpConnection κ τ) (r : WriteResult) :
    (c.handleWrite r).pendingFunctors_ =
      c.pendingFunctors_ ++ c.notices (.handleWrite r : Method τ) := by
  cases hw : c.channel_.isWriting
  case false => simp [handleWrite, notices, hw]
  by_cases hn : 0 < r.n
  case neg => simp [handleWrite, notices, Drains, hw, hn, write]
  have hread : (c.outputBuffer_.retrieve r.n.toNat).readableBytes = 0 ↔
      c.outputBuffer_.content.drop r.n.toNat = [] := by
    rw [SafeBuffer.readableBytes_eq_zero, SafeBuffer.content_retrieve]
  by_cases hempty : c.outputBuffer_.content.drop r.n.toNat = []
  · by_cases hs : c.state_ = .kDisconnecting <;> cases hset : c.writeCompleteCallback_ <;>
      simp [handleWrite, notices, Drains, hw, hn, hread, hempty, hs, hset, write, queueIf,
        queueInLoop, shutdownInLoop, shutdownWrite, onChannel]
  · simp [handleWrite, notices, Drains, hw, hn, hread, hempty, write]

/-- **They queue these, and nothing else.** -/
theorem pendingFunctors_run (hm : m.outputs = true) (c : TcpConnection κ τ) :
    (m.run c).pendingFunctors_ = c.pendingFunctors_ ++ c.notices m := by
  cases m with
  | sendInLoop caller data r =>
    obtain ⟨b, -, heq⟩ := sendInLoop_eq c data r
    rw [Method.run, heq, List.append_assoc]
    rfl
  | handleWrite r => exact handleWrite_queues c r
  | _ => cases hm

/-- The settings of a connection: the mark, and which callbacks are set. -/
def settings (c : TcpConnection κ τ) : ℕ × Bool × Bool :=
  (c.highWaterMark_, c.highWaterMarkCallback_, c.writeCompleteCallback_)

/-- No output changes them. -/
theorem settings_run (hm : m.outputs = true) (c : TcpConnection κ τ) :
    (m.run c).settings = c.settings := by
  cases m with
  | sendInLoop caller data r =>
    obtain ⟨b, -, heq⟩ := sendInLoop_eq c data r
    rw [Method.run, heq, onChannels_eq]
    rfl
  | handleWrite r =>
    simp only [Method.run, handleWrite, settings, queueIf_eq, shutdownInLoop, shutdownWrite, write,
      onChannel]
    split_ifs <;> rfl
  | _ => cases hm

theorem settings_methods (hms : ∀ m ∈ ms, m.outputs = true) (c : TcpConnection κ τ) :
    (methods.run c ms).settings = c.settings := by
  have hrun : methods.Along (fun _ m => m.outputs = true) c ms := Machine.along_of_forall_mem hms
  exact hrun.invariant (I := fun d => d.settings = c.settings)
    (fun d _ hd hm => (settings_run hm d).trans hd) rfl

theorem writeCompleteCallback_methods (hms : ∀ m ∈ ms, m.outputs = true) :
    (methods.run c ms).writeCompleteCallback_ = c.writeCompleteCallback_ :=
  (Prod.mk.inj (Prod.mk.inj (settings_methods hms c)).2).2

/-- The bytes a method puts on the wire. -/
def wrote (c : TcpConnection κ τ) (m : Method τ) : List Byte :=
  (m.effect c).calls.flatMap SocketCall.accepted

/-- **What was waiting and what is kept is written or waits.** -/
theorem wrote_append_content (hm : m.Allowed c) :
    c.wrote m ++ (m.run c).outputBuffer_.content =
      c.outputBuffer_.content ++ (c.kept m).flatten := by
  have hrun := output_run m hm
  rw [output, output, (m.run_does c).written, List.append_assoc, List.append_assoc] at hrun
  exact List.append_cancel_left hrun

theorem backlog_eq (c : TcpConnection κ τ) : c.backlog = c.outputBuffer_.content.length :=
  c.outputBuffer_.length_content.symm

theorem backlog_run (m : Method τ) (c : TcpConnection κ τ) :
    (m.run c).backlog = (m.effect c).content.length := by
  rw [backlog_eq, (m.run_does c).content]

/-! ## The high-water mark -/

/-- **A step queues a high-water callback when the backlog rises over the mark**, and it carries the
backlog as it is then. -/
theorem highWater_step (hset : c.highWaterMarkCallback_ = true) (hm : m.outputs = true) :
    highWaterSizes (m.run c).pendingFunctors_ = highWaterSizes c.pendingFunctors_ ++
      if ¬ c.highWaterMark_ ≤ c.backlog ∧ c.highWaterMark_ ≤ (m.run c).backlog then
        [(m.run c).backlog]
      else [] := by
  rw [pendingFunctors_run hm, backlog_run]
  cases m with
  | sendInLoop caller data r =>
    have hcompletion : highWaterSizes (c.completion data r) = [] := by
      unfold completion
      split <;> rfl
    have hbacklog : ((Method.sendInLoop caller data r).effect c).content.length =
        c.backlog + (c.leftover data r).length := by
      rw [backlog_eq, ← List.length_append]
      rfl
    have hrise : (c.leftover data r ≠ [] ∧
        c.highWaterMark_ ≤ c.backlog + (c.leftover data r).length ∧
        c.backlog < c.highWaterMark_ ∧ c.highWaterMarkCallback_ = true) ↔
        ¬ c.highWaterMark_ ≤ c.backlog ∧
          c.highWaterMark_ ≤ c.backlog + (c.leftover data r).length := by
      rw [← List.length_pos_iff]
      constructor
      · rintro ⟨-, hmark, hlt, -⟩
        exact ⟨Nat.not_le.mpr hlt, hmark⟩
      · rintro ⟨hlt, hmark⟩
        exact ⟨by omega, hmark, Nat.not_le.mp hlt, hset⟩
    rw [notices, highWaterSizes_append, highWaterSizes_append, hcompletion, hbacklog, flooding]
    simp only [hrise]
    split <;> rfl
  | handleWrite r =>
    have hqueued : highWaterSizes (c.notices (.handleWrite r : Method τ)) = [] := by
      simp only [notices]
      split <;> rfl
    have hfall : ((Method.handleWrite r : Method τ).effect c).content.length ≤ c.backlog := by
      rw [backlog_eq]
      simp only [Method.effect]
      split
      · rw [List.length_drop]
        exact Nat.sub_le _ _
      · exact le_refl _
    rw [highWaterSizes_append, hqueued, if_neg]
    rintro ⟨hlt, hmark⟩
    exact hlt (le_trans hmark hfall)
  | _ => cases hm

/-- **High-water callbacks match upward crossings.**  From an empty buffer, with the callback set,
over every sequence of `sendInLoop` and `handleWrite` and whatever the kernel answers: each step
queues a callback exactly when the backlog rises over the mark, carrying the backlog right after it;
and the callbacks queued outnumber the falls below the mark by one while the backlog is at the mark
or above, and by none otherwise. -/
theorem highWater_matches (hempty : c.outputBuffer_.content = [])
    (hset : c.highWaterMarkCallback_ = true) (hmark : 0 < c.highWaterMark_)
    (hms : ∀ m ∈ ms, m.outputs = true) :
    methods.Along (fun d m => highWaterSizes (m.run d).pendingFunctors_ =
      highWaterSizes d.pendingFunctors_ ++
        if d.backlog < c.highWaterMark_ ∧ c.highWaterMark_ ≤ (m.run d).backlog then
          [(m.run d).backlog]
        else []) c ms ∧
    (highWaterSizes (methods.run c ms).pendingFunctors_).length =
      (highWaterSizes c.pendingFunctors_).length +
        (methods.downs (fun d => c.highWaterMark_ ≤ d.backlog) c ms).length +
          if c.highWaterMark_ ≤ (methods.run c ms).backlog then 1 else 0 := by
  have hrun : methods.Along (fun _ m => m.outputs = true) c ms := Machine.along_of_forall_mem hms
  have hkeep : ∀ (d : TcpConnection κ τ) (m : Method τ), d.settings = c.settings →
      m.outputs = true → (m.run d).settings = c.settings :=
    fun d m hd hm => (settings_run hm d).trans hd
  have hstep : ∀ (d : TcpConnection κ τ) (m : Method τ), d.settings = c.settings →
      m.outputs = true →
      highWaterSizes (m.run d).pendingFunctors_ = highWaterSizes d.pendingFunctors_ ++
        if ¬ c.highWaterMark_ ≤ d.backlog ∧ c.highWaterMark_ ≤ (m.run d).backlog then
          [(m.run d).backlog]
        else [] := by
    intro d m hd hm
    obtain ⟨hsame, hother⟩ := Prod.mk.inj hd
    rw [← hsame]
    exact highWater_step ((Prod.mk.inj hother).1.trans hset) hm
  refine ⟨?_, ?_⟩
  · refine hrun.imp_of_invariant (I := fun d => d.settings = c.settings) hkeep ?_ rfl
    intro d m hd hm
    simp only [← Nat.not_le]
    exact hstep d m hd hm
  · have hcount := Machine.run_collect (m := methods) (I := fun d => d.settings = c.settings)
      (g := fun d => highWaterSizes d.pendingFunctors_)
      (f := fun d m => if ¬ c.highWaterMark_ ≤ d.backlog ∧ c.highWaterMark_ ≤ (m.run d).backlog
        then [(m.run d).backlog] else []) hkeep hstep hrun rfl
    have hups := methods.length_ups (fun d => c.highWaterMark_ ≤ d.backlog) c ms
    have hlow : ¬ c.highWaterMark_ ≤ c.backlog := by
      rw [backlog_eq, hempty]
      exact Nat.not_le.mpr hmark
    have hlength : (methods.collect (fun (d : TcpConnection κ τ) m =>
        if ¬ c.highWaterMark_ ≤ d.backlog ∧ c.highWaterMark_ ≤ (m.run d).backlog then
          [(m.run d).backlog] else []) c ms).length =
        (methods.ups (fun d => c.highWaterMark_ ≤ d.backlog) c ms).length :=
      methods.length_collect_congr (fun d m => by
        rw [apply_ite List.length, apply_ite List.length]
        rfl) c ms
    rw [if_neg hlow, Nat.add_zero] at hups
    rw [hcount, List.length_append, hlength, hups, Nat.add_assoc]

/-- A mark of two bytes: a first message rises over it, and it is drained in two writes. -/
theorem highWater_matches_twice :
    (highWaterSizes (methods.run ({ TcpConnection.new () 7 .new with
        outputBuffer_ := .new 4, highWaterMark_ := 2, highWaterMarkCallback_ := true } :
          TcpConnection Unit Unit)
      [.sendInLoop () [1, 2, 3] ⟨-1, 11, 11⟩, .handleWrite ⟨2, 0, 0⟩, .sendInLoop () [4] ⟨-1, 0, 0⟩,
        .handleWrite ⟨2, 0, 0⟩]).pendingFunctors_).length = 2 :=
  (highWater_matches (by decide) rfl (by decide) (by decide)).2.trans (by decide)

/-! ## The end of the output -/

/-- **The law of completion**: a step queues a write-complete callback exactly when it puts bytes on
the wire and leaves none waiting. -/
theorem completions_step (hset : c.writeCompleteCallback_ = true) (hm : m.outputs = true)
    (hallowed : m.Allowed c) : completions (m.run c).pendingFunctors_ =
      completions c.pendingFunctors_ +
        if c.wrote m ≠ [] ∧ (m.run c).outputBuffer_.content = [] then 1 else 0 := by
  rw [pendingFunctors_run hm, (m.run_does c).content, completions_append, Nat.add_left_cancel_iff]
  cases m with
  | sendInLoop caller data r =>
    have hflood : completions (c.flooding (c.leftover data r)) = 0 := by
      unfold flooding
      split <;> rfl
    have hlaw : (c.WritesDirectly ∧ 0 < r.n ∧ data.drop r.n.toNat = [] ∧
        c.writeCompleteCallback_ = true) ↔
        c.wrote (.sendInLoop caller data r) ≠ [] ∧
          c.outputBuffer_.content ++ c.leftover data r = [] := by
      by_cases hdirect : c.WritesDirectly
      · have hempty : c.outputBuffer_.content = [] := hdirect.2
        by_cases hn : 0 < r.n
        · have hfault : ¬ Faults r := fun h => h.1 hn
          have hsome : data.take r.n.toNat ≠ [] := by
            obtain hfail | ⟨-, hzero⟩ | ⟨hpos, hle⟩ := hallowed hdirect
            · omega
            · omega
            · rw [← List.length_pos_iff, List.length_take]
              omega
          simp [wrote, Method.effect, SocketCall.accepted, hdirect, hn, hsome, hset, hempty,
            leftover, hfault]
        · have hzero : r.n.toNat = 0 := Int.toNat_of_nonpos (Int.not_lt.mp hn)
          simp [wrote, Method.effect, SocketCall.accepted, hdirect, hn, hzero]
      · simp [wrote, Method.effect, hdirect]
    change completions (c.completion data r ++ c.flooding (c.leftover data r)) =
      if _ ∧ c.outputBuffer_.content ++ c.leftover data r = [] then 1 else 0
    rw [completions_append, hflood, completion, Nat.add_zero, apply_ite completions]
    simp only [hlaw]
    rfl
  | handleWrite r =>
    have hlaw : (c.channel_.isWriting = true ∧ c.Drains r ∧ c.writeCompleteCallback_ = true) ↔
        c.wrote (.handleWrite r : Method τ) ≠ [] ∧
          ((Method.handleWrite r : Method τ).effect c).content = [] := by
      by_cases hw : c.channel_.isWriting = true
      · by_cases hn : 0 < r.n
        · have hsome : c.outputBuffer_.content.take r.n.toNat ≠ [] := by
            obtain hfail | ⟨-, hzero⟩ | ⟨hpos, hle⟩ := hallowed hw
            · omega
            · omega
            · rw [← List.length_pos_iff, List.length_take]
              omega
          simp [wrote, Method.effect, SocketCall.accepted, Drains, hw, hn, hsome, hset]
        · have hzero : r.n.toNat = 0 := Int.toNat_of_nonpos (Int.not_lt.mp hn)
          simp [wrote, Method.effect, SocketCall.accepted, Drains, hw, hn, hzero]
      · simp [wrote, Method.effect, Effect.none, hw]
    simp only [notices, hlaw]
    split <;> rfl
  | _ => cases hm

/-- A step that puts no byte on the wire, and leaves nothing waiting, kept nothing. -/
theorem kept_of_wrote_nil (hallowed : m.Allowed c) (hwrote : c.wrote m = [])
    (hempty : (m.run c).outputBuffer_.content = []) :
    c.outputBuffer_.content = [] ∧ (c.kept m).flatten = [] := by
  have hstep := wrote_append_content hallowed
  rw [hwrote, hempty, List.append_nil] at hstep
  exact List.append_eq_nil_iff.mp hstep.symm

/-- **The last write.**  Where nothing waits and something was kept, there is a step that wrote the
last byte of it, and it queued the one callback queued from there on. -/
theorem exists_last_write (hset : c.writeCompleteCallback_ = true)
    (hms : ∀ m ∈ ms, m.outputs = true) (hvalid : methods.Valid c ms)
    (hdrained : (methods.run c ms).outputBuffer_.content = [])
    (hsome : (methods.collect kept c ms).flatten ≠ []) :
    ∃ before m after, ms = before ++ m :: after ∧ (methods.run c before).wrote m ≠ [] ∧
      (m.run (methods.run c before)).outputBuffer_.content = [] ∧
      methods.collect (fun d m => d.wrote m) (m.run (methods.run c before)) after = [] ∧
      (methods.collect kept (m.run (methods.run c before)) after).flatten = [] ∧
      completions (methods.run c ms).pendingFunctors_ =
        completions (methods.run c before).pendingFunctors_ + 1 := by
  induction ms using List.reverseRecOn with
  | nil => exact absurd rfl hsome
  | append_singleton ms m ih =>
    obtain ⟨hbefore, hm⟩ := Machine.along_append.mp hvalid
    have hout : ∀ m ∈ ms, m.outputs = true := fun m hm => hms m (List.mem_append_left _ hm)
    have hflag := (writeCompleteCallback_methods hout).trans hset
    have hstep := completions_step hflag (hms m (List.mem_append_right _ List.mem_cons_self)) hm.1
    rw [Machine.run_append] at hdrained ⊢
    change (m.run (methods.run c ms)).outputBuffer_.content = [] at hdrained
    change completions (m.run (methods.run c ms)).pendingFunctors_ = _ at hstep
    by_cases hwrote : (methods.run c ms).wrote m = []
    · obtain ⟨hdrained', hkept⟩ := kept_of_wrote_nil hm.1 hwrote hdrained
      have hsome' : (methods.collect kept c ms).flatten ≠ [] := by
        rw [Machine.collect_append, List.flatten_append] at hsome
        simpa [hkept] using hsome
      obtain ⟨before, m', after, rfl, hw, hc, hnone, hempties, hcount⟩ :=
        ih hout hbefore hdrained' hsome'
      have hlast : methods.run (m'.run (methods.run c before)) after =
          methods.run c (before ++ m' :: after) := by
        rw [Machine.run_append]
        rfl
      refine ⟨before, m', after ++ [m], by simp, hw, hc, ?_, ?_, ?_⟩
      · rw [Machine.collect_append, hnone, hlast]
        simpa using hwrote
      · rw [Machine.collect_append, List.flatten_append, hempties, hlast]
        simpa using hkept
      · change completions (m.run (methods.run c (before ++ m' :: after))).pendingFunctors_ = _
        rw [hstep, if_neg (fun h => h.1 hwrote), hcount]
    · refine ⟨ms, m, [], rfl, hwrote, hdrained, rfl, rfl, ?_⟩
      change completions (m.run (methods.run c ms)).pendingFunctors_ = _
      rw [hstep, if_pos ⟨hwrote, hdrained⟩]

/-- What a step writes to the end, or leaves waiting, was waiting before or is kept by it. -/
theorem completes_le (hallowed : m.Allowed c) :
    (if c.wrote m ≠ [] ∧ (m.run c).outputBuffer_.content = [] then 1 else 0) +
        (if (m.run c).outputBuffer_.content = [] then 0 else 1) ≤
      (if c.outputBuffer_.content = [] then 0 else 1) + (c.kept m).countP (· ≠ []) := by
  have hone : (if c.wrote m ≠ [] ∧ (m.run c).outputBuffer_.content = [] then 1 else 0) +
      (if (m.run c).outputBuffer_.content = [] then 0 else 1) ≤ 1 := by
    split_ifs <;> simp_all
  by_cases hwaits : c.outputBuffer_.content = []
  · by_cases hnone : (c.kept m).countP (· ≠ []) = 0
    · have hnil : (c.kept m).flatten = [] := by
        rw [List.countP_eq_zero] at hnone
        exact List.flatten_eq_nil_iff.mpr fun l hl => by simpa using hnone l hl
      have hstep := wrote_append_content hallowed
      rw [hwaits, hnil, List.append_nil] at hstep
      obtain ⟨hwrote, hempty⟩ := List.append_eq_nil_iff.mp hstep
      rw [if_neg (fun h => h.1 hwrote), if_pos hempty]
      exact Nat.zero_le _
    · omega
  · rw [if_neg hwaits]
    omega

/-- **One callback for each message at most**, and one less while something waits. -/
theorem completions_le (hset : c.writeCompleteCallback_ = true)
    (hms : ∀ m ∈ ms, m.outputs = true) (hvalid : methods.Valid c ms) :
    completions (methods.run c ms).pendingFunctors_ +
        (if (methods.run c ms).outputBuffer_.content = [] then 0 else 1) ≤
      completions c.pendingFunctors_ + (if c.outputBuffer_.content = [] then 0 else 1) +
        (methods.collect kept c ms).countP (· ≠ []) := by
  induction ms generalizing c with
  | nil => exact le_refl _
  | cons m ms ih =>
    have hout := hms m List.mem_cons_self
    have hflag : (m.run c).writeCompleteCallback_ = true :=
      (Prod.mk.inj (Prod.mk.inj (settings_run hout c)).2).2.trans hset
    have hrest := ih hflag (fun m' hm' => hms m' (List.mem_cons_of_mem m hm')) hvalid.2
    have hstep := completions_step hset hout hvalid.1
    have hle := completes_le hvalid.1
    rw [Machine.collect_cons, List.countP_append]
    change completions (methods.run (m.run c) ms).pendingFunctors_ +
      (if (methods.run (m.run c) ms).outputBuffer_.content = [] then 0 else 1) ≤ _ +
        (_ + (methods.collect kept (m.run c) ms).countP (· ≠ []))
    omega

/-- **No callback is early**: a step queues one with everything kept so far on the wire. -/
theorem written_of_queued {before after : List (Method τ)}
    (hempty : c.outputBuffer_.content = []) (hset : c.writeCompleteCallback_ = true)
    (hms : ∀ m' ∈ before ++ m :: after, m'.outputs = true)
    (hvalid : methods.Valid c (before ++ m :: after))
    (hqueued : completions (m.run (methods.run c before)).pendingFunctors_ ≠
      completions (methods.run c before).pendingFunctors_) :
    (m.run (methods.run c before)).outputBuffer_.content = [] ∧
      (m.run (methods.run c before)).written =
        c.written ++ (methods.collect kept c (before ++ [m])).flatten := by
  have hsplit : methods.Valid c (before ++ [m]) :=
    Machine.Along.of_prefix hvalid ⟨after, by simp⟩
  have hout : ∀ m' ∈ before, m'.outputs = true := fun m' hm' =>
    hms m' (List.mem_append_left _ hm')
  have hflag := (writeCompleteCallback_methods hout).trans hset
  have hstep := completions_step hflag (hms m (List.mem_append_right _ List.mem_cons_self))
    (Machine.along_append.mp hsplit).2.1
  by_cases hlaw : (methods.run c before).wrote m ≠ [] ∧
      (m.run (methods.run c before)).outputBuffer_.content = []
  · have hconserved := output_collect hsplit
    rw [output, output, hempty, List.append_nil, Machine.run_append] at hconserved
    change (m.run (methods.run c before)).written ++
      (m.run (methods.run c before)).outputBuffer_.content = _ at hconserved
    rw [hlaw.2, List.append_nil] at hconserved
    exact ⟨hlaw.2, hconserved⟩
  · rw [if_neg hlaw] at hstep
    exact absurd hstep hqueued

/-! ### What they say of the messages accepted -/

/-- The messages a method accepts: all but those dropped where the peer is gone. -/
def accepted (c : TcpConnection κ τ) : Method τ → List (List Byte)
  | .sendInLoop _ data r => if c.Dropped r ∧ PeerGone r then [] else [data]
  | .connectEstablished | .connectDestoryed | .shutdownInLoop | .handleRead _ | .handleWrite _
  | .handleClose => []

/-- **What the callbacks say at the end of a run**: each was queued with everything accepted so far
on the wire and nothing waiting; where nothing waits and something was accepted, one was queued at
or after the write of its last byte; and there are no more of them than messages accepted that are
not empty. -/
structure Marks (c : TcpConnection κ τ) (ms : List (Method τ)) : Prop where
  never_early : ∀ before m after, ms = before ++ m :: after →
    completions (m.run (methods.run c before)).pendingFunctors_ ≠
      completions (methods.run c before).pendingFunctors_ →
    (m.run (methods.run c before)).outputBuffer_.content = [] ∧
      (m.run (methods.run c before)).written =
        c.written ++ (methods.collect accepted c (before ++ [m])).flatten
  comes : (methods.run c ms).outputBuffer_.content = [] →
    (methods.collect accepted c ms).flatten ≠ [] →
    ∃ before m after, ms = before ++ m :: after ∧ (methods.run c before).wrote m ≠ [] ∧
      (m.run (methods.run c before)).outputBuffer_.content = [] ∧
      methods.collect (fun d m => d.wrote m) (m.run (methods.run c before)) after = [] ∧
      (methods.collect accepted (m.run (methods.run c before)) after).flatten = [] ∧
      completions (methods.run c ms).pendingFunctors_ =
        completions (methods.run c before).pendingFunctors_ + 1
  at_most : completions (methods.run c ms).pendingFunctors_ ≤
    completions c.pendingFunctors_ + (methods.collect accepted c ms).countP (· ≠ [])

/-- Where the log line does not interfere, a step keeps what it accepts, but for empty messages. -/
theorem accepted_of_logSpares (h : c.LogSpares m) :
    (c.accepted m).flatten = (c.kept m).flatten ∧
      (c.accepted m).countP (· ≠ []) = (c.kept m).countP (· ≠ []) := by
  cases m with
  | sendInLoop caller data r =>
    by_cases hdrop : c.Dropped r
    · by_cases hgone : PeerGone r
      · simp [accepted, kept, hdrop, hgone]
      · have hdata : data = [] := by
          by_contra hne
          exact hgone (logSpares_iff.mp h hdrop hne)
        simp [accepted, kept, hdrop, hgone, hdata]
    · simp [accepted, kept, hdrop]
  | _ => exact ⟨rfl, rfl⟩

/-- So does a run. -/
theorem collect_accepted (h : methods.Along LogSpares c ms) :
    (methods.collect accepted c ms).flatten = (methods.collect kept c ms).flatten ∧
      (methods.collect accepted c ms).countP (· ≠ []) =
        (methods.collect kept c ms).countP (· ≠ []) := by
  induction ms generalizing c with
  | nil => exact ⟨rfl, rfl⟩
  | cons m ms ih =>
    obtain ⟨hflat, hcount⟩ := accepted_of_logSpares h.1
    obtain ⟨hflat', hcount'⟩ := ih h.2
    simp only [Machine.collect_cons, List.flatten_append, List.countP_append, hflat, hcount, hflat',
      hcount', and_self]

/-- Where the log line does not interfere, the callbacks mark the end of the output. -/
theorem marks_of_logSpares (hempty : c.outputBuffer_.content = [])
    (hset : c.writeCompleteCallback_ = true) (hms : ∀ m ∈ ms, m.outputs = true)
    (hvalid : methods.Valid c ms) (hlog : methods.Along LogSpares c ms) : Marks c ms := by
  obtain ⟨hflat, hcount⟩ := collect_accepted hlog
  refine ⟨fun before m after hms' hqueued => ?_, fun hdrained hsome => ?_, ?_⟩
  · subst hms'
    have hsplit : methods.Along LogSpares c (before ++ [m]) :=
      Machine.Along.of_prefix hlog ⟨after, by simp⟩
    rw [(collect_accepted hsplit).1]
    exact written_of_queued hempty hset hms hvalid hqueued
  · rw [hflat] at hsome
    obtain ⟨before, m, after, rfl, hwrote, hnone, hlater, hkept, hone⟩ :=
      exists_last_write hset hms hvalid hdrained hsome
    have hafter := (Machine.along_append.mp hlog).2.2
    exact ⟨before, m, after, rfl, hwrote, hnone, hlater, (collect_accepted hafter).1.trans hkept,
      hone⟩
  · rw [hcount]
    have hle := completions_le hset hms hvalid
    rw [if_pos hempty] at hle
    omega

/-- A message dropped with its peer there leaves nothing waiting, and no callback comes for it. -/
theorem logSpares_of_marks (hmarks : Marks c (ms ++ [m])) : (methods.run c ms).LogSpares m := by
  cases m with
  | sendInLoop caller data r =>
    refine logSpares_iff.mpr fun hdrop hdata => ?_
    by_contra hgone
    have hfault : Faults r := ⟨by rw [hdrop.2.1]; decide, hdrop.2.2⟩
    have haccepted : ((methods.run c ms).accepted (.sendInLoop caller data r)).flatten = data := by
      simp [accepted, hgone]
    have hwrote : (methods.run c ms).wrote (.sendInLoop caller data r) = [] := by
      have hzero : r.n.toNat = 0 := by rw [hdrop.2.1]; rfl
      simp [wrote, Method.effect, hdrop.1, SocketCall.accepted, hzero]
    have hnone : (methods.run c (ms ++ [.sendInLoop caller data r])).outputBuffer_.content = [] := by
      rw [Machine.run_append]
      refine (Method.run_does (.sendInLoop caller data r) _).content.trans ?_
      simp [Method.effect, leftover, hdrop.1, hfault, hdrop.1.2]
    have hsome : (methods.collect accepted c (ms ++ [.sendInLoop caller data r])).flatten ≠ [] := by
      simp [Machine.collect_append, haccepted, hdata]
    obtain ⟨before, m, after, hsplit, hwrote', -, -, hlater, -⟩ := hmarks.comes hnone hsome
    rcases after.eq_nil_or_concat with rfl | ⟨after, last, rfl⟩
    · -- the last write would be that of the message itself
      obtain ⟨rfl, hlast⟩ := List.append_inj' hsplit rfl
      obtain rfl := List.singleton_inj.mp hlast
      exact hwrote' hwrote
    · obtain ⟨rfl, hlast⟩ : ms = before ++ m :: after ∧ [.sendInLoop caller data r] = [last] :=
        List.append_inj' (by simpa using hsplit) rfl
      obtain rfl := List.singleton_inj.mp hlast
      have hlast' : (methods.run c (before ++ m :: after)).accepted (.sendInLoop caller data r) =
          (methods.run (m.run (methods.run c before)) after).accepted (.sendInLoop caller data r) := by
        rw [Machine.run_append]
        rfl
      rw [hlast'] at haccepted
      simp [Machine.collect_append, haccepted, hdata] at hlater
  | _ => trivial

/-- **Write-complete callbacks mark the end of the output, exactly.**  From an empty buffer, with
the callback set, over every sequence of `sendInLoop` and `handleWrite` and every answer the kernel
may give: they do so in every state of a run if and only if no log line makes a failed write look as
if the peer were gone. -/
theorem completion_marks_iff (hempty : c.outputBuffer_.content = [])
    (hset : c.writeCompleteCallback_ = true) (hms : ∀ m ∈ ms, m.outputs = true)
    (hvalid : methods.Valid c ms) :
    (∀ as, as <+: ms → Marks c as) ↔ methods.Along LogSpares c ms := by
  constructor
  · intro hmarks
    induction ms using List.reverseRecOn with
    | nil => trivial
    | append_singleton ms m ih =>
      have hbefore : methods.Along LogSpares c ms :=
        ih (fun m' hm' => hms m' (List.mem_append_left _ hm')) (Machine.along_append.mp hvalid).1
          fun as has => hmarks as (has.trans (List.prefix_append _ _))
      exact Machine.along_append.mpr
        ⟨hbefore, logSpares_of_marks (hmarks _ List.prefix_rfl), trivial⟩
  · rintro hlog as has
    exact marks_of_logSpares hempty hset (fun m hm => hms m (has.subset hm))
      (Machine.Along.of_prefix hvalid has) (Machine.Along.of_prefix hlog has)

/-- A message cut short, an empty one and a message behind it are three calls and two messages; the
one drain queues one callback. -/
theorem completion_marks_iff_short :
    completions (methods.run ({ TcpConnection.new () 7 .new with
        outputBuffer_ := .new 4, writeCompleteCallback_ := true } : TcpConnection Unit Unit)
      [.sendInLoop () [1, 2, 3] ⟨1, 0, 0⟩, .sendInLoop () [] ⟨-1, 0, 0⟩,
        .sendInLoop () [4] ⟨-1, 0, 0⟩, .handleWrite ⟨3, 0, 0⟩]).pendingFunctors_ ≤ 2 :=
  le_of_le_of_eq ((completion_marks_iff (by decide) rfl (by decide) (by decide)).mpr (by decide) _
    List.prefix_rfl).at_most (by decide)

/-- **A message lost to the log line**: its write times out, the log goes to a peer that has reset its
connection, and the next message, written whole, is announced as the end of both. -/
theorem not_completion_marks_logged :
    ({ TcpConnection.new () 7 .new with writeCompleteCallback_ := true } :
        TcpConnection Unit Unit).outputBuffer_.content = [] ∧
    methods.Valid ({ TcpConnection.new () 7 .new with writeCompleteCallback_ := true } :
        TcpConnection Unit Unit)
      [.sendInLoop () [1] ⟨-1, ETIMEDOUT, ECONNRESET⟩, .sendInLoop () [2] ⟨1, 0, 0⟩] ∧
    ¬ Marks ({ TcpConnection.new () 7 .new with writeCompleteCallback_ := true } :
        TcpConnection Unit Unit)
      [.sendInLoop () [1] ⟨-1, ETIMEDOUT, ECONNRESET⟩, .sendInLoop () [2] ⟨1, 0, 0⟩] := by
  refine ⟨by decide, by decide, fun h => ?_⟩
  obtain ⟨-, hwritten⟩ := h.never_early [.sendInLoop () [1] ⟨-1, ETIMEDOUT, ECONNRESET⟩]
    (.sendInLoop () [2] ⟨1, 0, 0⟩) [] rfl (by decide)
  exact absurd hwritten (by decide)

end TcpConnection

end Mymuduo
