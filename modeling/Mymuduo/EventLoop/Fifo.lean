import Mymuduo.EventLoop.Model
import Mymuduo.Machinery.Simulation

/-!
# EventLoop/Fifo — the loop is a FIFO queue of functors

What the loop is for, as far as its callers can tell, is a `WorkQueue`: work is put in at one end by
anyone, and taken out at the other, one piece at a time.  The loop keeps its work in two vectors,
the rest of the batch it is running and `pendingFunctors_`, and swaps them when the first is empty;
seen as the queue

    functors ++ pendingFunctors_

every step of the loop puts, takes, or does nothing (`simulation`).  That nothing is lost, doubled
or reordered is then a fact about queues (`WorkQueue.conserved`).
-/

namespace Mymuduo

open Machinery

/-- A FIFO queue with its history. -/
structure WorkQueue (φ : Type*) where
  queue : List φ
  put : List φ
  taken : List φ

namespace WorkQueue

variable {φ : Type*}

inductive Action (φ : Type*)
  | put (f : φ)
  | take

def new : WorkQueue φ := ⟨[], [], []⟩

/-- Anyone may put; there must be something to take. -/
def steps : Machine (WorkQueue φ) (Action φ) where
  enabled q
    | .put _ => True
    | .take => q.queue ≠ []
  next q
    | .put f => { q with queue := q.queue ++ [f], put := q.put ++ [f] }
    | .take => { q with queue := q.queue.tail, taken := q.taken ++ q.queue.take 1 }

/-- **Everything put is either taken or still queued, in order.** -/
theorem conserved {q : WorkQueue φ} (h : steps.Reachable (· = new) q) :
    q.taken ++ q.queue = q.put := by
  refine h.invariant (I := fun q => q.taken ++ q.queue = q.put) ?_ ?_
  · rintro _ rfl
    rfl
  · rintro q (f | _) hq -
    · simp [steps, ← hq]
    · simp only [steps, ← hq, List.append_assoc, ← List.drop_one, List.take_append_drop]

end WorkQueue

namespace EventLoop

variable {τ φ : Type*} [DecidableEq τ] {threadId_ : τ} {s : EventLoop τ φ} {a : Action τ φ}

/-! ## The loop as a queue -/

/-- The batch is empty outside its run, and the flag says where the loop is. -/
structure BatchInv (s : EventLoop τ φ) : Prop where
  functors : (∀ b, s.pc ≠ .run b) → s.functors = []
  calling : s.callingPendingFunctors_ = s.pc.inDoPendingFunctors

omit [DecidableEq τ] in
theorem batchInv_new : (new : EventLoop τ φ).BatchInv := ⟨fun _ => rfl, rfl⟩

theorem BatchInv.next (h : s.BatchInv) (ha : (steps threadId_).enabled s a) :
    ((steps threadId_).next s a).BatchInv := by
  obtain ⟨hfunctors, hcalling⟩ := h
  cases a with
  | enter =>
    rw [ha.1] at hfunctors hcalling
    exact ⟨fun _ => hfunctors nofun, hcalling⟩
  | test =>
    rw [show s.pc = .test from ha] at hfunctors hcalling
    refine ⟨fun _ => hfunctors nofun, ?_⟩
    cases hq : s.quit_ <;> simp [steps, hq, hcalling, LoopPc.inDoPendingFunctors]
  | pollReturn wakeup =>
    rw [ha.1] at hfunctors hcalling
    exact ⟨fun _ => hfunctors nofun, hcalling⟩
  | handleRead =>
    rw [ha.1] at hfunctors hcalling
    exact ⟨fun _ => hfunctors nofun, hcalling⟩
  | doPendingFunctors => exact ⟨fun _ => rfl, rfl⟩
  | swap =>
    rw [show s.pc = .swap from ha] at hcalling
    exact ⟨fun hpc => absurd rfl (hpc false), hcalling⟩
  | beginFunctor =>
    rw [ha.1] at hcalling
    exact ⟨fun hpc => absurd rfl (hpc true), hcalling⟩
  | endFunctor =>
    rw [ha.1] at hcalling
    exact ⟨fun hpc => absurd rfl (hpc false), hcalling⟩
  | donePendingFunctors => exact ⟨fun _ => ha.2, rfl⟩
  | push t cb => exact ⟨hfunctors, hcalling⟩
  | store t => exact ⟨hfunctors, hcalling⟩
  | wakeup t =>
    refine ⟨fun hpc => ?_, ?_⟩
    · simp only [steps, finish_pc] at hpc
      simpa [steps] using hfunctors hpc
    · simpa [steps] using hcalling

/-- The queue a loop is. -/
def toWorkQueue (s : EventLoop τ φ) : WorkQueue φ :=
  ⟨s.functors ++ s.pendingFunctors_, s.pushed, s.executed⟩

/-- What a step does to it. -/
def label : Action τ φ → List (WorkQueue.Action φ)
  | .push _ cb => [.put cb]
  | .beginFunctor => [.take]
  | .enter | .test | .pollReturn _ | .handleRead | .doPendingFunctors | .swap | .endFunctor
  | .donePendingFunctors | .store _ | .wakeup _ => []

/-- Only a functor's start needs something to be queued, and there it is in the batch. -/
theorem label_allowed (ha : (steps threadId_).enabled s a) :
    WorkQueue.steps.Valid s.toWorkQueue (label a) := by
  cases a with
  | push t cb => exact ⟨trivial, trivial⟩
  | beginFunctor => exact ⟨fun hnil => ha.2 (List.append_eq_nil_iff.mp hnil).1, trivial⟩
  | _ => exact trivial

theorem label_square (h : s.BatchInv) (ha : (steps threadId_).enabled s a) :
    WorkQueue.steps.run s.toWorkQueue (label a) = ((steps threadId_).next s a).toWorkQueue := by
  cases a with
  | push t cb => simp [label, toWorkQueue, WorkQueue.steps, steps, push]
  | beginFunctor =>
    obtain ⟨f, fs, hbatch⟩ := List.exists_cons_of_ne_nil ha.2
    simp [label, toWorkQueue, WorkQueue.steps, steps, hbatch]
  | doPendingFunctors =>
    have hbatch : s.functors = [] := h.functors (by rw [ha.1]; exact nofun)
    simp [label, toWorkQueue, steps, hbatch]
  | swap =>
    have hbatch : s.functors = [] := h.functors (by rw [show s.pc = .swap from ha]; exact nofun)
    simp [label, toWorkQueue, steps, hbatch]
  | wakeup t => simp [label, toWorkQueue, steps]
  | _ => rfl

/-- **The loop simulates a FIFO queue.** -/
def simulation (threadId_ : τ) :
    Simulation (steps threadId_ : Machine (EventLoop τ φ) (Action τ φ))
      (WorkQueue.steps : Machine (WorkQueue φ) (WorkQueue.Action φ)) BatchInv where
  view := toWorkQueue
  label _ := label
  keeps _ _ h ha := h.next ha
  allowed _ _ _ ha := label_allowed ha
  square _ _ h ha := label_square h ha

/-- **No functor is lost, doubled or reordered.** -/
theorem executed_append (h : s.Reachable threadId_) :
    s.executed ++ s.functors ++ s.pendingFunctors_ = s.pushed := by
  have hview : WorkQueue.steps.Reachable (· = WorkQueue.new) s.toWorkQueue :=
    (simulation threadId_).view_reachable (by rintro _ rfl; exact ⟨batchInv_new, rfl⟩) h
  rw [List.append_assoc]
  exact WorkQueue.conserved hview

theorem batchInv_of_reachable (h : s.Reachable threadId_) : s.BatchInv :=
  h.invariant (by rintro _ rfl; exact batchInv_new) fun _ _ hs ha => hs.next ha

/-! ## One call of `doPendingFunctors`

The batch is fixed at the swap.  What is pushed afterwards, by a functor of the batch or by another
thread, goes to the other vector, so the number of functors still to run only falls. -/

/-- A step that starts a functor. -/
def Action.isBegin : Action τ φ → Bool
  | .beginFunctor => true
  | _ => false

/-- How far a call of `doPendingFunctors` is: `k` functors of the batch `P` are started, after the
ones in `E`. -/
structure InBatch (E P : List φ) (k : ℕ) (s : EventLoop τ φ) : Prop where
  pc : ∃ b, s.pc = .run b
  started : k ≤ P.length
  executed : s.executed = E ++ P.take k
  functors : s.functors = P.drop k

theorem InBatch.next {E P : List φ} {k : ℕ} (h : s.InBatch E P k)
    (ha : (steps threadId_).enabled s a) (hdone : a ≠ .donePendingFunctors) :
    ((steps threadId_).next s a).InBatch E P (k + if a.isBegin then 1 else 0) := by
  obtain ⟨⟨b, hpc⟩, hk, hexec, hfun⟩ := h
  cases a with
  | beginFunctor =>
    have hlt : k < P.length := by
      by_contra hge
      exact ha.2 (by rw [hfun, List.drop_eq_nil_of_le (Nat.not_lt.mp hge)])
    refine ⟨⟨true, rfl⟩, hlt, ?_, ?_⟩
    · simp only [steps, hexec, hfun, Action.isBegin, if_true, List.append_assoc,
        ← List.take_add]
    · simp only [steps, hfun, Action.isBegin, if_true, ← List.drop_one, List.drop_drop]
  | endFunctor => exact ⟨⟨false, rfl⟩, hk, hexec, hfun⟩
  | push t cb => exact ⟨⟨b, hpc⟩, hk, hexec, hfun⟩
  | store t => exact ⟨⟨b, hpc⟩, hk, hexec, hfun⟩
  | wakeup t =>
    exact ⟨⟨b, finish_pc.trans hpc⟩, hk, finish_executed.trans hexec, finish_functors.trans hfun⟩
  | donePendingFunctors => exact absurd rfl hdone
  | enter => simp [steps, hpc] at ha
  | test => simp [steps, hpc] at ha
  | pollReturn wakeup => simp [steps, hpc] at ha
  | handleRead => simp [steps, hpc] at ha
  | doPendingFunctors => simp [steps, hpc] at ha
  | swap => simp [steps, hpc] at ha

/-- **A call in progress**: after `as`, it has started one functor of its batch for every start in
`as`, and no other. -/
theorem InBatch.run {E P : List φ} {as : List (Action τ φ)} : ∀ {k : ℕ} {s : EventLoop τ φ},
    s.InBatch E P k → (steps threadId_).Valid s as → Action.donePendingFunctors ∉ as →
    ((steps threadId_).run s as).InBatch E P (k + as.countP Action.isBegin) := by
  induction as with
  | nil => exact fun h _ _ => h
  | cons a as ih =>
    intro k s h hvalid hdone
    obtain ⟨hne, hrest⟩ := not_or.mp (mt List.mem_cons.mpr hdone)
    have hnext := ih (h.next hvalid.1 (Ne.symm hne)) hvalid.2 hrest
    rw [List.countP_cons, Machine.run_cons, Nat.add_comm (as.countP _), ← Nat.add_assoc]
    exact hnext

/-- At the swap the batch becomes what `pendingFunctors_` held. -/
theorem inBatch_swap :
    ((steps threadId_).next s .swap).InBatch s.executed s.pendingFunctors_ 0 :=
  ⟨⟨false, rfl⟩, Nat.zero_le _, by simp [steps], by simp [steps]⟩

/-- **Pending functors run exactly once, in FIFO order.**  The executed functors, the rest of the
batch and the queue are the functors in the order of their pushes; the flag is set exactly during
`doPendingFunctors`; and a call of it, from its swap on, starts the functors it found and no other,
in order, whatever is pushed meanwhile: it goes on exactly while some are left, and can end exactly
when none is. -/
theorem functors_run_once (h : s.Reachable threadId_) :
    s.executed ++ s.functors ++ s.pendingFunctors_ = s.pushed ∧
    (s.callingPendingFunctors_ = true ↔ s.pc.inDoPendingFunctors = true) ∧
    ∀ as, (steps threadId_).Valid s (.swap :: as) → Action.donePendingFunctors ∉ as →
      let s' := (steps threadId_).run s (.swap :: as)
      let k := as.countP Action.isBegin
      k ≤ s.pendingFunctors_.length ∧
      s'.executed = s.executed ++ s.pendingFunctors_.take k ∧
      s'.functors = s.pendingFunctors_.drop k ∧
      ((steps threadId_).enabled s' .beginFunctor ↔
        s'.pc = .run false ∧ k < s.pendingFunctors_.length) ∧
      ((steps threadId_).enabled s' .donePendingFunctors ↔
        s'.pc = .run false ∧ k = s.pendingFunctors_.length) := by
  refine ⟨executed_append h, by rw [(batchInv_of_reachable h).calling], fun as hvalid hdone => ?_⟩
  have hrun := inBatch_swap.run hvalid.2 hdone
  rw [Nat.zero_add] at hrun
  have hend : ((steps threadId_).run s (.swap :: as)).functors = [] ↔
      s.pendingFunctors_.length ≤ as.countP Action.isBegin := by
    rw [Machine.run_cons, hrun.functors, List.drop_eq_nil_iff]
  refine ⟨hrun.started, hrun.executed, hrun.functors, and_congr_right fun _ => ?_,
    and_congr_right fun _ => ?_⟩
  · rw [Ne, hend, Nat.not_le]
  · rw [hend]
    exact ⟨fun hge => Nat.le_antisymm hrun.started hge, fun heq => heq ▸ Nat.le_refl _⟩

/-- A functor that queues itself again: the call in progress ends without it. -/
theorem functors_run_once_requeue :
    ((steps true).run (new : EventLoop Bool ℕ)
      [.enter, .test, .push false 0, .wakeup false, .pollReturn true, .handleRead,
        .doPendingFunctors, .swap, .beginFunctor, .push true 0, .wakeup true,
        .endFunctor]).executed = [0] := by
  have hreach : ((steps true).run (new : EventLoop Bool ℕ)
      [.enter, .test, .push false 0, .wakeup false, .pollReturn true, .handleRead,
        .doPendingFunctors]).Reachable true :=
    ⟨new, _, rfl, by decide, rfl⟩
  exact ((functors_run_once hreach).2.2 [.beginFunctor, .push true 0, .wakeup true, .endFunctor]
    (by decide) (by decide)).2.1

end EventLoop

end Mymuduo
