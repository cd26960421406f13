import Mymuduo.EventLoop.Fifo

/-!
# EventLoop/Response — what is queued is run, however much more is queued behind it

A functor waits for those in front of it, and for the round of `loop()` in which the batch it is in
is taken up:

    run ──▸ test ──▸ poll ──▸ dispatch ──▸ swap ──▸ run
     6       5        4        3, 2         1        0      steps to the batch

Nothing another thread does makes it wait longer.  Two steps for each functor that is not yet run,
and one round, are all the loop's thread needs (`executed_within`).
-/

namespace Mymuduo

open Machinery

/-- The steps of `loop()` until the next batch is taken up. -/
def LoopPc.toSwap : LoopPc → ℕ
  | outside => 0
  | run _ => 6
  | test => 5
  | poll => 4
  | dispatch true => 3
  | dispatch false => 2
  | swap => 1

namespace EventLoop

variable {τ φ : Type*} [DecidableEq τ] {threadId_ : τ} {s : EventLoop τ φ} {a : Action τ φ}

/-- The steps of the loop's thread in the library's code. -/
def Action.isLoop : Action τ φ → Bool
  | .test | .pollReturn _ | .handleRead | .doPendingFunctors | .swap | .beginFunctor | .endFunctor
  | .donePendingFunctors => true
  | .enter | .push _ _ | .store _ | .wakeup _ => false

/-- An action that leaves the thread in `loop()`. -/
def Loops (threadId_ : τ) (s : EventLoop τ φ) (a : Action τ φ) : Prop :=
  (steps threadId_).enabled s a ∧ ((steps threadId_).next s a).pc ≠ .outside

instance (s : EventLoop τ φ) (a : Action τ φ) : Decidable (s.Loops threadId_ a) :=
  inferInstanceAs (Decidable (_ ∧ _ ≠ _))

/-- How far the loop's thread is from having run the first `n` functors. -/
def distance (n : ℕ) (s : EventLoop τ φ) : ℕ :=
  2 * (n - s.executed.length) +
    (if n ≤ s.executed.length + s.functors.length then 0 else s.pc.toSwap) +
    if s.pc = .run true then 1 else 0

/-- What the distance rests on. -/
structure Running (threadId_ : τ) (n : ℕ) (s : EventLoop τ φ) : Prop where
  reachable : s.Reachable threadId_
  inside : s.pc ≠ .outside
  pushed : n ≤ s.pushed.length

theorem Running.next {n : ℕ} (h : s.Running threadId_ n) (ha : s.Loops threadId_ a) :
    ((steps threadId_).next s a).Running threadId_ n where
  reachable := h.reachable.next ha.1
  inside := ha.2
  pushed := by
    refine Nat.le_trans h.pushed ?_
    cases a with
    | push t cb => simp [steps, push]
    | wakeup t => exact Nat.le_of_eq (congrArg List.length finish_pushed).symm
    | _ => exact Nat.le_refl _

/-- **A step of the loop's thread brings it nearer**, and no other takes it further away. -/
theorem Running.distance_next {n : ℕ} (h : s.Running threadId_ n) (ha : s.Loops threadId_ a)
    (hleft : s.executed.length < n) :
    distance n ((steps threadId_).next s a) + (if a.isLoop then 1 else 0) ≤ distance n s := by
  have hbatch := batchInv_of_reachable h.reachable
  obtain ⟨henabled, hinside⟩ := ha
  -- outside a batch the first `n` are still to be taken up
  have hround : s.functors = [] → ¬ n ≤ s.executed.length + s.functors.length := by
    intro hnil
    rw [hnil, List.length_nil]
    omega
  cases a with
  | enter => exact absurd henabled.1 h.inside
  | test =>
    have hpc : s.pc = .test := henabled
    have hnil := hbatch.functors (by simp [hpc])
    cases hq : s.quit_ with
    | true => simp [steps, hq] at hinside
    | false => simp [distance, steps, hq, hpc, LoopPc.toSwap, hround hnil, Action.isLoop]
  | pollReturn wakeup =>
    have hnil := hbatch.functors (by simp [henabled.1])
    cases wakeup <;>
      simp [distance, steps, henabled.1, LoopPc.toSwap, hround hnil, Action.isLoop]
  | handleRead =>
    have hnil := hbatch.functors (by simp [henabled.1])
    simp [distance, steps, handleRead, henabled.1, LoopPc.toSwap, hround hnil, Action.isLoop]
  | doPendingFunctors =>
    have hnil := hbatch.functors (by simp [henabled.1])
    have hlate : ¬ n ≤ s.executed.length := by omega
    simp [distance, steps, henabled.1, hnil, LoopPc.toSwap, hlate, Action.isLoop]
  | swap =>
    have hpc : s.pc = .swap := henabled
    have hnil := hbatch.functors (by simp [hpc])
    have hall := congrArg List.length (executed_append h.reachable)
    have hpushed := h.pushed
    simp only [List.length_append, hnil, List.length_nil] at hall
    have htaken : n ≤ s.executed.length + s.pendingFunctors_.length := by omega
    simp [distance, steps, hpc, LoopPc.toSwap, htaken, hround hnil, Action.isLoop]
  | beginFunctor =>
    obtain ⟨f, fs, hcons⟩ := List.exists_cons_of_ne_nil henabled.2
    simp only [distance, steps, henabled.1, hcons, LoopPc.toSwap, Action.isLoop, List.tail_cons,
      List.take_succ_cons, List.take_zero, List.length_append, List.length_cons, List.length_nil]
    have hsame : n ≤ s.executed.length + (0 + 1) + fs.length ↔
        n ≤ s.executed.length + (fs.length + 1) := by omega
    simp only [hsame]
    split <;> simp <;> omega
  | endFunctor =>
    unfold distance
    rw [henabled.1]
    exact Nat.le_refl _
  | donePendingFunctors =>
    simp [distance, steps, henabled.1, LoopPc.toSwap, hround henabled.2, Action.isLoop]
  | push t cb => exact Nat.le_refl _
  | store t => exact Nat.le_refl _
  | wakeup t => simp [distance, steps, Action.isLoop]

omit [DecidableEq τ] in
/-- At no distance the first `n` are run. -/
theorem le_of_distance_eq_zero {n : ℕ} (hzero : distance n s = 0) : n ≤ s.executed.length := by
  unfold distance at hzero
  omega

/-- What is run stays run. -/
theorem executed_next : s.executed <+: ((steps threadId_).next s a).executed := by
  cases a with
  | beginFunctor => exact List.prefix_append _ _
  | wakeup t => exact ⟨[], (List.append_nil _).trans finish_executed.symm⟩
  | _ => exact List.prefix_rfl

/-- What is pushed stays pushed. -/
theorem pushed_next : s.pushed <+: ((steps threadId_).next s a).pushed := by
  cases a with
  | push t cb => exact List.prefix_append _ _
  | wakeup t => exact ⟨[], (List.append_nil _).trans finish_pushed.symm⟩
  | _ => exact List.prefix_rfl

/-- The distance is at most two steps for each functor that is waiting, and one round. -/
theorem distance_le (h : s.Reachable threadId_) :
    distance s.pushed.length s ≤ 2 * (s.functors.length + s.pendingFunctors_.length) + 7 := by
  have hall := congrArg List.length (executed_append h)
  simp only [List.length_append] at hall
  have hround : s.pc.toSwap ≤ 6 := by
    cases s.pc with
    | dispatch wakeup => cases wakeup <;> decide
    | _ => simp [LoopPc.toSwap]
  unfold distance
  split <;> split <;> omega

/-- **Bounded response.**  While `loop()` goes on, whatever is in the queue at some moment is run,
each functor once and in the order of the pushes, by the time the loop's thread has taken two steps
for each of those functors and one round: however many functors are pushed meanwhile by other
threads or by the functors themselves, none of them gets ahead. -/
theorem executed_within (h : s.Reachable threadId_) (hin : s.pc ≠ .outside)
    {as : List (Action τ φ)} (hrun : (steps threadId_).Along (Loops threadId_) s as)
    (henough : 2 * (s.functors.length + s.pendingFunctors_.length) + 7 ≤
      as.countP Action.isLoop) :
    s.pushed <+: ((steps threadId_).run s as).executed := by
  have hstart : s.Running threadId_ s.pushed.length := ⟨h, hin, Nat.le_refl _⟩
  have hdone : s.pushed.length ≤ ((steps threadId_).run s as).executed.length :=
    hrun.reach (I := Running threadId_ s.pushed.length)
      (G := fun t => s.pushed.length ≤ t.executed.length) (r := distance s.pushed.length)
      (c := Action.isLoop) (fun _ _ ht ha => ht.next ha)
      (fun _ _ _ _ hgoal => Nat.le_trans hgoal executed_next.length_le)
      (fun _ _ => le_of_distance_eq_zero)
      (fun _ _ ht ha hleft _ => ht.distance_next ha (Nat.not_le.mp hleft)) hstart
      (Nat.le_trans (distance_le h) henough)
  have hend : ((steps threadId_).run s as).Running threadId_ s.pushed.length :=
    hrun.invariant (fun _ _ ht ha => ht.next ha) hstart
  have hpushed : s.pushed <+: ((steps threadId_).run s as).pushed :=
    hrun.invariant (I := fun t => s.pushed <+: t.pushed) (fun _ _ ht _ => ht.trans pushed_next)
      List.prefix_rfl
  have hexecuted : ((steps threadId_).run s as).executed <+:
      ((steps threadId_).run s as).pushed := by
    rw [← executed_append hend.reachable, List.append_assoc]
    exact List.prefix_append _ _
  exact List.prefix_of_prefix_length_le hpushed hexecuted hdone

/-- One functor is queued while the loop waits, and queues itself again at every run: a second one,
pushed behind the first, is run in the next round. -/
theorem executed_within_requeue :
    [0, 1] <+: ((steps true).run (new : EventLoop Bool ℕ)
      [.enter, .test, .push false 0, .wakeup false, .push false 1, .wakeup false, .pollReturn true,
        .handleRead, .doPendingFunctors, .swap, .beginFunctor, .push true 0, .wakeup true,
        .endFunctor, .beginFunctor, .endFunctor, .donePendingFunctors, .test, .pollReturn true,
        .handleRead]).executed := by
  have hfacts : (steps true).Valid (new : EventLoop Bool ℕ)
        [.enter, .test, .push false 0, .wakeup false, .push false 1, .wakeup false] ∧
      (steps true).Along (Loops true) ((steps true).run (new : EventLoop Bool ℕ)
          [.enter, .test, .push false 0, .wakeup false, .push false 1, .wakeup false])
        [.pollReturn true, .handleRead, .doPendingFunctors, .swap, .beginFunctor, .push true 0,
          .wakeup true, .endFunctor, .beginFunctor, .endFunctor, .donePendingFunctors, .test,
          .pollReturn true, .handleRead] := by
    decide
  exact executed_within ⟨new, _, rfl, hfacts.1, rfl⟩ (by decide) hfacts.2 (by decide)

end EventLoop

end Mymuduo
