import Mymuduo.EventLoop.Fifo

/-!
# EventLoop/Quit — what `quit()` leaves undone

`quit()` stores a flag, and `loop()` looks at it after `doPendingFunctors`.  A functor is done with
when the batch it is in has run, so it depends on where the store falls:

    poll, dispatch, swap    the swap is still to come: everything pushed so far is run
    run, test               it is over: what is pushed but not in the batch stays in the queue

A thread that queues work and then calls `quit()` has therefore no promise that the work is done; it
has one exactly if the store does not fall between a swap and the test of `quit_` with functors left
outside the batch (`done_iff_in_time`).
-/

namespace Mymuduo

open Machinery

/-- The swap is behind and `quit_` is to be tested next. -/
def LoopPc.lastRound : LoopPc → Bool
  | test | run _ => true
  | outside | poll | dispatch _ | swap => false

theorem LoopPc.ne_outside_of_lastRound {pc : LoopPc} (h : pc.lastRound = true) : pc ≠ .outside := by
  rintro rfl
  cases h

/-- A loop with the record of its calls: the functor each thread has pushed last, those whose
`queueInLoop` has returned, and those whose had when `quit()` was called.  A functor is known by its
place among the pushed. -/
structure LoopRecord (τ φ : Type*) where
  loop : EventLoop τ φ
  mine : τ → ℕ
  returned : List ℕ
  due : List ℕ

namespace LoopRecord

open EventLoop

variable {τ φ : Type*} [DecidableEq τ] (threadId_ : τ)

def new : LoopRecord τ φ := ⟨.new, fun _ => 0, [], []⟩

/-- The loop, and what becomes of the record: a `quit()` while `loop()` runs makes the returned ones
due. -/
def steps : Machine (LoopRecord τ φ) (EventLoop.Action τ φ) where
  enabled s a := (EventLoop.steps threadId_).enabled s.loop a
  next s a :=
    { loop := (EventLoop.steps threadId_).next s.loop a
      mine := match a with
        | .push t _ => Function.update s.mine t s.loop.pushed.length
        | _ => s.mine
      returned := match a with
        | .wakeup t => if s.loop.call t = .pushed then s.returned ++ [s.mine t] else s.returned
        | _ => s.returned
      due := match a with
        | .enter => []
        | .store _ => if s.loop.pc = .outside then s.due else s.returned
        | _ => s.due }

instance (s : LoopRecord τ φ) (a : EventLoop.Action τ φ) :
    Decidable ((steps threadId_).enabled s a) :=
  inferInstanceAs (Decidable ((EventLoop.steps threadId_).enabled s.loop a))

/-- **The law**: where `loop()` finds `quit_` set and returns, every functor that is due has been
run. -/
def Done (s : LoopRecord τ φ) (a : EventLoop.Action τ φ) : Prop :=
  a = .test → s.loop.quit_ = true → ∀ i ∈ s.due, i < s.loop.executed.length

/-- `quit()` is called in time: `loop()` has a swap still to come, or the functors whose
`queueInLoop` has returned are run or in the batch. -/
def InTime (s : LoopRecord τ φ) : EventLoop.Action τ φ → Prop
  | .store _ => s.loop.pc.lastRound = true →
      ∀ i ∈ s.returned, i < s.loop.executed.length + s.loop.functors.length
  | _ => True

instance (s : LoopRecord τ φ) : ∀ a, Decidable (s.InTime a)
  | .store _ => inferInstanceAs (Decidable (_ → _))
  | .enter | .test | .pollReturn _ | .handleRead | .doPendingFunctors | .swap | .beginFunctor
  | .endFunctor | .donePendingFunctors | .push _ _ | .wakeup _ => isTrue trivial

variable {threadId_} {s : LoopRecord τ φ} {a : EventLoop.Action τ φ}
  {as : List (EventLoop.Action τ φ)}

/-! ## The record -/

/-- What the loop will have run when it next tests `quit_`. -/
def reach (s : LoopRecord τ φ) : ℕ :=
  if s.loop.pc.lastRound then s.loop.executed.length + s.loop.functors.length
  else s.loop.pushed.length

/-- The record is about functors that were pushed. -/
structure Recorded (threadId_ : τ) (s : LoopRecord τ φ) : Prop where
  reachable : s.loop.Reachable threadId_
  mine : ∀ t, s.loop.call t = .pushed → s.mine t < s.loop.pushed.length
  returned : ∀ i ∈ s.returned, i < s.loop.pushed.length
  due : ∀ i ∈ s.due, i ∈ s.returned

theorem recorded_new : (new : LoopRecord τ φ).Recorded threadId_ :=
  ⟨⟨_, [], rfl, trivial, rfl⟩, nofun, nofun, nofun⟩

variable (threadId_) in
/-- Functors are only ever added to the pushed ones. -/
theorem pushed_le (s : EventLoop τ φ) (a : EventLoop.Action τ φ) :
    s.pushed.length ≤ ((EventLoop.steps threadId_).next s a).pushed.length := by
  cases a with
  | push t cb => simp [EventLoop.steps, push]
  | wakeup t => exact Nat.le_of_eq (congrArg List.length finish_pushed).symm
  | _ => exact Nat.le_refl _

/-- What a thread has pushed last, it or another has pushed. -/
theorem Recorded.mine_next (h : s.Recorded threadId_) {t : τ}
    (ht : ((steps threadId_).next s a).loop.call t = .pushed) :
    ((steps threadId_).next s a).mine t < ((steps threadId_).next s a).loop.pushed.length := by
  have hle := pushed_le threadId_ s.loop a
  cases a with
  | push u cb =>
    by_cases htu : t = u
    · subst htu
      simp [steps, EventLoop.steps, push]
    · have hcall : s.loop.call t = .pushed := by
        simpa [steps, EventLoop.steps, push, Function.update_of_ne htu] using ht
      simpa [steps, Function.update_of_ne htu] using Nat.lt_of_lt_of_le (h.mine t hcall) hle
  | store u =>
    by_cases htu : t = u
    · subst htu
      simp [steps, EventLoop.steps, store] at ht
    · exact h.mine t (by simpa [steps, EventLoop.steps, store, Function.update_of_ne htu] using ht)
  | wakeup u =>
    by_cases htu : t = u
    · subst htu
      simp [steps, EventLoop.steps] at ht
    · have hcall : s.loop.call t = .pushed := by
        simpa [steps, EventLoop.steps, Function.update_of_ne htu] using ht
      exact Nat.lt_of_lt_of_le (h.mine t hcall) hle
  | _ => exact Nat.lt_of_lt_of_le (h.mine t ht) hle

/-- What a call has returned from was its thread's last. -/
theorem Recorded.returned_next (h : s.Recorded threadId_) {i : ℕ}
    (hi : i ∈ ((steps threadId_).next s a).returned) : i < s.loop.pushed.length := by
  cases a with
  | wakeup u =>
    by_cases hcall : s.loop.call u = .pushed
    · simp only [steps, hcall, if_true, List.mem_append, List.mem_singleton] at hi
      obtain hi | rfl := hi
      · exact h.returned i hi
      · exact h.mine u hcall
    · exact h.returned i (by simpa [steps, hcall] using hi)
  | _ => exact h.returned i hi

/-- What is due has returned. -/
theorem Recorded.due_next (h : s.Recorded threadId_) {i : ℕ}
    (hi : i ∈ ((steps threadId_).next s a).due) : i ∈ ((steps threadId_).next s a).returned := by
  cases a with
  | enter => cases hi
  | store u =>
    by_cases hpc : s.loop.pc = .outside
    · exact h.due i (by simpa [steps, hpc] using hi)
    · simpa [steps, hpc] using hi
  | wakeup u =>
    by_cases hcall : s.loop.call u = .pushed
    · simp only [steps, hcall, if_true]
      exact List.mem_append_left _ (h.due i hi)
    · simpa [steps, hcall] using h.due i hi
  | _ => exact h.due i hi

theorem Recorded.next (h : s.Recorded threadId_) (ha : (steps threadId_).enabled s a) :
    ((steps threadId_).next s a).Recorded threadId_ where
  reachable := h.reachable.next ha
  mine _ ht := h.mine_next ht
  returned _ hi := Nat.lt_of_lt_of_le (h.returned_next hi) (pushed_le threadId_ s.loop a)
  due _ hi := h.due_next hi

/-! ## In time -/

omit [DecidableEq τ] in
theorem reach_last (h : s.loop.pc.lastRound = true) :
    s.reach = s.loop.executed.length + s.loop.functors.length := if_pos h

omit [DecidableEq τ] in
theorem reach_pushed (h : s.loop.pc.lastRound = false) : s.reach = s.loop.pushed.length :=
  if_neg (by rw [h]; nofun)

/-- Reach is lost only where `loop()` is entered. -/
theorem Recorded.reach_le (h : s.Recorded threadId_) (ha : (steps threadId_).enabled s a)
    (hne : a ≠ .enter) : s.reach ≤ ((steps threadId_).next s a).reach := by
  have hall := congrArg List.length (executed_append h.reachable)
  rw [List.length_append, List.length_append] at hall
  have hbatch := (batchInv_of_reachable h.reachable).functors
  cases a with
  | enter => exact absurd rfl hne
  | test =>
    have hpc : s.loop.pc = .test := ha
    have hto : (if s.loop.quit_ = true then LoopPc.outside else .poll).lastRound = false := by
      split <;> rfl
    rw [reach_last (by rw [hpc]; rfl), reach_pushed (s := (steps threadId_).next s .test) hto]
    change _ ≤ s.loop.pushed.length
    omega
  | pollReturn wakeup => simp [reach, steps, EventLoop.steps, ha.1, LoopPc.lastRound]
  | handleRead =>
    simp [reach, steps, EventLoop.steps, EventLoop.handleRead, ha.1, LoopPc.lastRound]
  | doPendingFunctors => simp [reach, steps, EventLoop.steps, ha.1, LoopPc.lastRound]
  | swap =>
    have hpc : s.loop.pc = .swap := ha
    rw [hbatch (by rw [hpc]; rintro _ ⟨⟩), List.length_nil] at hall
    rw [reach_pushed (by rw [hpc]; rfl), reach_last (s := (steps threadId_).next s .swap) rfl]
    change _ ≤ s.loop.executed.length + s.loop.pendingFunctors_.length
    omega
  | beginFunctor =>
    obtain ⟨f, fs, hfunctors⟩ := List.exists_cons_of_ne_nil ha.2
    simp [reach, steps, EventLoop.steps, ha.1, LoopPc.lastRound, hfunctors, Nat.add_assoc,
      Nat.add_comm 1]
  | endFunctor => simp [reach, steps, EventLoop.steps, ha.1, LoopPc.lastRound]
  | donePendingFunctors => simp [reach, steps, EventLoop.steps, ha.1, LoopPc.lastRound]
  | push t cb =>
    simp only [reach, steps, EventLoop.steps, push, List.length_append, List.length_singleton]
    split <;> omega
  | store t => exact Nat.le_refl _
  | wakeup t => simp [reach, steps, EventLoop.steps]

/-- What is due is within reach. -/
def WithinReach (s : LoopRecord τ φ) : Prop := s.loop.quit_ = true → ∀ i ∈ s.due, i < s.reach

theorem WithinReach.next (h : s.WithinReach) (hrec : s.Recorded threadId_)
    (ha : (steps threadId_).enabled s a) (htime : s.InTime a) :
    ((steps threadId_).next s a).WithinReach := by
  by_cases hstore : ∃ t, a = .store t
  · obtain ⟨t, rfl⟩ := hstore
    intro _ i hi
    have hreturned := ((hrec.next ha).due i hi : i ∈ s.returned)
    change i < s.reach
    unfold reach
    split
    · next hlast => exact htime hlast i hreturned
    · exact hrec.returned i hreturned
  by_cases hne : a = .enter
  · subst hne
    nofun
  intro hquit i hi
  have hkept : s.loop.quit_ = true ∧ i ∈ s.due := by
    cases a with
    | enter => exact absurd rfl hne
    | store t => exact absurd ⟨t, rfl⟩ hstore
    | wakeup t => exact ⟨by simpa [steps, EventLoop.steps] using hquit, hi⟩
    | _ => exact ⟨hquit, hi⟩
  exact Nat.lt_of_lt_of_le (h hkept.1 i hkept.2) (hrec.reach_le ha hne)

/-- At the test of `quit_` the batch has run, and reach is what is executed. -/
theorem Recorded.reach_test (h : s.Recorded threadId_) (hpc : s.loop.pc = .test) :
    s.reach = s.loop.executed.length := by
  have hbatch := (batchInv_of_reachable h.reachable).functors (by rw [hpc]; exact nofun)
  simp [reach, hpc, LoopPc.lastRound, hbatch]

theorem WithinReach.done (h : s.WithinReach) (hrec : s.Recorded threadId_)
    (ha : (steps threadId_).enabled s a) : s.Done a := by
  rintro rfl hquit i hi
  rw [← hrec.reach_test ha]
  exact h hquit i hi

/-! ## Too late -/

/-- `loop()` is about to return, and leaves something undone that is due. -/
structure Late (s : LoopRecord τ φ) : Prop where
  quit : s.loop.quit_ = true
  pc : s.loop.pc.lastRound = true
  undone : ∃ i ∈ s.due, i ∈ s.returned ∧ s.loop.executed.length + s.loop.functors.length ≤ i

theorem Late.next (h : s.Late) (ha : (steps threadId_).enabled s a)
    (htest : a ≠ .test) : ((steps threadId_).next s a).Late := by
  obtain ⟨hquit, hpc, i, hdue, hreturned, hundone⟩ := h
  cases a with
  | enter => rw [ha.1] at hpc; cases hpc
  | test => exact absurd rfl htest
  | pollReturn wakeup => rw [ha.1] at hpc; cases hpc
  | handleRead => rw [ha.1] at hpc; cases hpc
  | doPendingFunctors => rw [ha.1] at hpc; cases hpc
  | swap => rw [show s.loop.pc = .swap from ha] at hpc; cases hpc
  | beginFunctor =>
    obtain ⟨f, fs, hfunctors⟩ := List.exists_cons_of_ne_nil ha.2
    refine ⟨hquit, rfl, i, hdue, hreturned, ?_⟩
    simpa [steps, EventLoop.steps, hfunctors, Nat.add_assoc, Nat.add_comm 1] using hundone
  | endFunctor => exact ⟨hquit, rfl, i, hdue, hreturned, hundone⟩
  | donePendingFunctors => exact ⟨hquit, rfl, i, hdue, hreturned, hundone⟩
  | push t cb => exact ⟨hquit, hpc, i, hdue, hreturned, hundone⟩
  | store t =>
    refine ⟨rfl, hpc, i, ?_, hreturned, hundone⟩
    simpa [steps, LoopPc.ne_outside_of_lastRound hpc] using hreturned
  | wakeup t =>
    refine ⟨?_, ?_, i, hdue, ?_, ?_⟩
    · simpa [steps, EventLoop.steps] using hquit
    · simpa [steps, EventLoop.steps] using hpc
    · simp only [steps]
      split
      · exact List.mem_append_left _ hreturned
      · exact hreturned
    · simpa [steps, EventLoop.steps] using hundone

/-- It cannot return without breaking the law. -/
theorem Late.next_of_done (h : s.Late) (ha : (steps threadId_).enabled s a) (hdone : s.Done a) :
    ((steps threadId_).next s a).Late := by
  refine h.next ha ?_
  rintro rfl
  obtain ⟨i, hdue, -, hundone⟩ := h.undone
  have hrun := hdone rfl h.quit i hdue
  omega

/-- A store that is not in time makes it late. -/
theorem late_of_not_inTime (h : ¬ s.InTime a) : ((steps threadId_).next s a).Late := by
  cases a with
  | store t =>
    simp only [InTime, not_forall, Nat.not_lt] at h
    obtain ⟨hpc, i, hreturned, hundone⟩ := h
    refine ⟨rfl, hpc, i, ?_, hreturned, hundone⟩
    simpa [steps, LoopPc.ne_outside_of_lastRound hpc] using hreturned
  | _ => exact absurd trivial h

/-! ## Runs -/

/-- **What is queued before `quit()` is done, exactly.**  In every run from construction in which
each `quit()` is called in time, whatever is due has been run whenever `loop()` returns; and a run
at whose end `loop()` has returned does so only if each was. -/
theorem done_iff_in_time (hvalid : (steps threadId_).Valid (new : LoopRecord τ φ) as) :
    ((steps threadId_).Along InTime new as → (steps threadId_).Along Done new as) ∧
      (((steps threadId_).run (new : LoopRecord τ φ) as).loop.pc = .outside →
        (steps threadId_).Along Done new as → (steps threadId_).Along InTime new as) := by
  constructor
  · intro htime
    have hrun := Machine.along_and.mpr ⟨hvalid, htime⟩
    refine hrun.imp_of_invariant (I := fun s => s.Recorded threadId_ ∧ s.WithinReach)
      (fun s a hs ha => ⟨hs.1.next ha.1, hs.2.next hs.1 ha.1 ha.2⟩)
      (fun s a hs ha => hs.2.done hs.1 ha.1) ⟨recorded_new, nofun⟩
  · intro hout hdone
    refine (Machine.along_and.mpr ⟨hvalid, hdone⟩).of_not_run (B := Late)
      (fun _ _ _ htime => late_of_not_inTime htime)
      (fun _ _ hs ha => hs.next_of_done ha.1 ha.2) fun hend => ?_
    exact LoopPc.ne_outside_of_lastRound hend.pc hout

/-- Work queued and `quit()` called while the loop waits: it is run first. -/
theorem done_iff_in_time_waiting :
    (steps true).Along Done (new : LoopRecord Bool ℕ)
      [.enter, .test, .push false 0, .wakeup false, .store false, .wakeup false, .pollReturn true,
        .handleRead, .doPendingFunctors, .swap, .beginFunctor, .endFunctor, .donePendingFunctors,
        .test] :=
  (done_iff_in_time (by decide)).1 (by decide)

/-- **While the loop is inside a functor**, another thread queues its work and calls `quit()`:
`loop()` returns without it. -/
theorem not_done_inside_functor :
    (steps true).Valid (new : LoopRecord Bool ℕ)
      [.enter, .test, .push false 0, .wakeup false, .pollReturn true, .handleRead,
        .doPendingFunctors, .swap, .beginFunctor, .push false 1, .wakeup false, .store false,
        .wakeup false, .endFunctor, .donePendingFunctors, .test] ∧
    ¬ (steps true).Along Done (new : LoopRecord Bool ℕ)
      [.enter, .test, .push false 0, .wakeup false, .pollReturn true, .handleRead,
        .doPendingFunctors, .swap, .beginFunctor, .push false 1, .wakeup false, .store false,
        .wakeup false, .endFunctor, .donePendingFunctors, .test] := by
  refine ⟨by decide, ?_⟩
  rintro ⟨-, -, -, -, -, -, -, -, -, -, -, -, -, -, -, hlast, -⟩
  exact absurd (hlast rfl (by decide) 1 (by decide)) (by decide)

end LoopRecord

end Mymuduo
