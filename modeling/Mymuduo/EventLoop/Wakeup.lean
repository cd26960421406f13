import Mymuduo.EventLoop.Model

/-!
# EventLoop/Wakeup — no wakeup is lost

The loop thread must not wait in `epoll_wait` for work it already has.  From the swap of one batch
to the return of the next `epoll_wait` nothing looks at `pendingFunctors_`, so in that window every
functor pushed has to be announced:

    stale < pendingFunctors_.length  →  0 < wakeupFd_, or a push has its wakeup still to come

`handleRead` resets the counter only after the window, and `callingPendingFunctors_` covers the part
of the window in which the loop's own thread pushes.
-/

namespace Mymuduo

open Machinery

/-- The window: the swap is done, and the next return of `epoll_wait` is still to come. -/
def LoopPc.awaitsWakeup : LoopPc → Bool
  | test | poll | run _ => true
  | outside | dispatch _ | swap => false

namespace EventLoop

variable {τ φ : Type*} [DecidableEq τ] {threadId_ : τ} {s : EventLoop τ φ} {t : τ}
  {a : Action τ φ}

/-! ## The rest of a call -/

/-- A counter that is positive stays so. -/
theorem finish_pos (h : 0 < s.wakeupFd_) : 0 < (s.finish threadId_ t).wakeupFd_ := by
  rw [finish_wakeupFd]
  split
  · exact eventfd_write_pos _
  · exact h

theorem finish_pos_of_wakes (h : s.wakes threadId_ t) : 0 < (s.finish threadId_ t).wakeupFd_ := by
  rw [finish_wakeupFd, if_pos h]
  exact eventfd_write_pos _

/-- **The handover**: work announced by the counter or by some unfinished call is still announced
when a call finishes, if that call wakes the loop wherever it is the one that announced it. -/
theorem finish_announces {pc : CallPc} (h : 0 < s.wakeupFd_ ∨ ∃ t', s.call t' = pc)
    (hwakes : s.call t = pc → s.wakes threadId_ t) :
    0 < (s.finish threadId_ t).wakeupFd_ ∨ ∃ t', (s.finish threadId_ t).call t' = pc := by
  obtain hpos | ⟨t', ht'⟩ := h
  · exact .inl (finish_pos hpos)
  by_cases htt : t' = t
  · exact .inl (finish_pos_of_wakes (hwakes (htt ▸ ht')))
  · exact .inr ⟨t', by rwa [finish_call, Function.update_of_ne htt]⟩

/-! ## The invariant -/

/-- **No wakeup is lost**: in the window every functor and every `quit` is announced. -/
structure Announced (threadId_ : τ) (s : EventLoop τ φ) : Prop where
  /-- the loop's own thread calls from user code only -/
  own : s.call threadId_ ≠ .idle → s.pc.userCode
  calling : s.callingPendingFunctors_ = s.pc.inDoPendingFunctors
  functors : s.pc.awaitsWakeup → s.stale < s.pendingFunctors_.length →
    0 < s.wakeupFd_ ∨ ∃ t, s.call t = .pushed
  quit : s.pc = .poll → s.quit_ → 0 < s.wakeupFd_ ∨ ∃ t, s.call t = .stored

omit [DecidableEq τ] in
theorem announced_new : (new : EventLoop τ φ).Announced threadId_ := by
  constructor <;> simp [new, LoopPc.inDoPendingFunctors, LoopPc.awaitsWakeup]

/-- The next call of another thread does not hide an unfinished one. -/
theorem exists_call_update {pc pc' : CallPc} (hpc : pc ≠ .idle) (ht : s.call t = .idle)
    (h : ∃ t', s.call t' = pc) : ∃ t', Function.update s.call t pc' t' = pc := by
  obtain ⟨t', ht'⟩ := h
  have hne : t' ≠ t := by
    rintro rfl
    exact hpc (ht'.symm.trans ht)
  exact ⟨t', by rwa [Function.update_of_ne hne]⟩

/-- The loop's own thread is in user code when it starts a call. -/
theorem Announced.own_update (h : s.Announced threadId_) (hown : t = threadId_ → s.pc.userCode)
    {pc' : CallPc} (hcall : Function.update s.call t pc' threadId_ ≠ .idle) : s.pc.userCode := by
  by_cases hself : t = threadId_
  · exact hown hself
  · exact h.own (by rwa [Function.update_of_ne (Ne.symm hself)] at hcall)

/-- A push announces itself. -/
theorem Announced.push (h : s.Announced threadId_) {cb : φ} (ht : s.call t = .idle)
    (hown : t = threadId_ → s.pc.userCode) : (s.push t cb).Announced threadId_ :=
  ⟨h.own_update hown, h.calling, fun _ _ => .inr ⟨t, Function.update_self ..⟩,
    fun hpc hq => (h.quit hpc hq).imp_right (exists_call_update (by decide) ht)⟩

/-- So does the store of `quit`. -/
theorem Announced.store (h : s.Announced threadId_) (ht : s.call t = .idle)
    (hown : t = threadId_ → s.pc.userCode) : (s.store t).Announced threadId_ :=
  ⟨h.own_update hown, h.calling,
    fun hpc hlt => (h.functors hpc hlt).imp_right (exists_call_update (by decide) ht),
    fun _ _ => .inr ⟨t, Function.update_self ..⟩⟩

/-- In the window the loop's own thread is inside a functor when it calls, so its pushes wake the
loop too. -/
theorem Announced.wakes_of_pushed (h : s.Announced threadId_) (hpc : s.pc.awaitsWakeup)
    (hcall : s.call t = .pushed) : s.wakes threadId_ t := by
  by_cases hself : t = threadId_
  · have huser := h.own (by rw [← hself, hcall]; decide)
    have hcalling : s.callingPendingFunctors_ = true := by
      rw [h.calling]
      cases hs : s.pc <;> simp_all [LoopPc.awaitsWakeup, LoopPc.userCode,
        LoopPc.inDoPendingFunctors]
    simp [wakes, hcall, hcalling]
  · simp [wakes, hcall, hself]

/-- In `epoll_wait` only another thread can be in `quit`, and it wakes the loop. -/
theorem Announced.wakes_of_stored (h : s.Announced threadId_) (hpc : s.pc = .poll)
    (hcall : s.call t = .stored) : s.wakes threadId_ t := by
  have hself : t ≠ threadId_ := by
    rintro rfl
    have huser := h.own (by rw [hcall]; decide)
    simp [hpc, LoopPc.userCode] at huser
  simp [wakes, hcall, hself]

/-- **A call that finishes hands its announcement over to the counter.** -/
theorem Announced.finish (h : s.Announced threadId_) (t : τ) :
    (s.finish threadId_ t).Announced threadId_ := by
  refine ⟨fun hcall => ?_, ?_, fun hpc hlt => ?_, fun hpc hq => ?_⟩
  · rw [finish_call] at hcall
    rw [finish_pc]
    by_cases hself : threadId_ = t
    · simp [hself] at hcall
    · exact h.own (by rwa [Function.update_of_ne hself] at hcall)
  · rw [finish_calling, finish_pc]
    exact h.calling
  · rw [finish_pc] at hpc
    rw [finish_stale, finish_pending] at hlt
    exact finish_announces (h.functors hpc hlt) (h.wakes_of_pushed hpc)
  · rw [finish_pc] at hpc
    rw [finish_quit] at hq
    exact finish_announces (h.quit hpc hq) (h.wakes_of_stored hpc)

omit [DecidableEq τ] in
/-- The loop's own steps: the flag follows the position, and what the window asks for is there. -/
theorem Announced.move (h : s.Announced threadId_) {s' : EventLoop τ φ} (hcall : s'.call = s.call)
    (hown : s'.pc.userCode = false → s.call threadId_ = .idle)
    (hcalling : s'.callingPendingFunctors_ = s'.pc.inDoPendingFunctors)
    (hfunctors : s'.pc.awaitsWakeup → s'.stale < s'.pendingFunctors_.length →
      s.pc.awaitsWakeup ∧ s.stale < s.pendingFunctors_.length ∧ s'.wakeupFd_ = s.wakeupFd_)
    (hquit : s'.pc = .poll → s'.quit_ = false) : s'.Announced threadId_ := by
  refine ⟨fun hbusy => ?_, hcalling, fun hpc hlt => ?_, fun hpc hq => ?_⟩
  · rw [hcall] at hbusy
    by_contra huser
    exact hbusy (hown (by simpa using huser))
  · obtain ⟨hpc₀, hlt₀, hfd⟩ := hfunctors hpc hlt
    rw [hfd, hcall]
    exact h.functors hpc₀ hlt₀
  · rw [hquit hpc] at hq
    cases hq

/-- **The step lemma**: one case for each action. -/
theorem Announced.next (h : s.Announced threadId_) (ha : (steps threadId_).enabled s a) :
    ((steps threadId_).next s a).Announced threadId_ := by
  -- the loop's own steps are taken while its thread makes no call
  have hidle : s.pc.userCode = false → s.call threadId_ = .idle := fun huser => by
    by_contra hcall
    rw [h.own hcall] at huser
    cases huser
  have hcalling := h.calling
  cases a with
  | enter =>
    obtain ⟨hpc, hcall⟩ := ha
    rw [hpc] at hcalling
    exact h.move rfl (fun _ => hcall) hcalling (fun _ hlt => absurd hlt (Nat.lt_irrefl _)) nofun
  | test =>
    have hpc : s.pc = .test := ha
    rw [hpc] at hcalling hidle
    refine h.move rfl (fun _ => hidle rfl) ?_ (fun _ hlt => ⟨by rw [hpc]; rfl, hlt, rfl⟩) ?_
    · cases hq : s.quit_ <;> simp [steps, hq, hcalling, LoopPc.inDoPendingFunctors]
    · cases hq : s.quit_ <;> simp [steps, hq]
  | pollReturn wakeup =>
    rw [show s.pc = .poll from ha.1] at hcalling
    exact h.move rfl nofun hcalling nofun nofun
  | handleRead =>
    rw [show s.pc = .dispatch true from ha.1] at hcalling
    exact h.move rfl nofun hcalling nofun nofun
  | doPendingFunctors => exact h.move rfl (fun _ => ha.2) rfl nofun nofun
  | swap =>
    have hpc : s.pc = .swap := ha
    rw [hpc] at hcalling hidle
    exact h.move rfl (fun _ => hidle rfl) hcalling nofun nofun
  | beginFunctor =>
    rw [show s.pc = .run false from ha.1] at hcalling
    exact h.move rfl nofun hcalling (fun _ hlt => ⟨by rw [ha.1]; rfl, hlt, rfl⟩) nofun
  | endFunctor =>
    rw [show s.pc = .run true from ha.1] at hcalling
    exact h.move rfl (fun _ => ha.2) hcalling (fun _ hlt => ⟨by rw [ha.1]; rfl, hlt, rfl⟩) nofun
  | donePendingFunctors =>
    rw [ha.1] at hidle
    exact h.move rfl (fun _ => hidle rfl) rfl (fun _ hlt => ⟨by rw [ha.1]; rfl, hlt, rfl⟩) nofun
  | push t cb => exact h.push ha.1 ha.2
  | store t => exact h.store ha.1 ha.2
  | wakeup t => exact h.finish t

/-- The invariant holds in every reachable state. -/
theorem announced_of_reachable (h : s.Reachable threadId_) : s.Announced threadId_ :=
  h.invariant (by rintro _ rfl; exact announced_new) fun _ _ hs ha => hs.next ha

/-- **No lost wakeup.**  While the loop waits on an eventfd that is not readable, a functor pushed
since `loop()` was entered belongs to a call that has still to wake the loop, and so does a `quit`;
the call is another thread's. -/
theorem no_lost_wakeup (h : s.Reachable threadId_) (hpoll : s.pc = .poll)
    (hzero : s.wakeupFd_ = 0) :
    (s.stale < s.pendingFunctors_.length → ∃ t, t ≠ threadId_ ∧ s.call t = .pushed) ∧
    (s.quit_ = true → ∃ t, t ≠ threadId_ ∧ s.call t = .stored) := by
  have hs := announced_of_reachable h
  have hother : ∀ t, s.call t ≠ .idle → t ≠ threadId_ := by
    rintro t hcall rfl
    have huser := hs.own hcall
    rw [hpoll] at huser
    cases huser
  refine ⟨fun hlt => ?_, fun hq => ?_⟩
  · obtain hpos | ⟨t, ht⟩ := hs.functors (by rw [hpoll]; rfl) hlt
    · exact absurd hzero (Nat.ne_of_gt hpos)
    · exact ⟨t, hother t (by rw [ht]; decide), ht⟩
  · obtain hpos | ⟨t, ht⟩ := hs.quit hpoll hq
    · exact absurd hzero (Nat.ne_of_gt hpos)
    · exact ⟨t, hother t (by rw [ht]; decide), ht⟩

/-- A push from another thread into a loop that waits: until its `wakeup()`, the counter is zero. -/
theorem no_lost_wakeup_push :
    ∃ t, t ≠ true ∧ ((steps true).run (new : EventLoop Bool ℕ)
      [.enter, .test, .push false 0]).call t = .pushed := by
  have hreach : ((steps true).run (new : EventLoop Bool ℕ)
      [.enter, .test, .push false 0]).Reachable true :=
    ⟨new, _, rfl, by decide, rfl⟩
  exact (no_lost_wakeup hreach (by decide) (by decide)).1 (by decide)

end EventLoop

end Mymuduo
