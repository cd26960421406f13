import Mymuduo.EventLoop.Wakeup

/-!
# EventLoop/BeforeLoop — what is queued before `loop()`

`queueInLoop` spares the loop's own thread the wakeup unless a batch is being run: elsewhere in
`loop()` a handler is, and `doPendingFunctors` comes before the next poll.  Outside `loop()` it does
not,

    queueInLoop ── no wakeup() ──▸ enter ──▸ test ──▸ epoll_wait with pendingFunctors_ ≠ []

so a functor queued there by the loop's own thread waits for the first poll to return on its own.
-/

namespace Mymuduo

open Machinery

namespace EventLoop

variable {τ φ : Type*} [DecidableEq τ] {threadId_ : τ} {s : EventLoop τ φ} {a : Action τ φ}
  {as before after : List (Action τ φ)}

/-- The thread that takes a step. -/
def Action.thread (threadId_ : τ) : Action τ φ → τ
  | push t _ | store t | wakeup t => t
  | enter | test | pollReturn _ | handleRead | doPendingFunctors | swap | beginFunctor | endFunctor
  | donePendingFunctors => threadId_

/-- A step of `queueInLoop` or `quit`. -/
def Action.isCall : Action τ φ → Bool
  | push _ _ | store _ | wakeup _ => true
  | enter | test | pollReturn _ | handleRead | doPendingFunctors | swap | beginFunctor | endFunctor
  | donePendingFunctors => false

/-- The functor a step queues. -/
def Action.queues : Action τ φ → List φ
  | push _ cb => [cb]
  | store _ | wakeup _ | enter | test | pollReturn _ | handleRead | doPendingFunctors | swap
  | beginFunctor | endFunctor | donePendingFunctors => []

/-- **The law**: the loop waits for nothing that it has already. -/
def Unblocked (s : EventLoop τ φ) : Prop :=
  s.pc = .poll → s.pendingFunctors_ ≠ [] → 0 < s.wakeupFd_

/-! ## Before `loop()` -/

/-- No batch is being run, so the calls of the loop's own thread do not wake it. -/
theorem own_call (hcalling : s.callingPendingFunctors_ = false) (hcall : a.isCall = true)
    (hown : a.thread threadId_ = threadId_) :
    ((steps threadId_).next s a).callingPendingFunctors_ = false ∧
    ((steps threadId_).next s a).pc = s.pc ∧
    ((steps threadId_).next s a).wakeupFd_ = s.wakeupFd_ ∧
    ((steps threadId_).next s a).pendingFunctors_ = s.pendingFunctors_ ++ a.queues := by
  cases a with
  | push t cb => exact ⟨hcalling, rfl, rfl, rfl⟩
  | store t => exact ⟨hcalling, rfl, rfl, (List.append_nil _).symm⟩
  | wakeup t =>
    obtain rfl : t = threadId_ := hown
    have hsilent : ¬ s.wakes t t = true := by
      unfold wakes
      cases s.call t <;> simp [hcalling]
    refine ⟨finish_calling.trans hcalling, finish_pc, ?_, ?_⟩
    · exact finish_wakeupFd.trans (if_neg hsilent)
    · exact finish_pending.trans (List.append_nil _).symm
  | _ => cases hcall

/-- **Its calls queue, and do nothing else.** -/
theorem own_calls (hcalling : s.callingPendingFunctors_ = false)
    (hcalls : ∀ a ∈ as, a.isCall = true ∧ a.thread threadId_ = threadId_) :
    ((steps threadId_).run s as).callingPendingFunctors_ = false ∧
    ((steps threadId_).run s as).pc = s.pc ∧
    ((steps threadId_).run s as).wakeupFd_ = s.wakeupFd_ ∧
    ((steps threadId_).run s as).pendingFunctors_ =
      s.pendingFunctors_ ++ as.flatMap Action.queues := by
  induction as generalizing s with
  | nil => exact ⟨hcalling, rfl, rfl, (List.append_nil _).symm⟩
  | cons a as ih =>
    obtain ⟨hcall, hown⟩ := hcalls a List.mem_cons_self
    obtain ⟨hcalling', hpc, hfd, hpending⟩ := own_call hcalling hcall hown
    obtain ⟨hrest, hpc', hfd', hpending'⟩ :=
      ih hcalling' fun b hb => hcalls b (List.mem_cons_of_mem a hb)
    refine ⟨hrest, hpc'.trans hpc, hfd'.trans hfd, ?_⟩
    rw [Machine.run_cons, hpending', hpending, List.flatMap_cons, List.append_assoc]

/-! ## In `loop()` -/

/-- Nothing is left of what was queued before `loop()`, or the eventfd is readable; and no other
thread is calling. -/
structure Roused (threadId_ : τ) (s : EventLoop τ φ) : Prop where
  announced : s.Announced threadId_
  quiet : ∀ t, t ≠ threadId_ → s.call t = .idle
  stale : s.pc.awaitsWakeup → s.stale = 0 ∨ 0 < s.wakeupFd_

/-- So the loop does not wait in vain. -/
theorem Roused.unblocked (h : s.Roused threadId_) : s.Unblocked := by
  intro hpoll hpending
  obtain hzero | hpos := h.stale (by rw [hpoll]; rfl)
  case inr => exact hpos
  have hlt : s.stale < s.pendingFunctors_.length := by
    rw [hzero]
    exact List.length_pos_iff.mpr hpending
  obtain hpos | ⟨t, ht⟩ := h.announced.functors (by rw [hpoll]; rfl) hlt
  · exact hpos
  · have hown : t = threadId_ := by
      by_contra hne
      rw [h.quiet t hne] at ht
      cases ht
    have huser := h.announced.own (by rw [← hown, ht]; decide)
    rw [hpoll] at huser
    cases huser

/-- **The step lemma**: what the loop's own thread does keeps it so. -/
theorem Roused.next (h : s.Roused threadId_) (ha : (steps threadId_).enabled s a)
    (hown : a.thread threadId_ = threadId_) (hne : a ≠ .enter) :
    ((steps threadId_).next s a).Roused threadId_ := by
  have hquiet : ∀ pc t, t ≠ threadId_ → Function.update s.call threadId_ pc t = .idle := by
    intro pc t ht
    rw [Function.update_of_ne ht]
    exact h.quiet t ht
  have hannounced := h.announced.next ha
  cases a with
  | enter => exact absurd rfl hne
  | test => exact ⟨hannounced, h.quiet, fun _ => h.stale (by rw [show s.pc = .test from ha]; rfl)⟩
  | pollReturn wakeup => exact ⟨hannounced, h.quiet, nofun⟩
  | handleRead => exact ⟨hannounced, h.quiet, nofun⟩
  | doPendingFunctors => exact ⟨hannounced, h.quiet, nofun⟩
  | swap => exact ⟨hannounced, h.quiet, fun _ => .inl rfl⟩
  | beginFunctor => exact ⟨hannounced, h.quiet, fun _ => h.stale (by rw [ha.1]; rfl)⟩
  | endFunctor => exact ⟨hannounced, h.quiet, fun _ => h.stale (by rw [ha.1]; rfl)⟩
  | donePendingFunctors => exact ⟨hannounced, h.quiet, fun _ => h.stale (by rw [ha.1]; rfl)⟩
  | push t cb =>
    obtain rfl : t = threadId_ := hown
    exact ⟨hannounced, hquiet _, h.stale⟩
  | store t =>
    obtain rfl : t = threadId_ := hown
    exact ⟨hannounced, hquiet _, h.stale⟩
  | wakeup t =>
    obtain rfl : t = threadId_ := hown
    refine ⟨hannounced, ?_, fun hpc => ?_⟩
    · change ∀ t', t' ≠ t → (s.finish t t).call t' = .idle
      rw [finish_call]
      exact hquiet _
    · change (s.finish t t).stale = 0 ∨ 0 < (s.finish t t).wakeupFd_
      rw [finish_stale]
      have hsame : (s.finish t t).pc = s.pc := finish_pc
      exact (h.stale (hsame ▸ hpc)).imp_right finish_pos

/-- **The run lemma.** -/
theorem Roused.run (h : s.Roused threadId_) (hvalid : (steps threadId_).Valid s as)
    (hown : ∀ a ∈ as, a.thread threadId_ = threadId_ ∧ a ≠ .enter) :
    (steps threadId_).Always Unblocked s as ∧ ((steps threadId_).run s as).Roused threadId_ := by
  have hrun := Machine.along_and.mpr ⟨hvalid, Machine.along_of_forall_mem hown⟩
  have hstep : ∀ (s : EventLoop τ φ) (a : Action τ φ), s.Roused threadId_ →
      (steps threadId_).enabled s a ∧ a.thread threadId_ = threadId_ ∧ a ≠ .enter →
      ((steps threadId_).next s a).Roused threadId_ :=
    fun _ _ hs ha => hs.next ha.1 ha.2.1 ha.2.2
  exact ⟨hrun.always hstep (fun _ hs => hs.unblocked) h, hrun.invariant hstep h⟩

/-- `loop()` is entered with nothing queued, or a wakeup to come. -/
theorem Roused.enter (h : s.Roused threadId_) (ha : (steps threadId_).enabled s .enter)
    (hready : s.pendingFunctors_ = [] ∨ 0 < s.wakeupFd_) :
    ((steps threadId_).next s .enter).Roused threadId_ :=
  ⟨h.announced.next ha, h.quiet, fun _ => hready.imp_left List.length_eq_zero_iff.mpr⟩

/-- **Functors queued before `loop()`.**  Let the loop's own thread alone act on a loop that is not
running: it queues and quits as it likes, calls `loop()` and stays in it.  The loop never waits in
`epoll_wait` with a functor queued and the eventfd not readable exactly if nothing is queued when
`loop()` is entered, or the eventfd was readable before. -/
theorem unblocked_iff_none_queued (hs : s.Reachable threadId_) (hout : s.pc = .outside)
    (hquiet : ∀ t, t ≠ threadId_ → s.call t = .idle)
    (hbefore : ∀ a ∈ before, a.isCall = true ∧ a.thread threadId_ = threadId_)
    (hafter : ∀ a ∈ after, a.thread threadId_ = threadId_ ∧ a ≠ .enter)
    (hvalid : (steps threadId_).Valid s (before ++ .enter :: .test :: after)) :
    (steps threadId_).Always Unblocked s (before ++ .enter :: .test :: after) ↔
      s.pendingFunctors_ ++ before.flatMap Action.queues = [] ∨ 0 < s.wakeupFd_ := by
  have hcalling : s.callingPendingFunctors_ = false := by
    rw [(announced_of_reachable hs).calling, hout]
    rfl
  obtain ⟨-, hpc, hfd, hpending⟩ := own_calls hcalling hbefore
  constructor
  · intro hlaw
    by_cases hnone : s.pendingFunctors_ ++ before.flatMap Action.queues = []
    · exact .inl hnone
    · have hpoll := hlaw (before ++ [.enter, .test]) ⟨after, by simp⟩
      rw [Machine.run_append] at hpoll
      refine .inr (hfd ▸ hpoll rfl ?_)
      change ((steps threadId_).run s before).pendingFunctors_ ≠ []
      rwa [hpending]
  · intro hready
    have hroused : s.Roused threadId_ :=
      ⟨announced_of_reachable hs, hquiet, by rw [hout]; exact nofun⟩
    have hcalls : ∀ a ∈ before, a.thread threadId_ = threadId_ ∧ a ≠ .enter := by
      intro a ha
      refine ⟨(hbefore a ha).2, ?_⟩
      rintro rfl
      exact absurd (hbefore _ ha).1 nofun
    obtain ⟨hvalid₁, henter, hvalid₂⟩ := Machine.along_append.mp hvalid
    obtain ⟨hlaw, hroused₁⟩ := hroused.run hvalid₁ hcalls
    have hroused₂ := hroused₁.enter henter (by rwa [hpending, hfd])
    have hloop : ∀ a ∈ .test :: after, a.thread threadId_ = threadId_ ∧ a ≠ .enter := by
      rintro a (_ | ⟨_, ha⟩)
      · exact ⟨rfl, nofun⟩
      · exact hafter a ha
    have hentered : (steps threadId_).Always Unblocked ((steps threadId_).run s before) [.enter] :=
      ((steps threadId_).always_iff).mpr ⟨hroused₁.unblocked, hroused₂.unblocked, trivial⟩
    exact (steps threadId_).always_append.mpr
      ⟨hlaw, (steps threadId_).always_append.mpr ⟨hentered, (hroused₂.run hvalid₂ hloop).1⟩⟩

/-- On a fresh loop with nothing queued. -/
theorem unblocked_iff_none_queued_fresh :
    (steps true).Always Unblocked (new : EventLoop Bool ℕ)
      [.store true, .wakeup true, .enter, .test, .pollReturn false, .doPendingFunctors, .swap,
        .donePendingFunctors, .test] :=
  have hfresh : (new : EventLoop Bool ℕ).Reachable true := ⟨new, [], rfl, trivial, rfl⟩
  have hcalls : ∀ a ∈ ([.store true, .wakeup true] : List (Action Bool ℕ)),
      a.isCall = true ∧ a.thread true = true := by decide
  (unblocked_iff_none_queued hfresh rfl (fun _ _ => rfl) hcalls (by decide) (by decide)).2
    (.inl rfl)

/-- **One functor is enough**: `loop()` polls with it queued, and nothing to wake it. -/
theorem not_unblocked_one :
    (steps true).Valid (new : EventLoop Bool ℕ) [.push true 0, .wakeup true, .enter, .test] ∧
    ¬ (steps true).Always Unblocked (new : EventLoop Bool ℕ)
      [.push true 0, .wakeup true, .enter, .test] :=
  ⟨by decide, fun h => absurd (h _ List.prefix_rfl rfl) (by decide)⟩

end EventLoop

end Mymuduo
