import Mymuduo.EventLoopThread.Model

/-!
# EventLoopThread/Join — whether the destructor's `join()` comes back

The destructor calls `quit()` on the worker's loop and joins the worker, which leaves `loop()` once
it sees `quit_`.  One thing in the source stores `false` there: `loop()` itself, before its first
test.  `startLoop` returns when the loop is published, which is before that store; so the owner can
be too early:

    owner     startLoop … quit_ = true … join()
    worker    publish ……………………………… quit_ = false, poll, poll, …

From the moment `loop()` is entered nothing resets the flag (`quitKept_iff_entered`).
-/

namespace Mymuduo

open Machinery

namespace EventLoop

variable {τ φ : Type*} [DecidableEq τ] {threadId_ : τ} {s : EventLoop τ φ} {a : Action τ φ}

/-- `quit_` is reset by `loop()`, where it is entered, and by nothing else. -/
theorem quit_next (hquit : s.quit_ = true) (hne : a ≠ .enter) :
    ((steps threadId_).next s a).quit_ = true := by
  cases a with
  | enter => exact absurd rfl hne
  | store t => rfl
  | wakeup t => exact finish_quit.trans hquit
  | _ => exact hquit

end EventLoop

namespace EventLoopThread

variable {τ φ : Type*} [DecidableEq τ] {threadId_ ownerId : τ} {s : EventLoopThread τ φ}
  {a : Action τ φ} {as : List (Action τ φ)}

/-- **The law**: once the destructor has called `quit()` the flag is set. -/
def QuitKept (s : EventLoopThread τ φ) : Prop := s.owner.hasQuit = true → s.loop.quit_ = true

instance (s : EventLoopThread τ φ) : Decidable s.QuitKept := inferInstanceAs (Decidable (_ → _))

/-- The destructor calls `quit()` only when the worker is in `loop()`, or past it. -/
def Entered (s : EventLoopThread τ φ) : Action τ φ → Prop
  | .quit => s.worker.entered = true
  | _ => True

instance (s : EventLoopThread τ φ) : ∀ a, Decidable (s.Entered a)
  | .quit => inferInstanceAs (Decidable (_ = _))
  | .start | .check | .spurious | .destruct | .testLoop | .quitReturn | .join | .publish | .clear
  | .loop _ => isTrue trivial

/-! ## What a step does -/

/-- The destructor has called `quit()` before, or does now. -/
theorem hasQuit_next (h : ((steps threadId_ ownerId).next s a).owner.hasQuit = true)
    (ha : (steps threadId_ ownerId).enabled s a) : s.owner.hasQuit = true ∨ a = .quit := by
  cases a with
  | quit => exact .inr rfl
  | quitReturn => exact .inl (by rw [show s.owner = .stored from ha]; rfl)
  | join => exact .inl (by rw [ha.1]; rfl)
  | check =>
    simp only [steps] at h
    split at h <;> cases h
  | testLoop =>
    simp only [steps] at h
    split at h <;> cases h
  | publish =>
    simp only [steps] at h
    split at h
    · cases h
    · exact .inl h
  | clear => exact .inl h
  | loop a => exact .inl h
  | start => cases h
  | spurious => cases h
  | destruct => cases h

/-- And has called it for good. -/
theorem hasQuit_keep (h : s.owner.hasQuit = true) (ha : (steps threadId_ ownerId).enabled s a) :
    ((steps threadId_ ownerId).next s a).owner.hasQuit = true := by
  cases a with
  | quit => rfl
  | quitReturn => rfl
  | join => rfl
  | publish =>
    simp only [steps]
    split
    · next hw => rw [hw] at h; cases h
    · exact h
  | clear => exact h
  | loop a => exact h
  | start => rw [show s.owner = .constructed from ha] at h; cases h
  | check => rw [show s.owner = .starting from ha] at h; cases h
  | spurious => rw [show s.owner = .waiting from ha] at h; cases h
  | destruct => rw [ha.1] at h; cases h
  | testLoop => rw [show s.owner = .destructing from ha] at h; cases h

/-- So has the worker called `loop()`. -/
theorem entered_keep (h : s.worker.entered = true) (ha : (steps threadId_ ownerId).enabled s a)
    (hstart : a ≠ .start) : ((steps threadId_ ownerId).next s a).worker.entered = true := by
  cases a with
  | start => exact absurd rfl hstart
  | publish => rw [ha.1] at h; cases h
  | clear => rfl
  | loop a =>
    cases a with
    | enter => rfl
    | test =>
      simp only [steps, workerAfter]
      split
      · rfl
      · exact h
    | _ => exact h
  | _ => exact h

/-- It calls it by entering it. -/
theorem entered_next (h : ((steps threadId_ ownerId).next s a).worker.entered = true)
    (ha : (steps threadId_ ownerId).enabled s a) :
    s.worker.entered = true ∨ a = .loop .enter := by
  cases a with
  | start => cases h
  | publish => cases h
  | clear => exact .inl (by rw [show s.worker = .returned from ha]; rfl)
  | loop a =>
    cases a with
    | enter => exact .inr rfl
    | test => exact .inl (by rw [show s.worker = .looping from ha.1]; rfl)
    | _ => exact .inl h
  | _ => exact .inl h

/-- `quit_` stays set, unless the worker enters `loop()`. -/
theorem quit_keep (hquit : s.loop.quit_ = true) (hne : a ≠ .loop .enter) :
    ((steps threadId_ ownerId).next s a).loop.quit_ = true := by
  cases a with
  | loop a => exact EventLoop.quit_next hquit fun henter => hne (henter ▸ rfl)
  | quit => rfl
  | quitReturn => exact EventLoop.finish_quit.trans hquit
  | _ => exact hquit

/-! ## In time, and too early -/

/-- The destructor's `quit()` came when the worker was in `loop()`, and is still seen. -/
def Heard (s : EventLoopThread τ φ) : Prop :=
  s.owner.hasQuit = true → s.loop.quit_ = true ∧ s.worker.entered = true

theorem Heard.next (h : s.Heard) (ha : (steps threadId_ ownerId).enabled s a)
    (hentered : s.Entered a) : ((steps threadId_ ownerId).next s a).Heard := by
  intro hquit
  obtain hbefore | rfl := hasQuit_next hquit ha
  · obtain ⟨hset, hin⟩ := h hbefore
    refine ⟨quit_keep hset ?_, entered_keep hin ha ?_⟩
    · rintro rfl
      rw [show s.worker = .published from ha.1] at hin
      cases hin
    · rintro rfl
      rw [show s.owner = .constructed from ha] at hbefore
      cases hbefore
  · exact ⟨rfl, hentered⟩

/-- **Too early**: the destructor has called `quit()`, and `loop()` is not entered. -/
def Early (s : EventLoopThread τ φ) : Prop :=
  s.owner.hasQuit = true ∧ s.worker.entered = false

/-- Once the worker enters, the flag is lost. -/
theorem Early.next (h : s.Early) (ha : (steps threadId_ ownerId).enabled s a)
    (hkept : ((steps threadId_ ownerId).next s a).QuitKept) :
    ((steps threadId_ ownerId).next s a).Early := by
  have hquit := hasQuit_keep h.1 ha
  refine ⟨hquit, Bool.eq_false_iff.mpr fun hin => ?_⟩
  obtain hbefore | rfl := entered_next hin ha
  · exact absurd (h.2.symm.trans hbefore) nofun
  · exact absurd (hkept hquit) nofun

/-- A `quit()` before the worker is in `loop()` is too early. -/
theorem early_of_not_entered (hearly : ¬ s.Entered a) :
    ((steps threadId_ ownerId).next s a).Early := by
  cases a with
  | quit => exact ⟨rfl, Bool.eq_false_iff.mpr hearly⟩
  | _ => exact absurd trivial hearly

/-! ## Runs -/

/-- **The destructor's `quit()` is kept, exactly.**  In every run in which it comes after `loop()`
is entered, `quit_` is set from there on in every state; and a run at whose end the worker has
entered `loop()` is such a run, if the flag is. -/
theorem quitKept_iff_entered (hvalid : (steps threadId_ ownerId).Valid new as) :
    ((steps threadId_ ownerId).Along Entered (new : EventLoopThread τ φ) as →
      (steps threadId_ ownerId).Always QuitKept new as) ∧
    (((steps threadId_ ownerId).run (new : EventLoopThread τ φ) as).worker.entered = true →
      (steps threadId_ ownerId).Always QuitKept new as →
      (steps threadId_ ownerId).Along Entered new as) := by
  refine ⟨fun hentered => ?_, fun hin hkept => ?_⟩
  · exact (Machine.along_and.mpr ⟨hvalid, hentered⟩).always (I := Heard)
      (fun _ _ hs ha => hs.next ha.1 ha.2) (fun _ hs hquit => (hs hquit).1) nofun
  · have hrun := Machine.along_and.mpr ⟨hvalid, ((Machine.always_iff _).mp hkept).2⟩
    refine hrun.of_not_run (B := Early) (fun _ _ _ hearly => early_of_not_entered hearly)
      (fun _ _ hs ha => hs.next ha.1 ha.2) fun hend => ?_
    cases hend.2.symm.trans hin

/-- An owner that lets the loop begin. -/
theorem quitKept_iff_entered_waits :
    (steps true false).Always QuitKept (new : EventLoopThread Bool ℕ)
      [.start, .check, .publish, .check, .loop .enter, .loop .test, .destruct, .testLoop, .quit,
        .quitReturn, .loop (.pollReturn true), .loop .handleRead, .loop .doPendingFunctors,
        .loop .swap, .loop .donePendingFunctors, .loop .test, .clear, .join] :=
  (quitKept_iff_entered (by decide)).1 (by decide)

/-- **One that does not**: it waits in `join()`,
and the worker in `epoll_wait` with `quit_` reset. -/
theorem not_quitKept_at_once :
    (steps true false).Valid (new : EventLoopThread Bool ℕ)
      [.start, .publish, .check, .destruct, .testLoop, .quit, .quitReturn, .loop .enter,
        .loop .test] ∧
    ¬ (steps true false).Always QuitKept (new : EventLoopThread Bool ℕ)
      [.start, .publish, .check, .destruct, .testLoop, .quit, .quitReturn, .loop .enter,
        .loop .test] ∧
    ((steps true false).run (new : EventLoopThread Bool ℕ)
      [.start, .publish, .check, .destruct, .testLoop, .quit, .quitReturn, .loop .enter,
        .loop .test]).owner = .joining ∧
    ((steps true false).run (new : EventLoopThread Bool ℕ)
      [.start, .publish, .check, .destruct, .testLoop, .quit, .quitReturn, .loop .enter,
        .loop .test]).loop.pc = .poll :=
  ⟨by decide, fun h => absurd (h _ List.prefix_rfl) (by decide), by decide, by decide⟩

end EventLoopThread

end Mymuduo
