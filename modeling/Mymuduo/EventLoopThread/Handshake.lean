import Mymuduo.EventLoopThread.Model

/-!
# EventLoopThread/Handshake — whether `startLoop` comes back

The owner waits for `loop_`, which the worker sets once, with a notification, and takes back when
`loop()` has returned:

    worker    publish, notify ── loop() ── loop_ = nullptr
    owner     cond_.wait ……………………………………………… loop_ == nullptr, cond_.wait, …

A notified owner has still to lock `mutex_`, and one that has just started the thread has still to
look.  If `loop()` is made to return before either does, the owner finds nothing and waits for a
notification that nobody gives.
-/

namespace Mymuduo

open Machinery

/-- The worker has published its loop, which it does once. -/
def WorkerPc.hasPublished : WorkerPc → Bool
  | published | looping | returned | finished => true
  | notStarted | callback => false

/-- The worker has published its loop, and not taken it back. -/
def WorkerPc.lends : WorkerPc → Bool
  | published | looping | returned => true
  | notStarted | callback | finished => false

namespace EventLoopThread

variable {τ φ : Type*} [DecidableEq τ] {threadId_ ownerId : τ} {s : EventLoopThread τ φ}
  {a : Action τ φ} {as : List (Action τ φ)}

/-- **The law**: the owner does not wait for a notification that has been given. -/
def Notified (s : EventLoopThread τ φ) : Prop :=
  s.owner = .waiting → s.worker.hasPublished = false

instance (s : EventLoopThread τ φ) : Decidable s.Notified := inferInstanceAs (Decidable (_ → _))

/-- The worker takes `loop_` back only when the owner is not about to look at it. -/
def Seen (s : EventLoopThread τ φ) : Action τ φ → Prop
  | .clear => s.owner ≠ .starting
  | _ => True

instance (s : EventLoopThread τ φ) : ∀ a, Decidable (s.Seen a)
  | .clear => inferInstanceAs (Decidable (_ ≠ _))
  | .start | .check | .spurious | .destruct | .testLoop | .quit | .quitReturn | .join | .publish
  | .loop _ => isTrue trivial

/-- Where a step of the loop may be taken the loop exists, and the worker stays where it is unless
it enters `loop()` or leaves it. -/
theorem workerAfter_cases {a : EventLoop.Action τ φ} (ha : s.mayTake threadId_ ownerId a) :
    s.worker.alive = true ∧
    (s.workerAfter a = s.worker ∨
      s.worker = .published ∧ s.workerAfter a = .looping ∨
      s.worker = .looping ∧ s.workerAfter a = .returned) := by
  have hcall : ∀ t, (if t = threadId_ then s.worker.userCode = true
      else if t = ownerId then s.owner = .started ∧ s.worker.alive = true
      else s.worker.alive = true) → s.worker.alive = true := by
    intro t ht
    split_ifs at ht
    · cases hw : s.worker <;> simp_all [WorkerPc.userCode, WorkerPc.alive]
    · exact ht.2
    · exact ht
  have hloop : s.worker = .looping → s.worker.alive = true := fun h => by rw [h]; rfl
  cases a with
  | enter =>
    have hw : s.worker = .published := ha
    exact ⟨by rw [hw]; rfl, .inr (.inl ⟨hw, rfl⟩)⟩
  | test =>
    refine ⟨hloop ha, ?_⟩
    simp only [workerAfter]
    split
    · exact .inr (.inr ⟨ha, rfl⟩)
    · exact .inl rfl
  | push t cb => exact ⟨hcall t ha, .inl rfl⟩
  | store t => exact ⟨hcall t ha, .inl rfl⟩
  | wakeup t => exact ⟨hcall t ha, .inl rfl⟩
  | _ => exact ⟨hloop ha, .inl rfl⟩

/-- Inside `loop()` the worker neither publishes its loop nor takes it back. -/
theorem workerAfter_keeps {a : EventLoop.Action τ φ} (ha : s.mayTake threadId_ ownerId a) :
    (s.workerAfter a).lends = s.worker.lends ∧
    (s.workerAfter a).hasPublished = s.worker.hasPublished ∧
    (s.workerAfter a = .finished → s.worker = .finished) := by
  obtain hsame | ⟨hw, hw'⟩ | ⟨hw, hw'⟩ := (workerAfter_cases ha).2
  · rw [hsame]
    exact ⟨rfl, rfl, id⟩
  · rw [hw, hw']
    exact ⟨rfl, rfl, nofun⟩
  · rw [hw, hw']
    exact ⟨rfl, rfl, nofun⟩

/-! ## What `loop_` points to -/

/-- **`loop_` is the worker's loop** from its publication until it is taken back. -/
structure Lent (s : EventLoopThread τ φ) : Prop where
  constructed : s.owner = .constructed → s.worker = .notStarted
  pointer : s.loop_ = s.worker.lends

omit [DecidableEq τ] in
theorem lent_new : (new : EventLoopThread τ φ).Lent := ⟨fun _ => rfl, rfl⟩

theorem Lent.next (h : s.Lent) (ha : (steps threadId_ ownerId).enabled s a) :
    ((steps threadId_ ownerId).next s a).Lent := by
  have hpointer := h.pointer
  cases a with
  | start =>
    rw [h.constructed ha] at hpointer
    exact ⟨nofun, hpointer⟩
  | check =>
    refine ⟨fun howner => ?_, hpointer⟩
    simp only [steps] at howner
    split at howner <;> cases howner
  | testLoop =>
    refine ⟨fun howner => ?_, hpointer⟩
    simp only [steps] at howner
    split at howner <;> cases howner
  | publish =>
    refine ⟨fun howner => ?_, rfl⟩
    simp only [steps] at howner
    split at howner
    · cases howner
    · have hw := h.constructed howner
      rw [ha.1] at hw
      cases hw
  | clear =>
    refine ⟨fun howner => ?_, rfl⟩
    have hw := h.constructed howner
    rw [show s.worker = .returned from ha] at hw
    cases hw
  | loop a =>
    have halive := (workerAfter_cases ha.1).1
    refine ⟨fun howner => ?_, ?_⟩
    · rw [h.constructed howner] at halive
      cases halive
    · exact hpointer.trans (workerAfter_keeps ha.1).1.symm
  | spurious => exact ⟨nofun, hpointer⟩
  | destruct => exact ⟨nofun, hpointer⟩
  | quit => exact ⟨nofun, hpointer⟩
  | quitReturn => exact ⟨nofun, hpointer⟩
  | join => exact ⟨nofun, hpointer⟩

/-! ## An owner in time -/

/-- **The owner looks before the worker takes `loop_` back**: it does not wait when the worker has
published its loop, and is not about to look when the worker is done. -/
structure Handed (s : EventLoopThread τ φ) : Prop where
  lent : s.Lent
  notified : s.Notified
  starting : s.owner = .starting → s.worker ≠ .finished

omit [DecidableEq τ] in
/-- An owner that is not in `startLoop` is in time. -/
theorem Handed.of_owner (hlent : s.Lent) (hwaiting : s.owner ≠ .waiting)
    (hstarting : s.owner ≠ .starting) : s.Handed :=
  ⟨hlent, fun h => absurd h hwaiting, fun h => absurd h hstarting⟩

/-- **The step lemma.** -/
theorem Handed.next (h : s.Handed) (ha : (steps threadId_ ownerId).enabled s a)
    (hseen : s.Seen a) : ((steps threadId_ ownerId).next s a).Handed := by
  have hlent := h.lent.next ha
  cases a with
  | start => exact ⟨hlent, nofun, nofun⟩
  | check =>
    have hpointer := h.lent.pointer
    have hstarting := h.starting ha
    cases hloop : s.loop_
    case true => exact .of_owner hlent (by simp [steps, hloop]) (by simp [steps, hloop])
    refine ⟨hlent, fun _ => ?_, by simp [steps, hloop]⟩
    -- `loop_` is null, and not because it has been taken back
    change s.worker.hasPublished = false
    rw [hloop] at hpointer
    cases hw : s.worker with
    | notStarted => rfl
    | callback => rfl
    | finished => exact absurd hw hstarting
    | _ =>
      rw [hw] at hpointer
      cases hpointer
  | spurious =>
    refine ⟨hlent, nofun, fun _ hdone => ?_⟩
    have hnone := h.notified ha
    rw [show s.worker = .finished from hdone] at hnone
    cases hnone
  | publish =>
    refine ⟨hlent, fun howner => ?_, nofun⟩
    simp only [steps] at howner
    split at howner
    · cases howner
    · exact absurd howner ‹_›
  | clear =>
    refine .of_owner hlent (fun howner => ?_) hseen
    have hnone := h.notified howner
    rw [show s.worker = .returned from ha] at hnone
    cases hnone
  | loop a =>
    obtain ⟨-, hpublished, hfinished⟩ := workerAfter_keeps ha.1
    exact ⟨hlent, fun howner => hpublished.trans (h.notified howner),
      fun howner hdone => h.starting howner (hfinished hdone)⟩
  | testLoop =>
    refine .of_owner hlent ?_ ?_ <;> simp only [steps] <;> split <;> nofun
  | destruct => exact .of_owner hlent nofun nofun
  | quit => exact .of_owner hlent nofun nofun
  | quitReturn => exact .of_owner hlent nofun nofun
  | join => exact .of_owner hlent nofun nofun

/-! ## An owner too late -/

/-- **The owner is in `startLoop`, and the worker is done.** -/
structure Abandoned (s : EventLoopThread τ φ) : Prop where
  owner : s.owner = .starting ∨ s.owner = .waiting
  worker : s.worker = .finished
  loop_ : s.loop_ = false

/-- That is for good. -/
theorem Abandoned.next (h : s.Abandoned) (ha : (steps threadId_ ownerId).enabled s a) :
    ((steps threadId_ ownerId).next s a).Abandoned := by
  have hw := h.worker
  have howner : ∀ pc, pc ≠ .starting → pc ≠ .waiting → s.owner ≠ pc := by
    rintro pc hstarting hwaiting rfl
    exact h.owner.elim hstarting hwaiting
  cases a with
  | start => exact absurd ha (howner _ nofun nofun)
  | check => exact ⟨.inr (by simp [steps, h.loop_]), hw, h.loop_⟩
  | spurious => exact ⟨.inl rfl, hw, h.loop_⟩
  | destruct => exact absurd ha.1 (howner _ nofun nofun)
  | testLoop => exact absurd ha (howner _ nofun nofun)
  | quit => exact absurd ha.1 (howner _ nofun nofun)
  | quitReturn => exact absurd ha (howner _ nofun nofun)
  | join => exact absurd ha.1 (howner _ nofun nofun)
  | publish => cases hw.symm.trans ha.1
  | clear => cases hw.symm.trans ha
  | loop a =>
    have halive := (workerAfter_cases ha.1).1
    rw [hw] at halive
    cases halive

/-- A worker that is too early leaves it there. -/
theorem abandoned_of_not_seen (hlate : ¬ s.Seen a) :
    ((steps threadId_ ownerId).next s a).Abandoned := by
  cases a with
  | clear => exact ⟨.inl (not_not.mp hlate), rfl, rfl⟩
  | _ => exact absurd trivial hlate

/-! ## Runs -/

/-- **The `startLoop` handshake.**  In every run in which the worker takes `loop_` back only when
the owner is not about to look at it, the owner never waits for a notification that has been given;
and a run at whose end the owner is not about to look is such a run, if it never does.  Whatever the
run, `startLoop` returns the worker's loop: `loop_` points to it, and it exists. -/
theorem notified_iff_seen (hvalid : (steps threadId_ ownerId).Valid new as) :
    ((steps threadId_ ownerId).Along Seen (new : EventLoopThread τ φ) as →
      (steps threadId_ ownerId).Always Notified new as) ∧
    (((steps threadId_ ownerId).run (new : EventLoopThread τ φ) as).owner ≠ .starting →
      (steps threadId_ ownerId).Always Notified new as →
      (steps threadId_ ownerId).Along Seen new as) ∧
    (steps threadId_ ownerId).Along (fun s a => s.owner = .starting →
      ((steps threadId_ ownerId).next s a).owner = .started →
        s.loop_ = true ∧ s.worker.lends = true) (new : EventLoopThread τ φ) as := by
  refine ⟨fun hseen => ?_, fun hend hlaw => ?_, ?_⟩
  · exact (Machine.along_and.mpr ⟨hvalid, hseen⟩).always (I := Handed)
      (fun _ _ hs ha => hs.next ha.1 ha.2) (fun _ hs => hs.notified) ⟨lent_new, nofun, nofun⟩
  · refine hvalid.of_not_run (B := Abandoned) (fun _ _ _ hlate => abandoned_of_not_seen hlate)
      (fun _ _ hs ha => hs.next ha) fun habandoned => ?_
    have hnone := hlaw.last (habandoned.owner.resolve_left hend)
    rw [habandoned.worker] at hnone
    cases hnone
  · refine hvalid.imp_of_invariant (I := Lent) (fun _ _ hs ha => hs.next ha) ?_ lent_new
    intro s a hs ha hstarting hstarted
    have hloop : s.loop_ = true := by
      cases a with
      | check =>
        by_contra hnull
        simp [steps, hnull] at hstarted
      | publish =>
        simp only [steps, hstarting] at hstarted
        cases hstarted
      | clear => cases hstarting.symm.trans hstarted
      | loop a => cases hstarting.symm.trans hstarted
      | testLoop => cases hstarting.symm.trans ha
      | _ => cases hstarted
    exact ⟨hloop, hs.pointer ▸ hloop⟩

/-- An owner that wakes unasked, is notified, and looks before another thread quits the loop. -/
theorem notified_iff_seen_waits :
    (steps 1 0).Always Notified (new : EventLoopThread (Fin 3) ℕ)
      [.start, .check, .spurious, .check, .publish, .check, .loop .enter, .loop (.store 2),
        .loop (.wakeup 2), .loop .test, .clear] :=
  (notified_iff_seen (by decide)).1 (by decide)

/-- **One that does not**: the callback has handed the loop to a thread that quits it, and the owner
is notified while it waits, but locks `mutex_` after the worker. -/
theorem not_notified_late :
    (steps 1 0).Valid (new : EventLoopThread (Fin 3) ℕ)
      [.start, .check, .publish, .loop .enter, .loop (.store 2), .loop (.wakeup 2), .loop .test,
        .clear, .check] ∧
    ¬ (steps 1 0).Always Notified (new : EventLoopThread (Fin 3) ℕ)
      [.start, .check, .publish, .loop .enter, .loop (.store 2), .loop (.wakeup 2), .loop .test,
        .clear, .check] ∧
    ((steps 1 0).run (new : EventLoopThread (Fin 3) ℕ)
      [.start, .check, .publish, .loop .enter, .loop (.store 2), .loop (.wakeup 2), .loop .test,
        .clear, .check]).worker = .finished :=
  ⟨by decide, fun h => absurd (h _ List.prefix_rfl) (by decide), by decide⟩

end EventLoopThread

end Mymuduo
