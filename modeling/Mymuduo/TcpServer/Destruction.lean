import Mymuduo.TcpServer.Lifetime

/-!
# TcpServer/Destruction — a removal after the server

`handleClose` asks the server to remove the connection, through a functor in the base loop that
holds the connection and a bare pointer to the server.  Between the push and the run the base loop's
thread may destroy the server:

    sub-loop   handleClose ──▸ removeConnection ─┐
    base loop                      ~TcpServer ───┼───────▸ removeConnectionInLoop (on what is left)
                                                 ▾
                                          pendingFunctors_

`~TcpServer` drains nothing and joins the sub-loops only after its body, so a removal may be waiting
when it begins, or be pushed while it runs.  A run is safe if neither happens, and if no sub-loop
goes before the removals of its connections have run (`removed_alive`).
-/

namespace Mymuduo

open Machinery TcpConnection

/-- `removeConnectionInLoop`. -/
def ServerFunctor.isRemoval {υ : Type*} : ServerFunctor υ → Bool
  | removeConnectionInLoop _ => true
  | connectEstablished _ | of _ _ => false

namespace TcpServer

variable {υ : Type*} [DecidableEq υ] {s : TcpServer υ} {a : Action υ} {l : LoopId} {c : ℕ}
  {f : ServerFunctor υ}

/-- **The law**: where `removeConnectionInLoop` runs, the server it is bound to and the loop of the
connection exist. -/
def RemovesAlive (s : TcpServer υ) (a : Action υ) : Prop :=
  ∀ r ∈ s.runs a, r.2.isRemoval = true →
    s.phase ≠ .destroyed ∧ (s.loop (s.conn r.2.target).home).stage.gone = false

/-- The server waits for its removals: none is waiting when its destructor begins, none is asked for
after that, and a sub-loop has none left when `~EventLoop` drops its queue. -/
def Awaits (s : TcpServer υ) : Action υ → Prop
  | .destroy => ∀ f ∈ (s.loop .base).waiting, f.isRemoval = false
  | .task l _ => ∀ r ∈ (s.loop l).todo.head?, r.2 = .removeConnection → s.phase = .running
  | .endLoop i => ∀ f ∈ (s.loop .base).waiting, f.isRemoval = true →
      s.discards (.endLoop i) ≠ some (s.conn f.target).home
  | _ => True

instance (s : TcpServer υ) (a : Action υ) : Decidable (s.RemovesAlive a) :=
  inferInstanceAs (Decidable (∀ r ∈ s.runs a, _ → _ ∧ _))

instance (s : TcpServer υ) : ∀ a, Decidable (s.Awaits a)
  | .destroy => inferInstanceAs (Decidable (∀ f ∈ (s.loop .base).waiting, _))
  | .task l _ => inferInstanceAs (Decidable (∀ r ∈ (s.loop l).todo.head?, _ → _))
  | .endLoop _ => inferInstanceAs (Decidable (∀ f ∈ (s.loop .base).waiting, _ → _))
  | .enter _ | .test _ | .poll _ _ | .dispatch _ | .ret _ | .doPendingFunctors _ | .functor _ _
  | .donePendingFunctors _ | .quit _ _ | .newConncetion _ | .send _ _ _ | .sendRun _ _
  | .shutdown _ _ | .shutdownStore _ | .shutdownRun _ | .setHighWaterMarkCallback _ _ _
  | .retrieve _ _ | .share _ _ _ | .release _ _ | .destroyNext _ | .stop => isTrue trivial

/-! ## The removals that wait -/

/-- While a removal waits, the server runs and the connection's loop is there. -/
structure Awaited (s : TcpServer υ) : Prop where
  sound : s.Sound
  alive : ∀ f ∈ (s.loop .base).waiting, f.isRemoval = true →
    s.phase = .running ∧ (s.loop (s.conn f.target).home).stage.gone = false

omit [DecidableEq υ] in
theorem start_awaited (n : ℕ) (b : Bool) : (start n b : TcpServer υ).Awaited :=
  ⟨start_sound n b, nofun⟩

/-- The server's phase changes in its destructor only. -/
theorem book_running (ha : s.Ready a) (hrunning : s.phase = .running) (hd : a ≠ .destroy) :
    (s.book a).phase = .running := by
  have hstep := s.book_server a
  generalize s.book a = s' at hstep ⊢
  cases hstep with
  | destroy => exact absurd rfl hd
  | stop =>
    have hstop : s.MayStop := ha
    rw [MayStop, hrunning] at hstop
    cases hstop
  | other _ _ _ _ _ hphase => exact hphase.trans hrunning
  | _ => exact hrunning

omit [DecidableEq υ] in
/-- Nothing but a close asks for a removal, and it asks in time. -/
theorem Awaited.request (h : s.Awaited) (ha : s.Ready a) (hawait : s.Awaits a) {t : Thread υ}
    (hr : s.request a = some (t, l, f)) (hf : f.isRemoval = true) :
    f.target < s.made ∧ s.phase = .running ∧
      (s.loop (s.conn f.target).home).stage.gone = false := by
  cases asks_of_request ha hr with
  | functor _ k _ rest hrest =>
    have hwait : f ∈ (s.loop l).waiting := by simp [ServerLoop.waiting, hrest]
    have hmem := ServerLoop.mem_functors_of_waiting hwait
    have hbase : .base = l := by
      have howner := (h.sound.placed l).owner f hmem
      rcases f with c | c | ⟨c, g⟩
      · cases hf
      · exact howner
      · cases hf
    subst hbase
    exact ⟨(h.sound.placed .base).target f hmem, h.alive f hwait hf⟩
  | removal l' k c hhead =>
    have hmem := List.mem_of_mem_head? hhead
    obtain ⟨hhome, hup⟩ := (h.sound.placed l').todo _ hmem
    refine ⟨h.sound.made c hup, hawait _ hhead rfl, ?_⟩
    change (s.loop (s.conn c).home).stage.gone = false
    rw [hhome]
    rcases (h.sound.staged l').busy (List.ne_nil_of_mem hmem) with hstage | hstage <;>
      rw [hstage] <;> rfl
  | accept sockfd => cases hf
  | send _ k data hcall => cases hf
  | shutdown _ hcall => cases hf
  | destroy c hc => cases hf

/-- A removal that is waiting after an action was waiting before it, or has been asked for. -/
theorem Awaited.of_after (h : s.Awaited) (ha : s.Ready a) (hawait : s.Awaits a)
    (hf : f ∈ ((s.after a).loop .base).waiting) (hremoval : f.isRemoval = true) :
    f.target < s.made ∧ s.phase = .running ∧
      (s.loop (s.conn f.target).home).stage.gone = false ∧ a ≠ .destroy ∧
      s.discards a ≠ some (s.conn f.target).home := by
  obtain ⟨added, hwaiting, hadded⟩ := s.after_waiting a .base
  rw [hwaiting] at hf
  obtain hold | hnew := List.mem_append.mp hf
  · have hwait := h.sound.mem_waiting_of_book ha hold
    have htarget := (h.sound.placed .base).target f (ServerLoop.mem_functors_of_waiting hwait)
    obtain ⟨hphase, hpresent⟩ := h.alive f hwait hremoval
    refine ⟨htarget, hphase, hpresent, ?_, ?_⟩
    · rintro rfl
      have hno := hawait f hwait
      rw [hremoval] at hno
      cases hno
    · intro hdiscards
      obtain ⟨i, rfl, -⟩ := discards_iff.mp hdiscards
      exact hawait f hwait hremoval hdiscards
  · obtain ⟨c, cb, rfl, -⟩ | ⟨t, hr, -⟩ := hadded f hnew
    · cases hremoval
    · obtain ⟨htarget, hphase, hpresent⟩ := h.request ha hawait hr hremoval
      refine ⟨htarget, hphase, hpresent, ?_, ?_⟩
      · rintro rfl
        cases hr
      · intro hdiscards
        obtain ⟨i, rfl, -⟩ := discards_iff.mp hdiscards
        cases hr

theorem Awaited.next (h : s.Awaited) (ha : steps.enabled s a) (hawait : s.Awaits a) :
    (steps.next s a).Awaited := by
  refine ⟨h.sound.next ha.1, fun f hf hremoval => ?_⟩
  obtain ⟨htarget, hphase, hpresent, hdestroy, hkeeps⟩ := h.of_after ha.1 hawait hf hremoval
  have hframe := s.after_frame a
  change (s.after a).phase = .running ∧
    ((s.after a).loop ((s.after a).conn f.target).home).stage.gone = false
  rw [hframe.phase, hframe.stage, s.after_home_of_lt a htarget]
  exact ⟨book_running ha.1 hphase hdestroy, book_present ha.1 hpresent hkeeps⟩

/-- **A removal runs while the server and the connection's loop exist, in every run in which the
server waits for its removals**: none is queued when the destructor begins or afterwards, and no
sub-loop goes with one of its connections' still queued. -/
theorem removed_alive (n : ℕ) (b : Bool) (as : List (Action υ)) (h : steps.Valid (start n b) as)
    (hawaits : steps.Along Awaits (start n b) as) : steps.Along RemovesAlive (start n b) as := by
  refine (Machine.along_and.mpr ⟨h, hawaits⟩).imp_of_invariant (I := Awaited)
    (fun s a hs ha => hs.next ha.1 ha.2) (fun s a hs ha r hr hremoval => ?_) (start_awaited n b)
  obtain ⟨l, f⟩ := r
  obtain ⟨-, hphase, hpresent⟩ := hs.request ha.1.1 ha.2 (runs_iff.mp hr) hremoval
  refine ⟨?_, hpresent⟩
  rw [hphase]
  nofun

/-- A peer's close in a sub-loop, and the destruction of the server after its removal. -/
theorem removed_alive_close :
    steps.Along RemovesAlive (start 1 false : TcpServer Unit)
      [.enter .base, .test .base, .poll .base [], .newConncetion 7, .enter (.sub 0), .test (.sub 0),
        .poll (.sub 0) [], .doPendingFunctors (.sub 0), .functor (.sub 0) ⟨⟨0, 0, 0⟩, .data []⟩,
        .ret (.sub 0), .donePendingFunctors (.sub 0), .test (.sub 0),
        .poll (.sub 0) [(0, EPOLLIN)], .dispatch (.sub 0), .task (.sub 0) ⟨⟨0, 0, 0⟩, .data []⟩,
        .ret (.sub 0), .task (.sub 0) ⟨⟨0, 0, 0⟩, .data []⟩, .doPendingFunctors .base,
        .functor .base ⟨⟨0, 0, 0⟩, .data []⟩, .donePendingFunctors .base, .test .base, .poll .base [],
        .destroy, .stop, .stop] :=
  removed_alive 1 false _ (by decide +kernel) (by decide +kernel)

/-- The sub-loop asks for a removal, the base loop's thread destroys the server and the sub-loop,
and then comes to the functor. -/
theorem not_removed_alive :
    ¬ ∀ (n : ℕ) (b : Bool) (as : List (Action Unit)), steps.Valid (start n b) as →
      steps.Along RemovesAlive (start n b) as := by
  intro h
  have hrun := h 1 false
    [.enter .base, .test .base, .poll .base [], .newConncetion 7, .enter (.sub 0), .test (.sub 0),
      .poll (.sub 0) [], .doPendingFunctors (.sub 0), .functor (.sub 0) ⟨⟨0, 0, 0⟩, .data []⟩,
      .ret (.sub 0), .donePendingFunctors (.sub 0), .test (.sub 0),
      .poll (.sub 0) [(0, EPOLLIN)], .dispatch (.sub 0), .task (.sub 0) ⟨⟨0, 0, 0⟩, .data []⟩,
      .ret (.sub 0), .task (.sub 0) ⟨⟨0, 0, 0⟩, .data []⟩, .destroy, .destroyNext 0, .stop, .stop,
      .doPendingFunctors (.sub 0), .functor (.sub 0) ⟨⟨0, 0, 0⟩, .data []⟩,
      .donePendingFunctors (.sub 0), .test (.sub 0), .endLoop 0, .endLoop 0,
      .endLoop 0, .stop, .doPendingFunctors .base,
      .functor .base ⟨⟨0, 0, 0⟩, .data []⟩] (by decide +kernel)
  revert hrun
  decide +kernel

end TcpServer

end Mymuduo
