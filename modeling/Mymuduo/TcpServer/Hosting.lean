import Mymuduo.TcpServer.Tracking

/-!
# TcpServer/Hosting — what the parts of an action are to a session

An action of a server is made of a few things: a thread takes something up, a call goes a step
further, a functor joins a queue or leaves it, a method runs.  For each there is one thing it is to
the session of a connection it is about.  The sessions rest on the connections sharing nothing and
on each being announced before anything else that is queued for it (`Hosting`).
-/

namespace Mymuduo

open Machinery TcpConnection EPollPoller

namespace TcpServer

variable {υ : Type*} [DecidableEq υ] {s s' : TcpServer υ} {a : Action υ} {l : LoopId} {c : ℕ}
  {m : Method (Thread υ)} {f : ServerFunctor υ} {k : Answer} {t : Thread υ}
  {σ : Session ℕ (Thread υ)}

/-! ## Before the announcement -/

/-- What the sessions of the connections rest on: those alive share nothing, and a connection that
has not been announced is to be, by a loop that is there. -/
structure Hosting (s : TcpServer υ) : Prop where
  living : s.Living
  awaited : ∀ c < s.made, ¬ s.Up c → (s.homeOf c).stage.gone = false →
    .connectEstablished c ∈ (s.homeOf c).waiting

omit [DecidableEq υ] in
theorem start_hosting (n : ℕ) (b : Bool) : (start n b : TcpServer υ).Hosting :=
  ⟨start_living n b, nofun⟩

omit [DecidableEq υ] in
theorem Hosting.sound (h : s.Hosting) : s.Sound := h.living.sound

/-- Who has been announced stays so. -/
theorem up_after (hc : c < s.made) (hup : s.Up c) : (s.after a).Up c := by
  have hbook : (s.book a).Up c := by
    obtain ⟨tcp, revt, heq, -⟩ := s.book_conn a hc
    rwa [Up, heq]
  rcases s.after_conn a with ⟨l, c', m, -, hconn⟩ | ⟨hconn, -⟩ <;> rw [Up, hconn]
  · exact up_perform.mpr (.inl hbook)
  · exact hbook

/-- `connectEstablished` announces. -/
theorem up_of_establish (hj : s.job a = some (l, c, .connectEstablished)) : (s.after a).Up c := by
  rcases s.after_conn a with ⟨l', c', m, hj', hconn⟩ | ⟨-, hsilent⟩
  · obtain ⟨rfl, rfl, rfl⟩ : l' = l ∧ c' = c ∧ m = .connectEstablished := by
      simpa [hj] using hj'.symm
    rw [Up, hconn]
    exact up_perform.mpr (.inr ⟨rfl, rfl⟩)
  · exact absurd (hsilent _ hj).1 (by simp [Method.isEstablish])

/-- A loop that is there was there. -/
theorem not_gone_before (ha : s.Ready a) (hgone : ((s.after a).loop l).stage.gone = false) :
    (s.loop l).stage.gone = false := by
  rw [(s.after_frame a).stage] at hgone
  have hstep := book_loop ha l
  generalize (s.book a).loop l = L at hstep hgone
  cases hstep with
  | enter hat => rw [hat.1]; rfl
  | test hat => rw [hat.1]; rfl
  | poll reports hat hr => rw [hat.1]; rfl
  | swap hat hactive => rw [hat.1]; rfl
  | done hat hrest => rw [hat.1]; rfl
  | clear i hl hstage => rw [hstage]; rfl
  | discard i hl hstage => cases hgone
  | endLoop i hl hstage => cases hgone
  | _ => exact hgone

theorem Hosting.awaited_after (h : s.Hosting) (ha : s.Ready a) (hc : c < (s.after a).made)
    (hup : ¬ (s.after a).Up c) (hgone : ((s.after a).homeOf c).stage.gone = false) :
    .connectEstablished c ∈ ((s.after a).homeOf c).waiting := by
  rw [(s.after_frame a).made] at hc
  obtain hold | ⟨sockfd, rfl, rfl⟩ := lt_book_made hc
  · simp only [homeOf, s.after_home_of_lt a hold] at hgone ⊢
    have hwait := h.awaited c hold (fun hs => hup (up_after hold hs)) (not_gone_before ha hgone)
    obtain hstill | hr | ⟨hdiscards, -⟩ := h.sound.waiting_after ha hwait
    · exact hstill
    · refine absurd (up_of_establish (l := (s.conn c).home) ?_) hup
      rw [job_of_request hr, if_pos rfl]
      rfl
    · -- a loop that drops its queue is gone
      obtain ⟨i, rfl, hl, hstage⟩ := discards_iff.mp hdiscards
      rw [(s.after_frame _).stage, hl] at hgone
      rw [hl] at hstage
      simp [book, ServerLoop.endNext, hstage, Stage.gone] at hgone
  · have hhome : ((s.after (.newConncetion sockfd)).conn s.made).home =
        s.threadPool_.getNextLoop.1 := by
      rw [after_home]
      simp [book, accept]
    simp only [homeOf, hhome] at hgone ⊢
    by_cases hl : (.loop .base : Thread υ) = .loop s.threadPool_.getNextLoop.1
    · refine absurd (up_of_establish (l := s.threadPool_.getNextLoop.1) ?_) hup
      rw [job_of_request rfl, if_pos hl]
      rfl
    · rw [(s.after_frame _).stage] at hgone
      exact List.mem_append_right _ (mem_pending_of_push rfl hl hgone)

theorem Hosting.next (h : s.Hosting) (ha : s.Ready a) (hdistinct : a.distinct) :
    (steps.next s a).Hosting :=
  ⟨h.living.next ha hdistinct, fun _ hc hup hgone => h.awaited_after ha hc hup hgone⟩

/-! ## The parts of an action -/

omit [DecidableEq υ] in
theorem homeOf_onLoop {g : ServerLoop υ → ServerLoop υ} (hl : (s.conn c).home = l) :
    (s.onLoop l g).homeOf c = g (s.loop l) := by
  subst hl
  exact onLoop_self

namespace Tracks

variable (hσ : Tracks c s σ)
include hσ

/-- A change in the loops, as far as the connection can see it. -/
theorem of_loop (s' : TcpServer υ) (hconn : s'.conn c = s.conn c) (hcall : ∀ t, s'.callOn c t = s.callOn c t)
    {L : ServerLoop υ} (hL : s'.loop (s.conn c).home = L) {q : List (PendingFunctor (Thread υ))}
    {todo : List Task} {active : Bool} {removals : ℕ} (htodo : todo = L.todoOf c)
    (hactive : active = true ↔ c ∈ L.activeChannels_) (hremovals : removals = s'.removalsOf c)
    (hpoller : L.stage.gone = false →
      (s.homeOf c).stage.gone = false ∧ L.poller_ = (s.homeOf c).poller_)
    (hq : L.stage.gone = false → q = if s.Up c then L.queueOf c else []) {σ' : Session ℕ (Thread υ)}
    (hσ' : σ' = { σ with
      conn := { σ.conn with pendingFunctors_ := q }
      todo
      active
      removals }) : Tracks c s' σ' := by
  subst hσ'
  have hhome : s'.homeOf c = L := by rw [homeOf, hconn, hL]
  have hup : s'.Up c ↔ s.Up c := by rw [Up, hconn, Up]
  refine ⟨?_, hσ.established.trans hup.symm, fun t => (hσ.call t).trans (hcall t).symm, ?_, ?_,
    hremovals, ?_, ?_⟩
  · rw [hσ.conn, hconn]
  · rw [hhome, htodo]
  · rw [hhome, hactive]
  · rw [hhome]
    intro hgone
    obtain ⟨hold, heq⟩ := hpoller hgone
    rw [heq]
    exact hσ.poller hold
  · rw [hhome]
    simpa only [hup] using hq

/-- The rest of the server is none of its business. -/
theorem congr (hconn : s'.conn c = s.conn c) (hloop : s'.loop = s.loop) (hcall : s'.call = s.call)
    (hcallee : s'.callee = s.callee) : Tracks c s' σ := by
  refine hσ.of_loop s' hconn (fun t => ?_) (congrFun hloop _) hσ.todo hσ.active ?_
    (fun hgone => ⟨hgone, rfl⟩) hσ.queue rfl
  · rw [callOn, callOn, hcall, hcallee]
  · rw [hσ.removals, removalsOf, removalsOf, hloop]

/-- The loop's thread takes up or leaves something. -/
theorem onLoop {g : ServerLoop υ → ServerLoop υ} (hl : (s.conn c).home = l)
    (hwait : (g (s.loop l)).waiting = (s.loop l).waiting)
    (hgone : (g (s.loop l)).stage.gone = (s.loop l).stage.gone)
    (hpoller : (g (s.loop l)).poller_ = (s.loop l).poller_) {todo : List Task} {active : Bool}
    (htodo : todo = (g (s.loop l)).todoOf c)
    (hactive : active = true ↔ c ∈ (g (s.loop l)).activeChannels_) :
    Tracks c (s.onLoop l g) { σ with todo, active } := by
  have hold : s.homeOf c = s.loop l := by rw [homeOf, hl]
  refine hσ.of_loop (s.onLoop l g) (L := g (s.loop l)) rfl (fun _ => rfl) ?_ htodo hactive ?_ ?_ ?_ rfl
  · rw [hl, onLoop_self]
  · rw [hσ.removals, removalsOf, removalsOf]
    by_cases hbase : LoopId.base = l
    · rw [← hbase, onLoop_self, hbase, hwait]
    · rw [onLoop_ne hbase]
  · rw [hgone, hpoller, hold]
    exact fun h => ⟨h, rfl⟩
  · rw [hgone, ServerLoop.queueOf, hwait, ← ServerLoop.queueOf, ← hold]
    exact hσ.queue

/-- A functor joins a queue. -/
theorem queueInLoop {q : List (PendingFunctor (Thread υ))} {removals : ℕ}
    (hremovals : removals = (s.queueInLoop l f).removalsOf c)
    (hq : (s.homeOf c).stage.gone = false → q = if s.Up c then
      (s.homeOf c).queueOf c ++ if (s.conn c).home = l then (f.own c).toList else [] else []) :
    Tracks c (s.queueInLoop l f)
      { σ with conn := { σ.conn with pendingFunctors_ := q }, removals } := by
  refine hσ.of_loop (s.queueInLoop l f) rfl (fun _ => rfl) (queueInLoop_loop (s.conn c).home)
    hσ.todo hσ.active hremovals (fun hgone => ⟨hgone, rfl⟩) (fun hgone => ?_) rfl
  rw [hq hgone]
  by_cases hup : s.Up c
  · by_cases hl : (s.conn c).home = l
    · have hpresent : (s.loop l).stage.gone = false := hl ▸ hgone
      rcases hown : f.own c with _ | g <;>
        simp [ServerLoop.queueOf, ServerLoop.waiting, homeOf, hup, hl, hpresent, hown]
    · simp [ServerLoop.queueOf, ServerLoop.waiting, homeOf, hup, hl]
  · simp [hup]

/-- The connection itself changes. -/
theorem onTcp {g : TcpConnection ℕ (Thread υ) → TcpConnection ℕ (Thread υ)}
    (hg : ∀ tcp p q, g { tcp with poller_ := p, pendingFunctors_ := q } =
      { g tcp with poller_ := p, pendingFunctors_ := q }) :
    Tracks c (s.onTcp c g) { σ with conn := g σ.conn } := by
  have hconn : (s.onTcp c g).conn c = { s.conn c with tcp := g (s.conn c).tcp } :=
    Function.update_self ..
  have hup : (s.onTcp c g).Up c ↔ s.Up c := by rw [Up, hconn, Up]
  have hhome : (s.onTcp c g).homeOf c = s.homeOf c := by
    change (s.onTcp c g).loop ((s.onTcp c g).conn c).home = _
    rw [hconn]
    rfl
  have hrun : g σ.conn = { g (s.conn c).tcp with
      poller_ := σ.conn.poller_
      pendingFunctors_ := σ.conn.pendingFunctors_ } := by
    rw [← hg, ← hσ.conn]
  refine ⟨?_, hσ.established.trans hup.symm, hσ.call, ?_, ?_, hσ.removals, ?_, ?_⟩
  · rw [hconn, hrun]
  · rw [hhome]
    exact hσ.todo
  · rw [hhome]
    exact hσ.active
  · rw [hhome, hrun]
    exact hσ.poller
  · rw [hhome, hrun]
    simp only [hup]
    exact hσ.queue

/-- A caller goes on. -/
theorem step {x : Call} (hcallee : s.callee t = c) :
    Tracks c { s with call := Function.update s.call t x }
      { σ with call := Function.update σ.call t x } := by
  refine { hσ with call := fun t' => ?_ }
  by_cases ht : t' = t
  · subst ht
    simp [callOn, hcallee]
  · simpa [callOn, ht] using hσ.call t'

/-- A call begins. -/
theorem begin {x : Call} :
    Tracks c { s with
        call := Function.update s.call t x
        callee := Function.update s.callee t c }
      { σ with call := Function.update σ.call t x } := by
  refine { hσ with call := fun t' => ?_ }
  by_cases ht : t' = t
  · subst ht
    simp [callOn]
  · simpa [callOn, ht] using hσ.call t'

/-- What the session has is what a method finds, in front of what it will queue. -/
theorem view (hgone : (s.homeOf c).stage.gone = false) : σ.conn = (s.view c).withQueue
    ((if s.Up c then (s.homeOf c).queueOf c else []) ++ (s.view c).pendingFunctors_) := by
  have hnil : (s.view c).pendingFunctors_ = [] := rfl
  rw [hnil, List.append_nil, ← hσ.queue hgone]
  have hpoller := hσ.poller hgone
  have hconn := hσ.conn
  rw [hpoller] at hconn
  exact hconn

theorem run (hgone : (s.homeOf c).stage.gone = false) : m.run σ.conn = (m.run (s.view c)).withQueue
    ((if s.Up c then (s.homeOf c).queueOf c else []) ++ (m.run (s.view c)).pendingFunctors_) := by
  rw [hσ.view hgone, run_withQueue]

/-- A method runs, whatever there is in the queue. -/
theorem performed (hl : (s.conn c).home = l) (hgone : (s.homeOf c).stage.gone = false)
    (hup : (s.perform l c m).Up c) {q : List (PendingFunctor (Thread υ))}
    (hq : q = ((s.perform l c m).homeOf c).queueOf c) :
    Tracks c (s.perform l c m) { σ.perform m with conn := (m.run σ.conn).withQueue q } := by
  have hrun := hσ.run (m := m) hgone
  have hloop : (s.perform l c m).homeOf c = (s.perform l c m).loop (s.conn c).home := by
    rw [homeOf, perform_home]
  refine ⟨?_, ?_, hσ.call, ?_, ?_, ?_, fun _ => ?_, fun _ => ?_⟩
  · rw [perform_tcp, hrun]
    rfl
  · change (σ.established || m.isEstablish) = true ↔ _
    rw [up_perform, Bool.or_eq_true, hσ.established]
    simp
  · rw [hloop, todoOf_callbacks (perform_todo _), hl]
    simp only [Session.perform, if_true]
    rw [hσ.todo, homeOf, hl]
  · rw [hloop]
    exact hσ.active
  · change σ.removals = _
    rw [hσ.removals, removalsOf, removalsOf, waiting_perform, List.count_append]
    have hnone : ∀ g ∈ s.queued c m, g ≠ .removeConnectionInLoop c := by
      intro g hg
      obtain ⟨cb, rfl, -⟩ := mem_queued hg
      rintro ⟨⟩
    split
    · rw [List.count_eq_zero_of_not_mem (fun hmem => hnone _ hmem rfl), Nat.add_zero]
    · rfl
  · rw [hloop, perform_loop, if_pos rfl, hrun]
    rfl
  · rw [if_pos hup, ← hq]
    rfl

omit hσ in
omit [DecidableEq υ] in
theorem queueOf_perform : ((s.perform l c m).homeOf c).queueOf c =
    (s.homeOf c).queueOf c ++ (m.run (s.view c)).pendingFunctors_ := by
  have hown : ∀ q : List (PendingFunctor (Thread υ)),
      (q.map (ServerFunctor.of c)).filterMap (ServerFunctor.own c) = q := by
    intro q
    rw [List.filterMap_map]
    simp [Function.comp_def, ServerFunctor.own]
  rw [homeOf, perform_home, ServerLoop.queueOf, waiting_perform, if_pos rfl, List.filterMap_append,
    queued, hown]
  rfl

/-- **A method runs on both sides.** -/
theorem perform (hl : (s.conn c).home = l) (hgone : (s.homeOf c).stage.gone = false)
    (hup : s.Up c) : Tracks c (s.perform l c m) (σ.perform m) := by
  have hrun := hσ.performed (m := m) hl hgone (up_perform.mpr (.inl hup)) queueOf_perform.symm
  have hconn : (m.run σ.conn).withQueue
      ((s.homeOf c).queueOf c ++ (m.run (s.view c)).pendingFunctors_) = m.run σ.conn := by
    rw [hσ.run hgone, if_pos hup]
    rfl
  rwa [hconn] at hrun

/-- The functors queued before the announcement come behind it. -/
theorem establish (hl : (s.conn c).home = l) (hgone : (s.homeOf c).stage.gone = false)
    (hup : ¬ s.Up c) : Tracks c (s.perform l c .connectEstablished)
      { σ.perform .connectEstablished with
        conn := { (σ.perform .connectEstablished).conn with
          pendingFunctors_ := (σ.perform .connectEstablished).conn.pendingFunctors_ ++
            (s.homeOf c).queueOf c } } := by
  have hnil : (σ.perform .connectEstablished).conn.pendingFunctors_ = [] :=
    (hσ.queue hgone).trans (if_neg hup)
  have hqueue : (s.homeOf c).queueOf c =
      ((s.perform l c .connectEstablished).homeOf c).queueOf c := by
    rw [queueOf_perform]
    exact (List.append_nil _).symm
  rw [hnil, List.nil_append]
  exact hσ.performed hl hgone (up_perform.mpr (.inr ⟨rfl, rfl⟩)) hqueue

omit hσ in
/-- A functor of the connection is no removal. -/
theorem removalsOf_queueOwn {g : PendingFunctor (Thread υ)} :
    (s.queueInLoop l (.of c g)).removalsOf c = s.removalsOf c := by
  rw [removalsOf, waiting_queueInLoop, List.count_append]
  split <;> simp [removalsOf]

/-- A functor of the connection waits behind the others, -/
theorem queueOwn {g : PendingFunctor (Thread υ)} (hup : s.Up c) :
    Tracks c (s.queueInLoop (s.conn c).home (.of c g))
      { σ with conn := σ.conn.queueInLoop g } := by
  refine hσ.queueInLoop (hσ.removals.trans removalsOf_queueOwn.symm) fun hgone => ?_
  rw [hσ.queue hgone]
  simp [hup, ServerFunctor.own]

/-- and behind the announcement if that is still to come, or nowhere. -/
theorem queueEarly {g : PendingFunctor (Thread υ)}
    (hup : ¬ (s.Up c ∧ (s.homeOf c).stage.gone = false)) :
    Tracks c (s.queueInLoop (s.conn c).home (.of c g)) σ := by
  refine hσ.queueInLoop (q := σ.conn.pendingFunctors_)
    (hσ.removals.trans removalsOf_queueOwn.symm) fun hgone => ?_
  have hnot : ¬ s.Up c := fun hu => hup ⟨hu, hgone⟩
  rw [hσ.queue hgone, if_neg hnot, if_neg hnot]

/-- What a thread wants of the connection's loop. -/
theorem runOwn {g : PendingFunctor (Thread υ)} (hup : s.Up c) (hm : g.method k = some m)
    (hraw : g.isRaw = false ∨ s.Strong c)
    (hgone : t = .loop (s.conn c).home → (s.homeOf c).stage.gone = false) :
    Tracks c (s.runInLoop t (s.conn c).home k (.of c g))
      (if t = .loop (s.conn c).home then σ.perform m
        else { σ with conn := σ.conn.queueInLoop g }) := by
  unfold runInLoop
  split
  case isTrue ht =>
    simp only [exec, hm, if_pos hraw]
    exact hσ.perform rfl (hgone ht) hup
  case isFalse => exact hσ.queueOwn hup

/-- A removal joins the base loop's queue, -/
theorem queueRemoval (hbase : (s.loop .base).stage.gone = false) :
    Tracks c (s.queueInLoop .base (.removeConnectionInLoop c))
      { σ with removals := σ.removals + 1 } := by
  refine hσ.queueInLoop (q := σ.conn.pendingFunctors_) ?_ fun hgone => ?_
  · rw [hσ.removals, removalsOf, removalsOf, waiting_queueInLoop]
    simp [hbase]
  · rw [hσ.queue hgone]
    simp [ServerFunctor.own]

/-- and leaves a `connectDestoryed` when it runs. -/
theorem removeConnectionInLoop (hup : s.Up c) : Tracks c (s.removeConnectionInLoop c)
    { σ with conn := σ.conn.queueInLoop .connectDestoryed } := by
  have herased : Tracks c
      { s with conncetions_ := Function.update s.conncetions_ (s.conn c).name none } σ :=
    hσ.congr rfl rfl rfl rfl
  exact herased.queueOwn hup

end Tracks

end TcpServer

end Mymuduo
