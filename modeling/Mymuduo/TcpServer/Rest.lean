import Mymuduo.TcpServer.Living
import Mymuduo.TcpServer.Registration
import Mymuduo.TcpServer.Table
import Mymuduo.TcpServer.Teardown

/-!
# TcpServer/Rest — a server at rest holds the connections that are up

The user is told of a connection's end by `handleClose`, in the thread of its loop; the server takes
it out of its map later, in the base loop's.

    handleClose ──▸ todo of its loop ──task──▸ queue of the base loop ──functor──▸ out of the map
       down         removeConnection           removeConnectionInLoop              removed

Nothing on the way is lost or comes from anywhere else (`Parted`), so as long as `~TcpServer` does
not run, a connection leaves the map after the user has been told, and a server with nothing left to
do holds those it has not told the user of, and no other.
-/

namespace Mymuduo

open Machinery TcpConnection

namespace TcpServer

variable {υ : Type*} [DecidableEq υ] {s : TcpServer υ} {a : Action υ} {l : LoopId} {c : ℕ}
  {m : Method (Thread υ)} {f : ServerFunctor υ} {removed : List ℕ}

/-! ## On the way out -/

omit [DecidableEq υ] in
/-- The removal of `c` from the map is on its way. -/
def Leaving (s : TcpServer υ) (c : ℕ) : Prop :=
  (c, Task.removeConnection) ∈ (s.loop (s.conn c).home).todo ∨
    .removeConnectionInLoop c ∈ (s.loop .base).waiting

instance (s : TcpServer υ) (c : ℕ) : Decidable (s.Leaving c) :=
  inferInstanceAs (Decidable (_ ∨ _))

/-- `removeConnection` is called where `connectionCallback_` says down. -/
theorem removeConnection_mem_callbacks {τ : Type*} {m : Method τ} :
    .removeConnection ∈ m.callbacks ↔ m.notifies = true ∧ m.isEstablish = false := by
  cases m with
  | handleRead k =>
    cases k with
    | fail errno => simp [Method.callbacks, Method.notifies]
    | data bytes => cases bytes <;> simp [Method.callbacks, Method.notifies, Method.isEstablish]
  | _ => simp [Method.callbacks, Method.notifies, Method.isEstablish]

omit [DecidableEq υ] in
theorem mem_todo_perform {c' : ℕ} {l' : LoopId} :
    (c', Task.removeConnection) ∈ ((s.perform l c m).loop l').todo ↔
      (c', Task.removeConnection) ∈ (s.loop l').todo ∨
        l' = l ∧ c' = c ∧ m.notifies = true ∧ m.isEstablish = false := by
  rw [perform_loop, ← removeConnection_mem_callbacks]
  by_cases hl : l' = l
  · simp [hl, or_comm, and_comm, eq_comm]
  · simp [hl]

/-- An action performs a method, or tells nobody anything and leaves the removals where they are. -/
theorem after_performs (s : TcpServer υ) (a : Action υ) :
    (∃ l c m, s.job a = some (l, c, m) ∧ s.after a = (s.book a).perform l c m) ∨
    ((s.after a).conn = (s.book a).conn ∧ ∀ l c, (c, Task.removeConnection) ∈
      ((s.after a).loop l).todo ↔ (c, Task.removeConnection) ∈ ((s.book a).loop l).todo) := by
  rcases s.after_cases a with ⟨l, c, m, hb, hafter⟩ | ⟨t, l, f, hr, hafter⟩ | ⟨-, -, hafter⟩
  · exact .inl ⟨l, c, m, job_of_branch hb, hafter⟩
  · rw [hafter, runInLoop]
    split
    case isFalse => exact .inr ⟨rfl, fun l' c => by rw [queueInLoop_loop]⟩
    case isTrue ht =>
      rcases (s.book a).exec_cases l a.answer f with ⟨c, rfl, hexec⟩ | ⟨m, hm, -, hexec⟩ |
        ⟨-, -, hexec⟩ | ⟨c, cb, rfl, -, hexec⟩ <;> rw [hexec]
      · exact .inr ⟨rfl, fun l' c' => by rw [removeConnectionInLoop, queueInLoop_loop]⟩
      · refine .inl ⟨l, f.target, m, ?_, rfl⟩
        rw [job_of_request hr, if_pos ht, hm]
        rfl
      · exact .inr ⟨rfl, fun _ _ => Iff.rfl⟩
      · refine .inr ⟨rfl, fun l' c' => ?_⟩
        by_cases hl : l' = l
        · subst hl
          simp [enterCallback, onLoop_self]
        · rw [enterCallback, onLoop_ne hl]
  · exact .inr ⟨congrArg TcpServer.conn hafter, fun l c => by rw [hafter]⟩

/-- An action's own change takes up no removal. -/
theorem mem_todo_of_book (ha : s.Ready a)
    (h : (c, Task.removeConnection) ∈ ((s.book a).loop l).todo) :
    (c, Task.removeConnection) ∈ (s.loop l).todo := by
  obtain heq | ⟨-, heq | ⟨c', hevent⟩⟩ := todo_book ha l
  · rwa [heq] at h
  · rw [heq] at h
    exact List.mem_of_mem_tail h
  · have hmem := hevent _ h
    unfold handleEvent at hmem
    split at hmem
    · obtain ⟨task, htask, heq⟩ := List.mem_map.mp hmem
      obtain rfl : task = .removeConnection := congrArg Prod.snd heq
      simp [Channel.handleEventWithGuard] at htask
    · cases hmem

/-- A removal is taken up by its task, and by nothing else. -/
theorem mem_todo_book (ha : s.Ready a) (h : (c, Task.removeConnection) ∈ (s.loop l).todo) :
    (c, Task.removeConnection) ∈ ((s.book a).loop l).todo ∨
      ∃ k, a = .task l k ∧ (s.loop l).todo.head? = some (c, .removeConnection) := by
  obtain ⟨r, rest, hcons⟩ := List.exists_cons_of_ne_nil (List.ne_nil_of_mem h)
  have htail : (c, Task.removeConnection) ≠ r →
      (c, Task.removeConnection) ∈ (s.loop l).todo.tail := by
    intro hne
    rw [hcons] at h ⊢
    exact (List.mem_cons.mp h).resolve_left hne
  have honLoop : ∀ (l' : LoopId) (g : ServerLoop υ → ServerLoop υ),
      (l = l' → (c, Task.removeConnection) ∈ (g (s.loop l)).todo) →
        (c, Task.removeConnection) ∈ ((s.onLoop l' g).loop l).todo := by
    intro l' g hg
    by_cases hl : l = l'
    · subst hl
      rw [onLoop_self]
      exact hg rfl
    · rwa [onLoop_ne hl]
  cases a with
  | task l' k =>
    by_cases hhead : l = l' ∧ (c, .removeConnection) = r
    · obtain ⟨rfl, rfl⟩ := hhead
      exact .inr ⟨k, rfl, by rw [hcons]; rfl⟩
    · rw [book]
      exact .inl (honLoop l' _ fun hl => htail fun hr => hhead ⟨hl, hr⟩)
  | ret l' =>
    rw [book]
    refine .inl (honLoop l' _ fun hl => htail ?_)
    rintro rfl
    obtain ⟨-, r, hr, huser⟩ := ha
    subst hl
    rw [hcons] at hr
    cases hr
    cases huser
  | dispatch l' =>
    rw [book]
    refine .inl (honLoop l' _ fun hl => ?_)
    subst hl
    rw [ha.1.2.1] at h
    cases h
  | test l' =>
    rw [book]
    refine .inl (honLoop l' _ fun _ => ?_)
    obtain ⟨stage, heq, -⟩ := (s.loop l).testQuit_eq l'
    rwa [heq]
  | enter l' => rw [book]; exact .inl (honLoop l' _ fun _ => h)
  | poll l' reports =>
    exact .inl (honLoop l' (fun L =>
      { L with stage := .dispatching, activeChannels_ := reports.map Prod.fst }) fun _ => h)
  | doPendingFunctors l' => rw [book]; exact .inl (honLoop l' _ fun _ => h)
  | functor l' k => rw [book]; exact .inl (honLoop l' _ fun _ => h)
  | donePendingFunctors l' => rw [book]; exact .inl (honLoop l' _ fun _ => h)
  | endLoop i =>
    rw [book]
    exact .inl (honLoop (.sub i) _ fun _ => by rwa [ServerLoop.endNext_todo])
  | quit t l' => rw [book]; exact .inl (honLoop l' _ fun _ => h)
  | send t c' data => rw [book]; split <;> exact .inl h
  | shutdown t c' => rw [book]; split <;> exact .inl h
  | retrieve l' len => rw [book]; split <;> exact .inl h
  | stop =>
    rw [book, stopNext]
    cases s.phase with
    | stopping i =>
      simp only
      split
      · exact .inl h
      · exact .inl (honLoop (.sub i) (fun L => { L with quit_ := true }) fun _ => h)
    | _ => exact .inl h
  | _ => exact .inl h

/-! ## Nothing lost -/

/-- Who has been told stays told. -/
theorem down_after (hc : c < s.made) (hdown : s.Down c) : (s.after a).Down c := by
  have hbook : (s.book a).Down c := by rwa [Down, notified_book s a hc]
  rcases s.after_performs a with ⟨l, c', m, -, hafter⟩ | ⟨hconn, -⟩
  · rw [hafter]
    exact down_perform.mpr (.inl hbook)
  · rwa [Down, hconn]

/-- **A removal on its way goes on**, or is done. -/
theorem Sound.leaving_after (h : s.Sound) (ha : s.Ready a) (hc : c < s.made) (hl : s.Leaving c) :
    (s.after a).Leaving c ∨ c ∈ s.removal a := by
  have hdone : ∀ t l, s.request a = some (t, l, .removeConnectionInLoop c) → t = .loop l →
      c ∈ s.removal a := by
    rintro t l hr rfl
    have hremoves := removes_iff.mpr ⟨l, hr⟩
    exact Option.mem_toList.mpr (book_of_removes ha hremoves).2.1
  obtain htodo | hwait := hl
  · obtain hbook | ⟨k, rfl, hhead⟩ := mem_todo_book ha htodo
    · left
      left
      rw [s.after_home_of_lt a hc]
      rcases s.after_performs a with ⟨l, c', m, -, hafter⟩ | ⟨-, hsame⟩
      · rw [hafter]
        exact mem_todo_perform.mpr (.inl hbook)
      · exact (hsame _ _).mpr hbook
    · -- `removeConnection` itself
      have hr : s.request (.task (s.conn c).home k) =
          some (.loop (s.conn c).home, .base, .removeConnectionInLoop c) := by
        simp only [request, hhead]
      by_cases hbase : (.loop (s.conn c).home : Thread υ) = .loop .base
      · exact .inr (hdone _ _ hr hbase)
      · refine .inl (.inr (List.mem_append_right _ (mem_pending_of_push hr hbase ?_)))
        exact ((h.book ha).staged .base).base rfl
  · obtain hstill | hr | ⟨hdiscards, -⟩ := h.waiting_after ha hwait
    · exact .inl (.inr hstill)
    · exact .inr (hdone _ _ hr rfl)
    · exact absurd hdiscards discards_ne_base

/-- **Who is told down now is leaving.** -/
theorem Sound.leaving_of_down (h : s.Sound) (ha : s.Ready a) (hc : c < (s.after a).made)
    (hdown : (s.after a).Down c) : c < s.made ∧ s.Down c ∨ (s.after a).Leaving c := by
  have hbefore : (s.book a).Down c → c < s.made ∧ s.Down c := by
    intro hbook
    rw [(s.after_frame a).made] at hc
    obtain hlt | ⟨sockfd, rfl, rfl⟩ := lt_book_made hc
    · rw [Down, notified_book s a hlt] at hbook
      exact ⟨hlt, hbook⟩
    · simp [Down, TcpServer.book, TcpServer.accept] at hbook
  rcases s.after_performs a with ⟨l, c', m, hj, hafter⟩ | ⟨hconn, -⟩
  · rw [hafter] at hdown
    obtain hbook | ⟨rfl, hnotifies⟩ := down_perform.mp hdown
    · exact .inl (hbefore hbook)
    · have hhome : ((s.after a).conn c).home = l := by
        rw [after_home]
        exact (h.performs_of_job ha hj).home
      refine .inr (.inl ?_)
      rw [hhome, hafter]
      exact mem_todo_perform.mpr (.inr ⟨rfl, rfl, hnotifies⟩)
  · rw [Down, hconn] at hdown
    exact .inl (hbefore hdown)

/-- **Who is leaving has been told.** -/
theorem Sound.down_of_leaving (h : s.Sound) (ha : s.Ready a)
    (htold : ∀ c, s.Leaving c → s.Down c) (hl : (s.after a).Leaving c) : (s.after a).Down c := by
  have hbefore : s.Leaving c → (s.after a).Down c := by
    intro hleaving
    have hlt : c < s.made := by
      obtain htodo | hwait := hleaving
      · exact h.made c ((h.placed _).todo _ htodo).2
      · exact (h.placed _).target _ (ServerLoop.mem_functors_of_waiting hwait)
    exact down_after hlt (htold c hleaving)
  have htodo : ∀ l, (c, Task.removeConnection) ∈ (s.loop l).todo → s.Leaving c := by
    intro l hmem
    refine .inl ?_
    rwa [((h.placed l).todo _ hmem).1]
  obtain hmem | hwait := hl
  · rcases s.after_performs a with ⟨l, c', m, -, hafter⟩ | ⟨-, hsame⟩
    · rw [hafter] at hmem
      obtain hbook | ⟨-, rfl, hnotifies⟩ := mem_todo_perform.mp hmem
      · exact hbefore (htodo _ (mem_todo_of_book ha hbook))
      · rw [hafter]
        exact down_perform.mpr (.inr ⟨rfl, hnotifies⟩)
    · exact hbefore (htodo _ (mem_todo_of_book ha ((hsame _ _).mp hmem)))
  · obtain ⟨added, hwaiting, hadded⟩ := s.after_waiting a .base
    rw [hwaiting] at hwait
    obtain hold | hnew := List.mem_append.mp hwait
    · exact hbefore (.inr (h.mem_waiting_of_book ha hold))
    · obtain ⟨c', cb, heq, -⟩ | ⟨t, hr, ht⟩ := hadded _ hnew
      · cases heq
      · generalize hf : ServerFunctor.removeConnectionInLoop c = f at hr
        generalize LoopId.base = l at hr ht
        cases asks_of_request ha hr with
        | functor => exact absurd rfl ht
        | removal l k c' hhead =>
          cases hf
          exact hbefore (htodo l (List.mem_of_mem_head? hhead))
        | _ => cases hf

/-- **Who is removed has been told**, but by the destructor. -/
theorem Sound.down_of_removal (h : s.Sound) (ha : s.Ready a) (hrun : ∀ c, a ≠ .destroyNext c)
    (htold : ∀ c, s.Leaving c → s.Down c) (hc : c ∈ s.removal a) : c < s.made ∧ s.Down c := by
  have hpassed : s.passesOn a = some c := Option.mem_toList.mp hc
  have hremoves : s.removes a = some c := by
    cases a with
    | destroyNext c' => exact absurd rfl (hrun c')
    | _ => exact hpassed
  refine ⟨(h.lt_made_of_passesOn ha hpassed).1, ?_⟩
  obtain ⟨l, hr⟩ := removes_iff.mp hremoves
  generalize (.loop l : Thread υ) = t at hr
  generalize hf : ServerFunctor.removeConnectionInLoop c = f at hr
  cases asks_of_request ha hr with
  | functor _ k _ rest hrest =>
    subst hf
    have hmem : .removeConnectionInLoop c ∈ (s.loop l).waiting := by
      simp [ServerLoop.waiting, hrest]
    obtain rfl : .base = l := (h.placed l).owner _ (ServerLoop.mem_functors_of_waiting hmem)
    exact htold c (.inr hmem)
  | removal l' k c' hhead =>
    cases hf
    have hmem := List.mem_of_mem_head? hhead
    refine htold c (.inl ?_)
    rwa [((h.placed l').todo _ hmem).1]
  | _ => cases hf

/-! ## Every run -/

/-- **What is gone and what has been told**: who is down has been taken out or is leaving, and
nobody else. -/
structure Parted (s : TcpServer υ) (removed : List ℕ) : Prop where
  sound : s.Sound
  gone : ∀ c < s.made, s.Down c → c ∈ removed ∨ s.Leaving c
  leaving : ∀ c, s.Leaving c → s.Down c
  removed : ∀ c ∈ removed, c < s.made ∧ s.Down c

omit [DecidableEq υ] in
theorem start_parted (n : ℕ) (b : Bool) : (start n b : TcpServer υ).Parted [] where
  sound := start_sound n b
  gone := nofun
  leaving c hc := by
    obtain htodo | hwait := hc
    · cases htodo
    · cases hwait
  removed := nofun

theorem Parted.next (h : s.Parted removed) (ha : s.Ready a) (hrun : ∀ c, a ≠ .destroyNext c) :
    (s.after a).Parted (removed ++ s.removal a) where
  sound := h.sound.next ha
  gone c hc hdown := by
    obtain ⟨hlt, hbefore⟩ | hleaving := h.sound.leaving_of_down ha hc hdown
    · obtain hmem | hleaving := h.gone c hlt hbefore
      · exact .inl (List.mem_append_left _ hmem)
      · exact (h.sound.leaving_after ha hlt hleaving).symm.imp_left (List.mem_append_right _)
    · exact .inr hleaving
  leaving c hl := h.sound.down_of_leaving ha h.leaving hl
  removed c hc := by
    have hold : c < s.made ∧ s.Down c := (List.mem_append.mp hc).elim (h.removed c)
      (h.sound.down_of_removal ha hrun h.leaving)
    exact ⟨lt_made_after hold.1, down_after hold.1 hold.2⟩

/-- The destructor takes nothing out. -/
def Stays (_ : TcpServer υ) (a : Action υ) : Prop := a.destroys = none

instance (s : TcpServer υ) (a : Action υ) : Decidable (s.Stays a) :=
  inferInstanceAs (Decidable (_ = _))

theorem Parted.run {as : List (Action υ)} (h : s.Parted removed) (hvalid : steps.Valid s as)
    (hstays : steps.Along Stays s as) :
    (steps.run s as).Parted (removed ++ steps.collect removal s as) := by
  induction as generalizing s removed with
  | nil => simpa using h
  | cons a as ih =>
    rw [Machine.collect_cons, ← List.append_assoc]
    have hrun : ∀ c, a ≠ .destroyNext c := by
      rintro c rfl
      cases hstays.1
    exact ih (h.next hvalid.1.1 hrun) hvalid.2 hstays.2

/-- **The map follows what has been told**: a connection leaves it after the user has been told that
it is down, and one that the user has been told of is out of it or on its way. -/
theorem down_follows (n : ℕ) (b : Bool) (as : List (Action υ)) (c : ℕ)
    (h : steps.Valid (start n b) as) (hstays : steps.Along Stays (start n b) as)
    (hfew : (steps.run (start n b) as).made ≤ 2 ^ 32) (hc : c < (steps.run (start n b) as).made) :
    (¬ (steps.run (start n b) as).InMap c → (steps.run (start n b) as).Down c) ∧
      ((steps.run (start n b) as).Down c → (steps.run (start n b) as).InMap c →
        (steps.run (start n b) as).Leaving c) := by
  have hparted := (start_parted n b).run h hstays
  have hmap := inMap_iff_of_few h hfew hc
  rw [List.nil_append] at hparted
  exact ⟨fun hnot => (hparted.removed c (not_not.mp (mt hmap.mpr hnot))).2,
    fun hdown hin => (hparted.gone c hc hdown).resolve_left (hmap.mp hin)⟩

omit [DecidableEq υ] in
/-- The loops have nothing left to do, and no thread has a pointer. -/
def AtRest (s : TcpServer υ) : Prop :=
  (∀ l ∈ s.loops, (s.loop l).functors = [] ∧ (s.loop l).todo = []) ∧ s.held = []

instance (s : TcpServer υ) : Decidable s.AtRest :=
  inferInstanceAs (Decidable ((∀ l ∈ s.loops, _ ∧ _) ∧ _))

omit [DecidableEq υ] in
/-- At rest only the map holds anything, -/
theorem AtRest.strong_iff (h : s.AtRest) : s.Strong c ↔ s.InMap c := by
  refine ⟨?_, .inl⟩
  rintro (hmap | ⟨l, hl, ⟨f, hf, -⟩ | htodo⟩ | hheld)
  · exact hmap
  · rw [(h.1 l hl).1] at hf
    cases hf
  · rw [(h.1 l hl).2] at htodo
    cases htodo
  · rw [h.2] at hheld
    cases hheld

omit [DecidableEq υ] in
/-- and nobody is leaving. -/
theorem AtRest.not_leaving (h : s.AtRest) (hs : s.Sound) : ¬ s.Leaving c := by
  rintro (htodo | hwait)
  · rw [(h.1 _ (hs.home c)).2] at htodo
    cases htodo
  · have hmem := ServerLoop.mem_functors_of_waiting hwait
    rw [(h.1 .base List.mem_cons_self).1] at hmem
    cases hmem

end TcpServer

end Mymuduo
