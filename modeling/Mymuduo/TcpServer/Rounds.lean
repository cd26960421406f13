import Mymuduo.TcpServer.Rest

/-!
# TcpServer/Rounds — who is done with is let go within three rounds

A server is hardly ever at rest; but where nobody sends on a connection or asks for a pointer to it,
and the poller has nothing more to report of it, the server comes to the end of it, whatever else it
does meanwhile:

    round 1   no event of it is in hand any more
    round 2   no message is to be sent on it, and no removal of it is on its way
    round 3   nothing is queued for it

What holds it then is the map.  A round of a loop is a batch taken up and finished; each of the
three asks one of the connection's loop and one of the base loop.
-/

namespace Mymuduo

open Machinery TcpConnection

namespace ServerFunctor

variable {υ : Type*}

/-- A message to be sent on `c`. -/
def sends (c : ℕ) : ServerFunctor υ → Bool
  | of c' (.sendInLoop _ _) => c' = c
  | connectEstablished _ | removeConnectionInLoop _ | of _ _ => false

/-- The removal of `c` from the map. -/
def isRemovalOf (c : ℕ) : ServerFunctor υ → Bool
  | removeConnectionInLoop c' => c' = c
  | connectEstablished _ | of _ _ => false

/-- Anything about `c`. -/
def isAbout (c : ℕ) (f : ServerFunctor υ) : Bool := f.target = c

end ServerFunctor

namespace ServerLoop

variable {υ : Type*}

/-- No functor of a kind is in the queue, the batch aside. -/
def Swept (p : ServerFunctor υ → Bool) (L : ServerLoop υ) : Prop :=
  ∀ f ∈ L.pendingFunctors_, p f = false

/-- None is in the loop at all. -/
def Cleared (p : ServerFunctor υ → Bool) (L : ServerLoop υ) : Prop :=
  ∀ f ∈ L.functors, p f = false

end ServerLoop

namespace TcpServer

variable {υ : Type*} [DecidableEq υ] {s : TcpServer υ} {a : Action υ} {l : LoopId} {c : ℕ}
  {m : Method (Thread υ)} {f : ServerFunctor υ} {r : ℕ × Task}

/-! ## What an action leaves about a connection -/

/-- **What a thread has to do after an action**: what it had, or the callbacks of a method, or the
callback a functor is. -/
theorem mem_todo_after (h : r ∈ ((s.after a).loop l).todo) :
    r ∈ ((s.book a).loop l).todo ∨
    (∃ m, s.job a = some (l, r.1, m) ∧ r.2 ∈ m.callbacks) ∨
    r.2 = .user ∧ ∃ cb, cb.isCallback = true ∧ s.request a = some (.loop l, l, .of r.1 cb) := by
  have hperform : ∀ (l' : LoopId) (c : ℕ) (m : Method (Thread υ)),
      r ∈ (((s.book a).perform l' c m).loop l).todo →
        r ∈ ((s.book a).loop l).todo ∨ l = l' ∧ r.1 = c ∧ r.2 ∈ m.callbacks := by
    intro l' c m hr
    rw [perform_loop] at hr
    obtain hnew | hold := List.mem_append.mp hr
    · split at hnew
      case isTrue hl =>
        obtain ⟨task, htask, rfl⟩ := List.mem_map.mp hnew
        exact .inr ⟨hl, rfl, htask⟩
      case isFalse => cases hnew
    · exact .inl hold
  rcases s.after_cases a with ⟨l', c, m, hb, hafter⟩ | ⟨t, l', f, hr, hafter⟩ | ⟨-, -, hafter⟩ <;>
    rw [hafter] at h
  · obtain hold | ⟨rfl, rfl, hcb⟩ := hperform l' c m h
    · exact .inl hold
    · exact .inr (.inl ⟨m, job_of_branch hb, hcb⟩)
  · rw [runInLoop] at h
    split at h
    case isFalse =>
      rw [queueInLoop_loop] at h
      exact .inl h
    case isTrue ht =>
      subst ht
      rcases (s.book a).exec_cases l' a.answer f with ⟨c, rfl, hexec⟩ | ⟨m, hm, -, hexec⟩ |
        ⟨-, -, hexec⟩ | ⟨c, cb, rfl, hcb, hexec⟩ <;> rw [hexec] at h
      · rw [removeConnectionInLoop, queueInLoop_loop] at h
        exact .inl h
      · obtain hold | ⟨rfl, htarget, hcb⟩ := hperform l' f.target m h
        · exact .inl hold
        · refine .inr (.inl ⟨m, ?_, hcb⟩)
          rw [job_of_request hr, if_pos rfl, hm, htarget]
          rfl
      · exact .inl h
      · by_cases hl : l = l'
        · subst hl
          rw [enterCallback, onLoop_self] at h
          obtain rfl | hold := List.mem_cons.mp h
          · exact .inr (.inr ⟨rfl, cb, hcb, hr⟩)
          · exact .inl hold
        · rw [enterCallback, onLoop_ne hl] at h
          exact .inl h
  · exact .inl h

/-- **What is queued after an action**: what was, what a method queues, the `connectDestoryed` that
follows a removal, or what is pushed. -/
theorem mem_pending_after (h : f ∈ ((s.after a).loop l).pendingFunctors_) :
    f ∈ ((s.book a).loop l).pendingFunctors_ ∨
    (∃ l' c m, s.job a = some (l', c, m) ∧ f ∈ (s.book a).queued c m) ∨
    (∃ c, s.removes a = some c ∧ f = .of c .connectDestoryed) ∨
    ∃ t, s.request a = some (t, l, f) ∧ t ≠ .loop l := by
  have hperform : ∀ (l' : LoopId) (c : ℕ) (m : Method (Thread υ)),
      f ∈ (((s.book a).perform l' c m).loop l).pendingFunctors_ →
        f ∈ ((s.book a).loop l).pendingFunctors_ ∨ f ∈ (s.book a).queued c m := by
    intro l' c m hf
    rw [perform_loop] at hf
    obtain hold | hnew := List.mem_append.mp hf
    · exact .inl hold
    · split at hnew
      · exact .inr hnew
      · cases hnew
  rcases s.after_cases a with ⟨l', c, m, hb, hafter⟩ | ⟨t, l', g, hr, hafter⟩ | ⟨-, -, hafter⟩ <;>
    rw [hafter] at h
  · exact (hperform l' c m h).imp_right fun hq => .inl ⟨l', c, m, job_of_branch hb, hq⟩
  · rw [runInLoop] at h
    split at h
    case isFalse ht =>
      obtain ⟨added, hadded, heq⟩ := pending_queueInLoop (s := s.book a) (l := l') (f := g) l
      rw [heq] at h
      obtain hold | hnew := List.mem_append.mp h
      · exact .inl hold
      · obtain ⟨rfl, rfl⟩ := hadded f hnew
        exact .inr (.inr (.inr ⟨t, hr, ht⟩))
    case isTrue ht =>
      subst ht
      rcases (s.book a).exec_cases l' a.answer g with ⟨c, rfl, hexec⟩ | ⟨m, hm, -, hexec⟩ |
        ⟨-, -, hexec⟩ | ⟨c, cb, rfl, hcb, hexec⟩ <;> rw [hexec] at h
      · rw [removeConnectionInLoop, queueInLoop_loop] at h
        obtain hold | hnew := List.mem_append.mp h
        · exact .inl hold
        · split at hnew
          · exact .inr (.inr (.inl ⟨c, removes_iff.mpr ⟨l', hr⟩, List.mem_singleton.mp hnew⟩))
          · cases hnew
      · refine (hperform l' g.target m h).imp_right fun hq => .inl ⟨l', g.target, m, ?_, hq⟩
        rw [job_of_request hr, if_pos rfl, hm]
        rfl
      · exact .inl h
      · by_cases hl : l = l'
        · subst hl
          rw [enterCallback, onLoop_self] at h
          exact .inl h
        · rw [enterCallback, onLoop_ne hl] at h
          exact .inl h
  · exact .inl h

/-! ## A round of a loop -/

/-- The thread of `l` takes a batch up and finishes it. -/
def batch (l : LoopId) : List (Action υ) := [.doPendingFunctors l, .donePendingFunctors l]

/-- A round of each of these loops, one after the other. -/
def Rounds (ls : List LoopId) (as : List (Action υ)) : Prop := (ls.flatMap batch).Sublist as

section Round

variable {p : ServerFunctor υ → Bool}

/-- The swap leaves the queue empty. -/
theorem swept_doPendingFunctors : ((s.after (.doPendingFunctors l)).loop l).Swept p := by
  have hafter : s.after (.doPendingFunctors l) = s.book (.doPendingFunctors l) := rfl
  rw [hafter, book, onLoop_self]
  intro f hf
  cases hf

/-- What is swept stays swept, if no functor of the kind is pushed. -/
theorem swept_after (h : (s.loop l).Swept p) (ha : s.Ready a)
    (hpush : ∀ f ∈ ((s.after a).loop l).pendingFunctors_, p f = true →
      f ∈ ((s.book a).loop l).pendingFunctors_) : ((s.after a).loop l).Swept p := by
  intro f hf
  by_contra hp
  have hbook := hpush f hf (by simpa using hp)
  have hold : f ∈ (s.loop l).pendingFunctors_ := by
    have hstep := book_loop ha l
    generalize (s.book a).loop l = L at hstep hbook
    cases hstep with
    | test hat =>
      obtain ⟨stage, heq, -⟩ := (s.loop l).testQuit_eq l
      rw [heq] at hbook
      exact hbook
    | discard i hl hstage => cases hbook
    | swap hat hactive => cases hbook
    | _ => exact hbook
  exact hp (h f hold)

/-- **The batch ends**, and with it the last functors of the kind. -/
theorem cleared_donePendingFunctors (h : (s.loop l).Swept p)
    (ha : s.Ready (.donePendingFunctors l)) :
    ((s.after (.donePendingFunctors l)).loop l).Cleared p := by
  have hafter : s.after (.donePendingFunctors l) = s.book (.donePendingFunctors l) := rfl
  rw [hafter, book, onLoop_self]
  intro f hf
  simp only [ServerLoop.functors, ha.2, List.append_nil] at hf
  exact h f hf

/-- What is cleared stays cleared, if no functor of the kind is pushed. -/
theorem cleared_after (h : (s.loop l).Cleared p) (ha : s.Ready a)
    (hpush : ∀ f ∈ ((s.after a).loop l).pendingFunctors_, p f = true →
      f ∈ ((s.book a).loop l).pendingFunctors_) : ((s.after a).loop l).Cleared p := by
  have hbook : ∀ f ∈ ((s.book a).loop l).functors, f ∈ (s.loop l).functors := by
    intro f hf
    have hstep := book_loop ha l
    generalize (s.book a).loop l = L at hstep hf
    cases hstep with
    | test hat =>
      obtain ⟨stage, heq, -⟩ := (s.loop l).testQuit_eq l
      rw [heq] at hf
      exact hf
    | discard i hl hstage => exact List.mem_append_right _ hf
    | swap hat hactive =>
      simp only [ServerLoop.functors, List.nil_append, List.mem_append] at hf ⊢
      tauto
    | take k hat hrest =>
      simp only [ServerLoop.functors, List.mem_append] at hf ⊢
      rcases hf with hf | (hf | hf) | hf
      · exact .inl hf
      · exact .inr (.inl hf)
      · exact .inr (.inr (List.mem_of_mem_take hf))
      · exact .inr (.inr (List.mem_of_mem_tail hf))
    | done hat hrest =>
      simp only [ServerLoop.functors, List.nil_append, List.mem_append] at hf ⊢
      tauto
    | _ => exact hf
  intro f hf
  by_contra hp
  refine hp (h f (hbook f ?_))
  rw [ServerLoop.functors, (s.after_frame a).ran, (s.after_frame a).rest] at hf
  obtain hpending | hbatch := List.mem_append.mp hf
  · exact List.mem_append_left _ (hpush f hpending (by simpa using hp))
  · exact List.mem_append_right _ hbatch

end Round

/-! ## Left alone -/

/-- Nobody sends on `c`, shuts it down or is given a pointer to it, the destructor does not come to
it, and the poller does not report it. -/
def LeavesAlone (c : ℕ) (s : TcpServer υ) : Action υ → Prop
  | .poll _ reports => c ∉ reports.map Prod.fst
  | .sendRun t _ | .shutdownRun t => s.callee t ≠ c
  | .share _ _ c' | .destroyNext c' => c' ≠ c
  | _ => True

instance (c : ℕ) (s : TcpServer υ) (a : Action υ) : Decidable (s.LeavesAlone c a) := by
  unfold LeavesAlone
  split <;> infer_instance

omit [DecidableEq υ] in
/-- A connection of `l` that no thread has a pointer to. -/
structure Alone (s : TcpServer υ) (c : ℕ) (l : LoopId) : Prop where
  sound : s.Sound
  made : c < s.made
  home : (s.conn c).home = l
  held : c ∉ s.held.map Prod.snd

theorem Alone.next (h : s.Alone c l) (ha : s.Ready a) (hquiet : s.LeavesAlone c a) :
    (s.after a).Alone c l where
  sound := h.sound.next ha
  made := lt_made_after h.made
  home := (s.after_home_of_lt a h.made).trans h.home
  held := by
    rw [(s.after_frame a).held]
    have hold := h.held
    have hstep := s.book_server a
    generalize s.book a = s' at hstep ⊢
    cases hstep with
    | share t t' c' =>
      rintro hmem
      obtain rfl | hmem := List.mem_cons.mp hmem
      · exact hquiet rfl
      · exact hold hmem
    | release t c' =>
      exact fun hmem => hold ((List.erase_sublist.map Prod.snd).subset hmem)
    | stop _ _ _ hheld => rwa [hheld]
    | other _ _ _ _ hheld => rwa [hheld]
    | _ => exact hold

omit [DecidableEq υ] in
/-- A functor about `c` is its loop's, but for its removal. -/
theorem Alone.owner (h : s.Alone c l) {l' : LoopId} (hf : f ∈ (s.loop l').functors)
    (hc : f.target = c) :
    f.isRemovalOf c = true ∧ l' = .base ∨ f.isRemovalOf c = false ∧ l' = l := by
  have howner := (h.sound.placed l').owner f hf
  rcases f with c' | c' | ⟨c', g⟩ <;> obtain rfl : c' = c := hc
  · exact .inr ⟨rfl, howner.symm.trans h.home⟩
  · exact .inl ⟨decide_eq_true rfl, howner.symm⟩
  · exact .inr ⟨rfl, howner.symm.trans h.home⟩

omit [DecidableEq υ] in
/-- **A functor about `c` that is run comes from a batch**, or from a removal that the thread of its
loop has to make. -/
theorem Alone.request (h : s.Alone c l) (ha : s.Ready a) (hquiet : s.LeavesAlone c a)
    {t : Thread υ} {l' : LoopId} (hr : s.request a = some (t, l', f)) (hc : f.target = c) :
    t = .loop l' ∧ f ∈ (s.loop l').functors ∨
      f = .removeConnectionInLoop c ∧ (c, .removeConnection) ∈ (s.loop l).todo := by
  cases asks_of_request ha hr with
  | functor _ k _ rest hrest =>
    exact .inl ⟨rfl, ServerLoop.mem_functors_of_waiting (by simp [ServerLoop.waiting, hrest])⟩
  | removal l'' k c' hhead =>
    obtain rfl : c' = c := hc
    have hmem := List.mem_of_mem_head? hhead
    have hserves := ((h.sound.placed l'').todo _ hmem).1
    rw [h.home] at hserves
    exact .inr ⟨rfl, hserves.symm ▸ hmem⟩
  | accept sockfd => exact absurd h.made (hc ▸ Nat.lt_irrefl _)
  | send _ k data hcall => exact absurd hc hquiet
  | shutdown _ hcall => exact absurd hc hquiet
  | destroy c' hlt => exact absurd hc hquiet

/-- So no message to be sent on it is pushed. -/
theorem Alone.sends_pushed (h : s.Alone c l) (ha : s.Ready a) (hquiet : s.LeavesAlone c a)
    {l' : LoopId} (hf : f ∈ ((s.after a).loop l').pendingFunctors_) (hp : f.sends c = true) :
    f ∈ ((s.book a).loop l').pendingFunctors_ := by
  obtain hbook | ⟨l'', c', m, -, hq⟩ | ⟨c', -, rfl⟩ | ⟨t, hr, ht⟩ := mem_pending_after hf
  · exact hbook
  · obtain ⟨cb, rfl, hcb⟩ := mem_queued hq
    cases cb <;> first | cases hp | cases hcb
  · cases hp
  · have hc : f.target = c := by
      rcases f with c' | c' | ⟨c', g⟩
      · cases hp
      · cases hp
      · cases g <;> simp_all [ServerFunctor.sends, ServerFunctor.target]
    obtain ⟨rfl, -⟩ | ⟨rfl, -⟩ := h.request ha hquiet hr hc
    · exact absurd rfl ht
    · cases hp

/-! ## The first round: no event is in hand -/

omit [DecidableEq υ] in
/-- The thread of `l` has no event of `c` at hand. -/
structure Unheard (s : TcpServer υ) (c : ℕ) (l : LoopId) : Prop where
  active : c ∉ (s.loop l).activeChannels_
  todo : ∀ task, (c, task) ∈ (s.loop l).todo → task = .user

theorem unheard_doPendingFunctors (ha : s.Ready (.doPendingFunctors l)) :
    (s.after (.doPendingFunctors l)).Unheard c l := by
  have hafter : s.after (.doPendingFunctors l) = s.book (.doPendingFunctors l) := rfl
  obtain ⟨⟨-, htodo, -⟩, hactive⟩ := ha
  constructor <;> rw [hafter, book, onLoop_self] <;> simp [htodo, hactive]

/-- **A method that runs on `c` is that of a functor in the batch.** -/
theorem Unheard.job (hu : s.Unheard c l) (h : s.Alone c l) (ha : s.Ready a)
    (hquiet : s.LeavesAlone c a) {l' : LoopId} (hj : s.job a = some (l', c, m)) :
    l' = l ∧ ∃ f ∈ (s.loop l).functors, f.target = c ∧ f.method a.answer = some m := by
  obtain hb | ⟨f, hr, hm, hc⟩ := job_cases hj
  · exfalso
    cases a with
    | task l'' k =>
      obtain ⟨⟨c', task⟩, hhead, hmap⟩ := Option.bind_eq_some_iff.mp hb
      obtain ⟨m', hm', heq⟩ := Option.map_eq_some_iff.mp hmap
      obtain ⟨rfl, rfl, rfl⟩ : l'' = l' ∧ c' = c ∧ m' = m := by simpa using heq
      have hmem := List.mem_of_mem_head? hhead
      have hserves := ((h.sound.placed l'').todo _ hmem).1
      rw [h.home] at hserves
      subst hserves
      obtain rfl := hu.todo task hmem
      cases hm'
    | _ => cases hb
  · obtain ⟨-, hmem⟩ | ⟨rfl, -⟩ := h.request ha hquiet hr hc
    · obtain ⟨hremoval, -⟩ | ⟨-, rfl⟩ := h.owner hmem hc
      · rcases f with c' | c' | ⟨c', g⟩
        · cases hremoval
        · cases hm
        · cases hremoval
      · exact ⟨rfl, f, hmem, hc, hm⟩
    · cases hm

/-- What a thread has at hand it had before, or it is an event that was to be dispatched. -/
theorem mem_todo_or_active (ha : s.Ready a) (h : r ∈ ((s.book a).loop l).todo) :
    r ∈ (s.loop l).todo ∨ r.1 ∈ (s.loop l).activeChannels_ := by
  have hstep := book_loop ha l
  generalize (s.book a).loop l = L at hstep h
  cases hstep with
  | test hat =>
    obtain ⟨stage, heq, -⟩ := (s.loop l).testQuit_eq l
    rw [heq] at h
    exact .inl h
  | dispatch hat =>
    obtain ⟨c', hc', hevent⟩ := List.mem_flatMap.mp h
    rw [fst_of_handleEvent hevent]
    exact .inr (List.mem_of_mem_take hc')
  | tail _ hfree => exact .inl (List.mem_of_mem_tail h)
  | _ => exact .inl h

theorem Unheard.next (hu : s.Unheard c l) (h : s.Alone c l) (ha : s.Ready a)
    (hquiet : s.LeavesAlone c a) : (s.after a).Unheard c l := by
  constructor
  · rw [(s.after_frame a).activeChannels_]
    have hactive := hu.active
    have hstep := book_loop ha l
    generalize (s.book a).loop l = L at hstep ⊢
    cases hstep with
    | test hat =>
      obtain ⟨stage, heq, -⟩ := (s.loop l).testQuit_eq l
      rwa [heq]
    | poll reports hat hr => exact hquiet
    | dispatch hat => exact fun hmem => hactive (List.mem_of_mem_tail hmem)
    | _ => exact hactive
  · intro task hmem
    obtain hbook | ⟨m, hj, hcb⟩ | ⟨huser, -⟩ := mem_todo_after hmem
    · exact (mem_todo_or_active ha hbook).elim (hu.todo task) fun hc => absurd hc hu.active
    · obtain ⟨-, f, -, -, hm⟩ := hu.job h ha hquiet hj
      rcases f with c' | c' | ⟨c', g⟩
      · cases hm
        exact List.mem_singleton.mp hcb
      · cases hm
      · cases g <;> cases hm <;> cases hcb
    · exact huser

/-- An action beside `c`. -/
def Beside (c : ℕ) (s : TcpServer υ) (a : Action υ) : Prop := steps.enabled s a ∧ s.LeavesAlone c a

omit [DecidableEq υ] in
/-- After the first round. -/
structure Stilled (s : TcpServer υ) (c : ℕ) (l : LoopId) : Prop where
  alone : s.Alone c l
  unheard : s.Unheard c l
  sends : (s.loop l).Cleared (ServerFunctor.sends c)

theorem Stilled.next (h : s.Stilled c l) (ha : s.Beside c a) : (s.after a).Stilled c l where
  alone := h.alone.next ha.1.1 ha.2
  unheard := h.unheard.next h.alone ha.1.1 ha.2
  sends := cleared_after h.sends ha.1.1 fun _ hf hp => h.alone.sends_pushed ha.1.1 ha.2 hf hp

theorem Alone.round {as : List (Action υ)} (h : s.Alone c l) (hrun : steps.Along (Beside c) s as)
    (hround : (batch l).Sublist as) : (steps.run s as).Stilled c l := by
  have hnext : ∀ (s : TcpServer υ) (a : Action υ), s.Alone c l → s.Beside c a →
      (s.after a).Alone c l := fun s a hs ha => hs.next ha.1.1 ha.2
  refine hrun.of_turn (I := fun s => s.Alone c l)
    (A := fun s => s.Unheard c l ∧ (s.loop l).Swept (ServerFunctor.sends c))
    (B := fun s => s.Stilled c l) hnext ?_ ?_ ?_ ?_ h hround
  · exact fun s hs ha => ⟨unheard_doPendingFunctors ha.1.1, swept_doPendingFunctors⟩
  · exact fun s a hs ha hA => ⟨hA.1.next hs ha.1.1 ha.2,
      swept_after hA.2 ha.1.1 fun _ hf hp => hs.sends_pushed ha.1.1 ha.2 hf hp⟩
  · exact fun s hs hA ha => ⟨hnext s _ hs ha, hA.1.next hs ha.1.1 ha.2,
      cleared_donePendingFunctors hA.2 ha.1.1⟩
  · exact fun s a _ _ ha hB => hB.next ha

/-! ## The second round: no removal is on its way -/

omit [DecidableEq υ] in
/-- After the second round. -/
structure Spent (s : TcpServer υ) (c : ℕ) (l : LoopId) : Prop where
  stilled : s.Stilled c l
  removals : (s.loop .base).Cleared (ServerFunctor.isRemovalOf c)

omit [DecidableEq υ] in
theorem Unheard.removal_notMem (h : s.Unheard c l) : (c, .removeConnection) ∉ (s.loop l).todo := by
  intro hmem
  cases h.todo _ hmem

/-- With no event at hand, no removal is pushed. -/
theorem Stilled.removal_pushed (h : s.Stilled c l) (ha : s.Beside c a) {l' : LoopId}
    (hf : f ∈ ((s.after a).loop l').pendingFunctors_) (hp : f.isRemovalOf c = true) :
    f ∈ ((s.book a).loop l').pendingFunctors_ := by
  obtain hbook | ⟨l'', c', m, -, hq⟩ | ⟨c', -, rfl⟩ | ⟨t, hr, ht⟩ := mem_pending_after hf
  · exact hbook
  · obtain ⟨cb, rfl, -⟩ := mem_queued hq
    cases hp
  · cases hp
  · have hc : f.target = c := by
      rcases f with c' | c' | ⟨c', g⟩
      · cases hp
      · exact of_decide_eq_true hp
      · cases hp
    obtain ⟨rfl, -⟩ | ⟨-, hmem⟩ := h.alone.request ha.1.1 ha.2 hr hc
    · exact absurd rfl ht
    · exact absurd hmem h.unheard.removal_notMem

theorem Spent.next (h : s.Spent c l) (ha : s.Beside c a) : (s.after a).Spent c l where
  stilled := h.stilled.next ha
  removals := cleared_after h.removals ha.1.1 fun _ hf hp => h.stilled.removal_pushed ha hf hp

theorem Stilled.round {as : List (Action υ)} (h : s.Stilled c l)
    (hrun : steps.Along (Beside c) s as) (hround : (batch .base).Sublist as) :
    (steps.run s as).Spent c l := by
  refine hrun.of_turn (I := fun s => s.Stilled c l)
    (A := fun s => (s.loop .base).Swept (ServerFunctor.isRemovalOf c)) (B := fun s => s.Spent c l)
    (fun s a hs ha => hs.next ha) ?_ ?_ ?_ ?_ h hround
  · exact fun s hs ha => swept_doPendingFunctors
  · exact fun s a hs ha hA => swept_after hA ha.1.1 fun _ hf hp => hs.removal_pushed ha hf hp
  · exact fun s hs hA ha => ⟨hs.next ha, cleared_donePendingFunctors hA ha.1.1⟩
  · exact fun s a _ _ ha hB => hB.next ha

/-! ## The third round: nothing is queued -/

omit [DecidableEq υ] in
/-- After the third round. -/
structure LetGo (s : TcpServer υ) (c : ℕ) (l : LoopId) : Prop where
  spent : s.Spent c l
  functors : (s.loop l).Cleared (ServerFunctor.isAbout c)
  todo : ∀ task, (c, task) ∉ (s.loop l).todo

omit [DecidableEq υ] in
/-- The methods of functors leave nothing behind, but for a `sendInLoop`. -/
theorem queued_eq_nil {k : Answer} (hm : f.method k = some m) (hc : f.target = c)
    (hsends : f.sends c = false) : s.queued c m = [] := by
  rcases f with c' | c' | ⟨c', g⟩
  · cases hm
    rfl
  · cases hm
  · cases g with
    | connectDestoryed =>
      cases hm
      exact queued_connectDestoryed
    | sendInLoop caller data =>
      obtain rfl : c' = c := hc
      simp [ServerFunctor.sends] at hsends
    | shutdownInLoop =>
      cases hm
      simp only [queued, Method.run, TcpConnection.shutdownInLoop]
      split <;> rfl
    | writeCompleteCallback => cases hm
    | highWaterMarkCallback size => cases hm

/-- **With no event at hand, no message to be sent and no removal on its way, nothing more is queued
for `c`.** -/
theorem Spent.about_pushed (h : s.Spent c l) (ha : s.Beside c a) {l' : LoopId}
    (hf : f ∈ ((s.after a).loop l').pendingFunctors_) (hp : f.isAbout c = true) :
    f ∈ ((s.book a).loop l').pendingFunctors_ := by
  have halone := h.stilled.alone
  have hc : f.target = c := of_decide_eq_true hp
  obtain hbook | ⟨l'', c', m, hj, hq⟩ | ⟨c', hremoves, rfl⟩ | ⟨t, hr, ht⟩ := mem_pending_after hf
  · exact hbook
  · obtain ⟨cb, rfl, -⟩ := mem_queued hq
    obtain rfl : c' = c := hc
    obtain ⟨-, g, hmem, htarget, hm⟩ := h.stilled.unheard.job halone ha.1.1 ha.2 hj
    rw [queued_eq_nil hm htarget (h.stilled.sends g hmem)] at hq
    cases hq
  · obtain rfl : c' = c := hc
    obtain ⟨l'', hr⟩ := removes_iff.mp hremoves
    obtain ⟨-, hmem⟩ | ⟨-, hmem⟩ := halone.request ha.1.1 ha.2 hr rfl
    · obtain ⟨hremoval, rfl⟩ | ⟨hremoval, -⟩ := halone.owner hmem rfl
      · rw [h.removals _ hmem] at hremoval
        cases hremoval
      · simp [ServerFunctor.isRemovalOf] at hremoval
    · exact absurd hmem h.stilled.unheard.removal_notMem
  · obtain ⟨rfl, -⟩ | ⟨-, hmem⟩ := halone.request ha.1.1 ha.2 hr hc
    · exact absurd rfl ht
    · exact absurd hmem h.stilled.unheard.removal_notMem

theorem LetGo.next (h : s.LetGo c l) (ha : s.Beside c a) : (s.after a).LetGo c l where
  spent := h.spent.next ha
  functors := cleared_after h.functors ha.1.1 fun _ hf hp => h.spent.about_pushed ha hf hp
  todo task hmem := by
    have hstilled := h.spent.stilled
    have hnone : ∀ f ∈ (s.loop l).functors, f.target ≠ c := fun f hf hc =>
      Bool.eq_false_iff.mp (h.functors f hf) (decide_eq_true hc)
    obtain hbook | ⟨m, hj, -⟩ | ⟨-, cb, -, hr⟩ := mem_todo_after hmem
    · exact (mem_todo_or_active ha.1.1 hbook).elim (h.todo task) hstilled.unheard.active
    · obtain ⟨-, f, hf, hc, -⟩ := hstilled.unheard.job hstilled.alone ha.1.1 ha.2 hj
      exact hnone f hf hc
    · obtain ⟨-, hf⟩ | ⟨heq, -⟩ := hstilled.alone.request ha.1.1 ha.2 hr rfl
      · exact hnone _ hf rfl
      · cases heq

theorem Spent.round {as : List (Action υ)} (h : s.Spent c l) (hrun : steps.Along (Beside c) s as)
    (hround : (batch l).Sublist as) : (steps.run s as).LetGo c l := by
  refine hrun.of_turn (I := fun s => s.Spent c l)
    (A := fun s => (s.loop l).Swept (ServerFunctor.isAbout c)) (B := fun s => s.LetGo c l)
    (fun s a hs ha => hs.next ha) ?_ ?_ ?_ ?_ h hround
  · exact fun s hs ha => swept_doPendingFunctors
  · exact fun s a hs ha hA => swept_after hA ha.1.1 fun _ hf hp => hs.about_pushed ha hf hp
  · refine fun s hs hA ha => ⟨hs.next ha, cleared_donePendingFunctors hA ha.1.1, ?_⟩
    have hafter : steps.next s (.donePendingFunctors l) = s.book (.donePendingFunctors l) := rfl
    rw [hafter, book, onLoop_self]
    simp [ha.1.1.1.2.1]
  · exact fun s a _ _ ha hB => hB.next ha

omit [DecidableEq υ] in
/-- **Then the map alone holds it**, -/
theorem LetGo.strong_iff (h : s.LetGo c l) : s.Strong c ↔ s.InMap c := by
  have halone := h.spent.stilled.alone
  refine ⟨?_, .inl⟩
  rintro (hmap | ⟨l', -, ⟨f, hf, -, hc⟩ | htodo⟩ | hheld)
  · exact hmap
  · obtain ⟨hremoval, rfl⟩ | ⟨-, rfl⟩ := halone.owner hf hc
    · rw [h.spent.removals f hf] at hremoval
      cases hremoval
    · exact absurd (decide_eq_true hc) (Bool.eq_false_iff.mp (h.functors f hf))
  · obtain ⟨⟨c', task⟩, hmem, rfl⟩ := List.mem_map.mp htodo
    obtain rfl : l = l' := halone.home.symm.trans ((halone.sound.placed l').todo _ hmem).1
    exact absurd hmem (h.todo task)
  · exact absurd hheld halone.held

omit [DecidableEq υ] in
/-- and it is not leaving that. -/
theorem LetGo.not_leaving (h : s.LetGo c l) : ¬ s.Leaving c := by
  rintro (htodo | hwait)
  · rw [h.spent.stilled.alone.home] at htodo
    exact h.todo _ htodo
  · have hremoval := h.spent.removals _ (ServerLoop.mem_functors_of_waiting hwait)
    simp [ServerFunctor.isRemovalOf] at hremoval

/-! ## Every run -/

/-- Three rounds. -/
theorem Alone.rounds {as : List (Action υ)} (h : s.Alone c l)
    (hrun : steps.Along (Beside c) s as) (hrounds : Rounds [l, .base, l] as) :
    (steps.run s as).LetGo c l := by
  obtain ⟨bs₁, bs, rfl, hround₁, hrounds⟩ := List.append_sublist_iff.mp hrounds
  obtain ⟨bs₂, bs₃, rfl, hround₂, hround₃⟩ := List.append_sublist_iff.mp hrounds
  obtain ⟨hrun₁, hrun₂, hrun₃⟩ : steps.Along (Beside c) s bs₁ ∧ _ ∧ _ :=
    (Machine.along_append.mp hrun).imp_right Machine.along_append.mp
  rw [Machine.run_append, Machine.run_append]
  exact ((h.round hrun₁ hround₁).round hrun₂ hround₂).round hrun₃ (by simpa using hround₃)

/-- **Who is done with is let go within three rounds.**  In every run in which `~TcpServer` takes
nothing out and no more than `2 ^ 32` connections have been accepted: from any moment on at which no
thread has a pointer to a connection, while nobody sends on it or shuts it down and the poller does
not report it, a round of its loop, one of the base loop and one of its own again are enough for it
to be destroyed, if the user has been told that it is down; and if not, for nothing to hold it but
the map.  Nothing that is done for the other connections makes it longer. -/
theorem let_go_within (n : ℕ) (b : Bool) (as bs : List (Action υ)) (c : ℕ)
    (h : steps.Valid (start n b) (as ++ bs)) (hstays : steps.Along Stays (start n b) (as ++ bs))
    (hfew : (steps.run (start n b) (as ++ bs)).made ≤ 2 ^ 32)
    (hc : c < (steps.run (start n b) as).made)
    (hheld : c ∉ (steps.run (start n b) as).held.map Prod.snd)
    (halone : steps.Along (LeavesAlone c) (steps.run (start n b) as) bs)
    (hrounds : Rounds [((steps.run (start n b) as).conn c).home, .base,
      ((steps.run (start n b) as).conn c).home] bs) :
    let s := steps.run (start n b) as
    let s' := steps.run s bs
    (s.Down c → ¬ s'.Strong c) ∧ (s'.Strong c ↔ s'.InMap c) ∧ (s'.InMap c ↔ ¬ s'.Down c) := by
  obtain ⟨hbefore, hafter⟩ := Machine.along_append.mp h
  have hsound := hbefore.invariant (I := Sound) (fun _ _ hs ha => hs.next ha.1) (start_sound n b)
  have hstart : (steps.run (start n b) as).Alone c _ := ⟨hsound, hc, rfl, hheld⟩
  have hlet := hstart.rounds (Machine.along_and.mpr ⟨hafter, halone⟩) hrounds
  have hmade := hlet.spent.stilled.alone.made
  rw [← Machine.run_append] at hlet hmade
  obtain ⟨hout, hin⟩ := down_follows n b (as ++ bs) c h hstays hfew hmade
  intro s s'
  have hs' : s' = steps.run (start n b) (as ++ bs) := (Machine.run_append ..).symm
  rw [hs']
  have hmap : (steps.run (start n b) (as ++ bs)).InMap c ↔
      ¬ (steps.run (start n b) (as ++ bs)).Down c :=
    ⟨fun hmem hdown => hlet.not_leaving (hin hdown hmem), fun hup => not_not.mp (mt hout hup)⟩
  refine ⟨fun hdown hstrong => ?_, hlet.strong_iff, hmap⟩
  refine hmap.mp (hlet.strong_iff.mp hstrong) ?_
  rw [Machine.run_append]
  exact (hafter.invariant (I := fun t => c < t.made ∧ t.Down c)
    (fun _ _ ht _ => ⟨lt_made_after ht.1, down_after ht.1 ht.2⟩) ⟨hc, hdown⟩).2

/-- A peer has closed one connection, and the user has been told; while the loops finish with it the
base loop accepts another. -/
theorem let_go_within_closed :
    let as : List (Action Unit) := [.enter .base, .test .base, .poll .base [], .newConncetion 7,
      .enter (.sub 0), .test (.sub 0), .poll (.sub 0) [], .doPendingFunctors (.sub 0),
      .functor (.sub 0) ⟨⟨0, 0, 0⟩, .data []⟩, .ret (.sub 0), .donePendingFunctors (.sub 0),
      .test (.sub 0), .poll (.sub 0) [(0, EPOLLIN)], .dispatch (.sub 0),
      .task (.sub 0) ⟨⟨0, 0, 0⟩, .data []⟩]
    let bs : List (Action Unit) := [.ret (.sub 0), .task (.sub 0) ⟨⟨0, 0, 0⟩, .data []⟩,
      .newConncetion 8, .doPendingFunctors (.sub 0), .functor (.sub 0) ⟨⟨0, 0, 0⟩, .data []⟩,
      .ret (.sub 0), .donePendingFunctors (.sub 0), .doPendingFunctors .base,
      .functor .base ⟨⟨0, 0, 0⟩, .data []⟩, .donePendingFunctors .base, .test (.sub 0),
      .poll (.sub 0) [], .doPendingFunctors (.sub 0), .functor (.sub 0) ⟨⟨0, 0, 0⟩, .data []⟩,
      .donePendingFunctors (.sub 0)]
    ¬ (steps.run (steps.run (start 1 false) as) bs).Strong 0 := by
  intro as bs
  have hfacts : steps.Valid (start 1 false) (as ++ bs) ∧
      steps.Along Stays (start 1 false) (as ++ bs) ∧
      (steps.run (start 1 false) (as ++ bs)).made ≤ 2 ^ 32 ∧
      0 < (steps.run (start 1 false) as).made ∧
      0 ∉ (steps.run (start 1 false) as).held.map Prod.snd ∧
      steps.Along (LeavesAlone 0) (steps.run (start 1 false) as) bs ∧
      ((steps.run (start 1 false) as).conn 0).home = .sub 0 ∧
      (steps.run (start 1 false) as).Down 0 := by
    decide +kernel
  obtain ⟨hvalid, hstays, hfew, hmade, hheld, halone, hhome, hdown⟩ := hfacts
  have hrounds : Rounds [.sub 0, .base, .sub 0] bs := by
    simp [Rounds, batch, bs, List.cons_sublist_cons']
  rw [← hhome] at hrounds
  exact (let_go_within 1 false as bs 0 hvalid hstays hfew hmade hheld halone hrounds).1 hdown

end TcpServer

end Mymuduo
