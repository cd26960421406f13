import Mymuduo.TcpServer.Soundness

/-!
# TcpServer/Lifetime — how the references to a connection are passed on

The server's map holds a connection from `newConncetion` on.  When the entry goes, the copy that
goes with it is handed to the connection's loop, in `connectDestoryed`:

    conncetions_ ──▸ removeConnectionInLoop (base loop) ──▸ connectDestoryed (its loop) ──▸ nothing
         └─────────────────── ~TcpServer ─────────────────────────▴

Said here is what becomes of the entries and of what is queued; two things go wrong at either end of
this chain (`TcpServer/BareThis`, `TcpServer/Registration`).
-/

namespace Mymuduo

open Machinery TcpConnection

/-- A loop with functors has not begun to go. -/
theorem ServerLoop.Staged.not_gone {υ : Type*} {l : LoopId} {L : ServerLoop υ} (h : L.Staged l)
    (hne : L.pendingFunctors_ ≠ [] ∨ L.rest ≠ []) : L.stage.gone = false := by
  obtain hpending | hrest := hne
  · by_contra hgone
    exact hpending (h.gone (by simpa using hgone))
  · rw [h.running hrest]
    rfl

namespace TcpServer

variable {υ : Type*} [DecidableEq υ] {s : TcpServer υ} {a : Action υ} {l l' : LoopId} {c : ℕ}
  {f : ServerFunctor υ} {k : BitVec 32}

/-! ## Entries -/

/-- The connection whose `removeConnectionInLoop` an action runs. -/
def removes (s : TcpServer υ) (a : Action υ) : Option ℕ :=
  (s.runs a).bind fun r =>
    match r.2 with
    | .removeConnectionInLoop c => some c
    | .connectEstablished _ | .of _ _ => none

/-- The connection whose entry an action takes out,
with the copy that goes to `connectDestoryed`. -/
def passesOn (s : TcpServer υ) : Action υ → Option ℕ
  | .destroyNext c => some c
  | a => s.removes a

/-- The entry of `conncetions_` an action writes over. -/
def drops (s : TcpServer υ) : Action υ → Option (BitVec 32)
  | .newConncetion _ => some s.nextConnId_
  | a => (s.passesOn a).map fun c => (s.conn c).name

/-- The connection whose entry that is. -/
def evicts (s : TcpServer υ) (a : Action υ) : Option ℕ := (s.drops a).bind s.conncetions_

/-- The connection whose `connectDestoryed` an action pushes with that copy: the destructor runs
those of the base loop itself. -/
def queues (s : TcpServer υ) : Action υ → Option ℕ
  | .destroyNext c => if (s.conn c).home = .base then none else some c
  | a => s.removes a

theorem removes_iff : s.removes a = some c ↔
    ∃ l, s.request a = some (.loop l, l, .removeConnectionInLoop c) := by
  simp only [removes, Option.bind_eq_some_iff, Prod.exists, runs_iff]
  constructor
  · rintro ⟨l, f, hr, hf⟩
    rcases f with c' | c' | ⟨c', g⟩ <;> cases hf
    exact ⟨l, hr⟩
  · rintro ⟨l, hr⟩
    exact ⟨l, _, hr, rfl⟩

/-- A removal is run by a loop on its own, or by the base loop's `runInLoop`. -/
theorem book_of_removes (ha : s.Ready a) (h : s.removes a = some c) :
    (s.book a).conn = s.conn ∧ s.passesOn a = some c ∧ s.drops a = some (s.conn c).name := by
  obtain ⟨l, hr⟩ := removes_iff.mp h
  generalize ht : (.loop l : Thread υ) = t at hr
  cases asks_of_request ha hr with
  | functor _ k _ rest hrest => exact ⟨rfl, h, congrArg (Option.map _) h⟩
  | removal l' k c hhead => exact ⟨rfl, h, congrArg (Option.map _) h⟩

theorem book_conncetions (hk : ∀ k' ∈ s.drops a, k ≠ k') :
    (s.book a).conncetions_ k = s.conncetions_ k := by
  have hstep := s.book_server a
  generalize s.book a = s' at hstep ⊢
  cases hstep with
  | accept sockfd => exact Function.update_of_ne (hk _ rfl) ..
  | destroyNext c => exact Function.update_of_ne (hk _ rfl) ..
  | stop _ _ hmap => exact congrFun hmap k
  | other _ _ _ hmap => exact congrFun hmap k
  | _ => rfl

/-- A pointer stays with its thread unless that gives it up. -/
theorem held_of_book {t : Thread υ} (h : (t, c) ∈ s.held) (ha : ∀ t', a ≠ .release t' c) :
    (t, c) ∈ (s.book a).held := by
  have hstep := s.book_server a
  generalize s.book a = s' at hstep ⊢
  cases hstep with
  | share t t' c => exact List.mem_cons_of_mem _ h
  | release t' c' =>
    refine (List.mem_erase_of_ne ?_).mpr h
    rintro heq
    obtain ⟨rfl, rfl⟩ : t = t' ∧ c = c' := by simpa using heq
    exact ha t rfl
  | stop _ _ _ hheld => exact hheld.symm ▸ h
  | other _ _ _ _ hheld => exact hheld.symm ▸ h
  | _ => exact h

/-- **The other entries stay.** -/
theorem after_conncetions (ha : s.Ready a) (hk : ∀ k' ∈ s.drops a, k ≠ k') :
    (s.after a).conncetions_ k = s.conncetions_ k := by
  rw [← book_conncetions hk]
  rcases s.after_cases a with ⟨l, c, m, -, hafter⟩ | ⟨t, l, f, hr, hafter⟩ | ⟨-, -, hafter⟩ <;>
    rw [hafter]
  · rfl
  · unfold runInLoop
    split
    case isFalse => rfl
    case isTrue ht =>
      subst ht
      rcases (s.book a).exec_cases l a.answer f with ⟨c, rfl, hexec⟩ | ⟨m, -, -, hexec⟩ |
        ⟨-, -, hexec⟩ | ⟨c, cb, -, -, hexec⟩ <;> rw [hexec]
      · obtain ⟨hconn, -, hdrops⟩ := book_of_removes ha (removes_iff.mpr ⟨l, hr⟩)
        have hne := hk _ hdrops
        rw [← hconn] at hne
        exact Function.update_of_ne hne ..
      · rfl
      · rfl

/-- An action gives names where it accepts. -/
theorem after_name_book (s : TcpServer υ) (a : Action υ) (c : ℕ) :
    ((s.after a).conn c).name = ((s.book a).conn c).name := by
  rcases s.after_conn a with ⟨l, c', m, -, hconn⟩ | ⟨hconn, -⟩ <;> rw [hconn]
  exact perform_name

theorem after_name (s : TcpServer υ) (a : Action υ) (hc : c < s.made) :
    ((s.after a).conn c).name = (s.conn c).name := by
  obtain ⟨tcp, revt, heq, -⟩ := s.book_conn a hc
  rw [after_name_book, heq]

/-- A connection stays in the map unless its entry is written over. -/
theorem InMap.after (h : s.InMap c) (ha : s.Ready a) (hc : c < s.made)
    (hk : ∀ k ∈ s.drops a, (s.conn c).name ≠ k) : (s.after a).InMap c := by
  rw [InMap, after_name s a hc, after_conncetions ha hk]
  exact h

/-! ## Queues -/

/-- What waits after an action's own change waits after the action, with what it left or pushed. -/
theorem after_waiting (s : TcpServer υ) (a : Action υ) (l : LoopId) :
    ∃ added, ((s.after a).loop l).waiting = ((s.book a).loop l).waiting ++ added ∧
      ∀ f ∈ added, Follows f ∨ ∃ t, s.request a = some (t, l, f) ∧ t ≠ .loop l := by
  obtain ⟨added, hpending, hadded⟩ := s.after_pending a l
  refine ⟨added, ?_, hadded⟩
  rw [ServerLoop.waiting, ServerLoop.waiting, (s.after_frame a).rest, hpending, List.append_assoc]

/-- The loop whose queue `~EventLoop` drops. -/
def discards (s : TcpServer υ) : Action υ → Option LoopId
  | .endLoop i => if (s.loop (.sub i)).stage = .cleared then some (.sub i) else none
  | _ => none

omit [DecidableEq υ] in
theorem discards_iff : s.discards a = some l ↔
    ∃ i, a = .endLoop i ∧ l = .sub i ∧ (s.loop l).stage = .cleared := by
  cases a with
  | endLoop i =>
    simp only [discards]
    split
    · exact ⟨by rintro ⟨⟩; exact ⟨i, rfl, rfl, ‹_›⟩, by rintro ⟨_, ⟨⟩, rfl, -⟩; rfl⟩
    · exact iff_of_false nofun (by rintro ⟨_, ⟨⟩, rfl, hstage⟩; contradiction)
  | _ => exact iff_of_false nofun (by rintro ⟨_, ⟨⟩, -⟩)

omit [DecidableEq υ] in
/-- The base loop outlives the server. -/
theorem discards_ne_base : s.discards a ≠ some .base := fun h => by
  obtain ⟨i, -, hl, -⟩ := discards_iff.mp h
  cases hl

/-- **What waits goes on waiting**, unless it is the functor whose turn it is,
or its loop goes. -/
theorem Sound.waiting_after (h : s.Sound) (ha : s.Ready a) (hf : f ∈ (s.loop l).waiting) :
    f ∈ ((s.after a).loop l).waiting ∨ s.request a = some (.loop l, l, f) ∨
      (s.discards a = some l ∧ ((s.after a).loop l).waiting = []) := by
  obtain ⟨added, hwaiting, -⟩ := s.after_waiting a l
  obtain heq | ⟨k, g, -, hr, heq⟩ | ⟨i, rfl, hl, hstage, hnil⟩ := h.book_waiting ha l
  · left
    rw [hwaiting, heq]
    exact List.mem_append_left _ hf
  · rw [heq] at hf
    obtain rfl | hf := List.mem_cons.mp hf
    · exact .inr (.inl hr)
    · left
      rw [hwaiting]
      exact List.mem_append_left _ hf
  · exact .inr (.inr ⟨discards_iff.mpr ⟨i, rfl, hl, hstage⟩, hnil⟩)

omit [DecidableEq υ] in
/-- What follows from what was run has a copy of the pointer. -/
theorem Follows.isRaw (h : Follows f) : f.isRaw = false := by
  obtain ⟨c, cb, rfl, hcb⟩ := h
  cases cb <;> simp_all [PendingFunctor.isCallback, ServerFunctor.isRaw, PendingFunctor.isRaw]

/-- A functor pushed to a loop that is there is in its queue. -/
theorem mem_pending_of_push {t : Thread υ} (hr : s.request a = some (t, l, f)) (ht : t ≠ .loop l)
    (hgone : ((s.book a).loop l).stage.gone = false) :
    f ∈ ((s.after a).loop l).pendingFunctors_ := by
  rcases s.after_cases a with ⟨l', c, m, hb, -⟩ | ⟨t', l', f', hr', hafter⟩ | ⟨-, hr', -⟩
  · rw [request_of_branch hb] at hr
    cases hr
  · obtain ⟨rfl, rfl, rfl⟩ : t' = t ∧ l' = l ∧ f' = f := by simpa [hr] using hr'.symm
    rw [hafter, runInLoop, if_neg ht, queueInLoop_loop]
    simp [hgone]
  · rw [hr] at hr'
    cases hr'

/-- The connection's loop is to run its `connectDestoryed`. -/
def Due (s : TcpServer υ) (c : ℕ) : Prop :=
  .of c .connectDestoryed ∈ (s.loop (s.conn c).home).waiting

instance (s : TcpServer υ) (c : ℕ) : Decidable (s.Due c) := inferInstanceAs (Decidable (_ ∈ _))

theorem after_home_of_lt (s : TcpServer υ) (a : Action υ) (hc : c < s.made) :
    ((s.after a).conn c).home = (s.conn c).home := by
  obtain ⟨tcp, revt, heq, -⟩ := s.book_conn a hc
  rw [after_home, heq]

/-- A loop has its queue until that is dropped. -/
theorem book_present (ha : s.Ready a) (hl : (s.loop l).stage.gone = false)
    (hkeeps : s.discards a ≠ some l) : ((s.book a).loop l).stage.gone = false := by
  have hstep := book_loop ha l
  generalize (s.book a).loop l = L at hstep ⊢
  cases hstep with
  | test hat =>
    obtain ⟨stage, heq, hgone, -⟩ := (s.loop l).testQuit_eq l
    rw [heq]
    exact hgone
  | discard i hi hstage => exact absurd (discards_iff.mpr ⟨i, rfl, hi, hstage⟩) hkeeps
  | endLoop i hi hstage =>
    rw [hstage] at hl
    cases hl
  | same => exact hl
  | quit => exact hl
  | dispatch hat => exact hl
  | tail hfree => exact hl
  | take k hat hrest => exact hl
  | accept sockfd => exact hl
  | _ => rfl

/-- **The copy is passed on**: a removal leaves a `connectDestoryed` with the connection's loop, if
that is there. -/
theorem pending_of_removes (ha : s.Ready a) (h : s.removes a = some c)
    (hgone : (s.loop (s.conn c).home).stage.gone = false) :
    .of c .connectDestoryed ∈ ((s.after a).loop (s.conn c).home).pendingFunctors_ := by
  obtain ⟨l, hr⟩ := removes_iff.mp h
  have hpresent : ((s.book a).loop (s.conn c).home).stage.gone = false := by
    refine book_present ha hgone fun hdiscards => ?_
    obtain ⟨i, rfl, -⟩ := discards_iff.mp hdiscards
    cases hr
  have hconn := (book_of_removes ha h).1
  rcases s.after_cases a with ⟨l', c', m, hb, -⟩ | ⟨t, l', f, hr', hafter⟩ | ⟨-, hr', -⟩
  · rw [request_of_branch hb] at hr
    cases hr
  · obtain ⟨rfl, rfl, rfl⟩ : .loop l = t ∧ l = l' ∧ .removeConnectionInLoop c = f := by
      simpa [hr] using hr'
    rw [hafter, runInLoop, if_pos rfl, exec, removeConnectionInLoop, queueInLoop_loop, hconn]
    simp [hpresent]
  · rw [hr] at hr'
    cases hr'

/-- So does the destructor, for a connection of another loop. -/
theorem pending_of_queues (ha : s.Ready a) (h : s.queues a = some c)
    (hgone : (s.loop (s.conn c).home).stage.gone = false) :
    .of c .connectDestoryed ∈ ((s.after a).loop (s.conn c).home).pendingFunctors_ := by
  cases a with
  | destroyNext c' =>
    simp only [queues] at h
    split at h
    case isTrue => cases h
    case isFalse hl =>
      obtain rfl : c' = c := by simpa using h
      exact mem_pending_of_push rfl (by simpa using Ne.symm hl) (book_present ha hgone nofun)
  | _ => exact pending_of_removes ha h hgone

end TcpServer

end Mymuduo
