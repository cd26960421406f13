import Mymuduo.TcpServer.Lifetime

/-!
# TcpServer/BareThis — functors that hold no connection

`send` and `shutdown` bind the bare `this` to what they queue.  Their caller has a pointer, and may
drop it as soon as the call returns:

    user    send: test state_ ────────────────────────▸ queue sendInLoop ──▸ drop the pointer
    loop            handleClose … connectDestoryed runs ──▸ its batch ends ──▸ sendInLoop (on what?)

While the connection is in the map nothing can go wrong, since the copy the map had reaches the
connection's loop behind whatever is queued there.  So the functor runs on a connection that is
alive (`run_alive`), unless the last pointer goes, or the base loop's `~TcpServer` takes the entry
of one of its own, with nothing that outlasts the functor.
-/

namespace Mymuduo

open Machinery TcpConnection

namespace TcpServer

variable {υ : Type*} {s : TcpServer υ} {l : LoopId} {c : ℕ} {f : ServerFunctor υ}
  {fs fs' : List (ServerFunctor υ)}

/-- `c` is held until the functors `fs` have run: by its entry, by a thread, by the removal that
takes the entry's copy on, or by one of the functors. -/
def Keeps (s : TcpServer υ) (c : ℕ) (fs : List (ServerFunctor υ)) : Prop :=
  s.InMap c ∨ c ∈ s.held.map Prod.snd ∨ .removeConnectionInLoop c ∈ (s.loop .base).waiting ∨
    ∃ f ∈ fs, f.isRaw = false ∧ f.target = c

/-- Where a functor without a copy waits for `c`, something holds `c` until it has run: a queue runs
as one batch, and a batch keeps its copies to its end. -/
def Lasts (s : TcpServer υ) (c : ℕ) : Prop :=
  (∀ f ∈ (s.loop (s.conn c).home).pendingFunctors_, f.isRaw = true → f.target = c →
    s.Keeps c (s.loop (s.conn c).home).pendingFunctors_) ∧
  (∀ f ∈ (s.loop (s.conn c).home).rest, f.isRaw = true → f.target = c →
    s.Keeps c (s.loop (s.conn c).home).functors)

variable [DecidableEq υ] {a : Action υ}

instance (s : TcpServer υ) (c : ℕ) (fs : List (ServerFunctor υ)) : Decidable (s.Keeps c fs) :=
  inferInstanceAs (Decidable (_ ∨ _ ∨ _ ∨ _))

instance (s : TcpServer υ) (c : ℕ) : Decidable (s.Lasts c) :=
  inferInstanceAs (Decidable ((∀ f ∈ _, _ → _ → _) ∧ ∀ f ∈ _, _ → _ → _))

/-- **The law**: where a functor bound to the bare `this` runs, something holds the connection. -/
def RunsAlive (s : TcpServer υ) (a : Action υ) : Prop :=
  ∀ r ∈ s.runs a, r.2.isRaw = true → s.Strong r.2.target

/-- The entries and pointers that are left when an action has taken its own. -/
def left (s : TcpServer υ) : Action υ → TcpServer υ
  | .release t c => { s with held := s.held.erase (t, c) }
  | a =>
      match s.drops a with
      | some k => { s with conncetions_ := Function.update s.conncetions_ k none }
      | none => s

/-- The pointer an action gives up. -/
def Action.releases : Action υ → Option ℕ
  | .release _ c => some c
  | _ => none

/-- No one gives up what a queued functor's connection is held by: not a thread with its pointer,
not the destructor with a connection of the base loop, and not a connection that takes the name of
another, or takes it out with its own removal. -/
def Secures (s : TcpServer υ) (a : Action υ) : Prop :=
  (∀ c ∈ a.releases, (s.left a).Lasts c) ∧
    ∀ c ∈ s.evicts a, s.queues a ≠ some c → (s.left a).Lasts c

instance (s : TcpServer υ) (a : Action υ) : Decidable (s.RunsAlive a) :=
  inferInstanceAs (Decidable (∀ r ∈ s.runs a, _ → _))

instance (s : TcpServer υ) (a : Action υ) : Decidable (s.Secures a) :=
  inferInstanceAs (Decidable ((∀ c ∈ a.releases, Lasts _ _) ∧
    ∀ c ∈ s.evicts a, _ → Lasts _ _))

/-! ## What is given up -/

theorem left_loop (s : TcpServer υ) (a : Action υ) : (s.left a).loop = s.loop := by
  cases a <;> simp only [left] <;> split <;> rfl

theorem left_conn (s : TcpServer υ) (a : Action υ) : (s.left a).conn = s.conn := by
  cases a <;> simp only [left] <;> split <;> rfl

theorem left_held (ha : a.releases = none) : (s.left a).held = s.held := by
  cases a with
  | release t c => cases ha
  | _ => simp only [left]; split <;> rfl

theorem held_left (h : c ∈ s.held.map Prod.snd) (ha : a.releases ≠ some c) :
    c ∈ (s.left a).held.map Prod.snd := by
  cases a with
  | release t c' =>
    obtain ⟨⟨t', c⟩, hr, rfl⟩ := List.mem_map.mp h
    refine List.mem_map_of_mem (held_of_book (a := .release t c') hr fun t => ?_)
    rintro ⟨⟩
    exact ha rfl
  | _ =>
    rw [left_held rfl]
    exact h

theorem left_inMap (h : s.InMap c) (ha : s.drops a ≠ some (s.conn c).name) :
    (s.left a).InMap c := by
  have hupdate : ∀ k', s.drops a = some k' →
      Function.update s.conncetions_ k' none (s.conn c).name = some c := by
    rintro k' hk
    rw [Function.update_of_ne]
    · exact h
    · rintro rfl
      exact ha hk
  cases a with
  | release t c' => exact h
  | _ =>
    simp only [left]
    split
    case h_1 k' hk => exact hupdate k' hk
    case h_2 => exact h

/-- What is left is there after the action. -/
theorem inMap_of_left (ha : s.Ready a) (hc : c < s.made) (h : (s.left a).InMap c) :
    (s.after a).InMap c := by
  have hmap : ∀ k', s.drops a = some k' →
      Function.update s.conncetions_ k' none (s.conn c).name = some c →
      (s.after a).InMap c := by
    intro k' hk h
    have hne : (s.conn c).name ≠ k' := by
      rintro rfl
      simp at h
    rw [Function.update_of_ne hne] at h
    refine InMap.after h ha hc fun k hk' => ?_
    rw [hk] at hk'
    exact Option.some.inj hk' ▸ hne
  have hsame : s.drops a = none → s.InMap c → (s.after a).InMap c := by
    intro hk h
    refine InMap.after h ha hc fun k hk' => ?_
    rw [hk] at hk'
    cases hk'
  cases a with
  | release t c' => exact hsame rfl h
  | _ =>
    simp only [left] at h
    split at h
    case h_1 k' hk => exact hmap k' hk h
    case h_2 hk => exact hsame hk h

theorem held_of_left (h : c ∈ (s.left a).held.map Prod.snd) :
    c ∈ (s.after a).held.map Prod.snd := by
  rw [(s.after_frame a).held]
  cases hreleases : a.releases with
  | none =>
    rw [left_held hreleases] at h
    obtain ⟨⟨t, c⟩, hmem, rfl⟩ := List.mem_map.mp h
    refine List.mem_map_of_mem (held_of_book hmem fun t' => ?_)
    rintro rfl
    cases hreleases
  | some c' =>
    cases a with
    | release t c => exact h
    | _ => cases hreleases

/-- **What holds `c` holds it still**, or is given up as `Secures` allows, or passes its copy on. -/
theorem Keeps.left (h : s.Keeps c fs) (ha : s.Ready a) (hsec : s.Secures a)
    (hgone : (s.loop (s.conn c).home).stage.gone = false)
    (hlasts : (s.left a).Lasts c → (s.left a).Keeps c fs) : (s.left a).Keeps c fs ∨
      .of c .connectDestoryed ∈ ((s.after a).loop (s.conn c).home).pendingFunctors_ := by
  rcases h with hmap | hheld | hwait | hcopy
  · by_cases hdrops : s.drops a = some (s.conn c).name
    · by_cases hqueues : s.queues a = some c
      · exact .inr (pending_of_queues ha hqueues hgone)
      · exact .inl (hlasts (hsec.2 c (Option.bind_eq_some_iff.mpr ⟨_, hdrops, hmap⟩) hqueues))
    · exact .inl (.inl (left_inMap hmap hdrops))
  · by_cases hreleases : a.releases = some c
    · exact .inl (hlasts (hsec.1 c hreleases))
    · exact .inl (.inr (.inl (held_left hheld hreleases)))
  · rw [← s.left_loop a] at hwait
    exact .inl (.inr (.inr (.inl hwait)))
  · exact .inl (.inr (.inr (.inr hcopy)))

/-- What is left keeps `c` through the action: a removal whose turn it is leaves its copy behind. -/
theorem Keeps.after (h : (s.left a).Keeps c fs) (hs : s.Sound) (ha : s.Ready a) (hc : c < s.made)
    (hgone : (s.loop (s.conn c).home).stage.gone = false)
    (hfs : ∀ f ∈ fs, f.isRaw = false → f ∈ fs')
    (hpending : ∀ f ∈ ((s.after a).loop (s.conn c).home).pendingFunctors_, f ∈ fs') :
    (s.after a).Keeps c fs' := by
  rcases h with hmap | hheld | hwait | ⟨f, hf, hraw, htarget⟩
  · exact .inl (inMap_of_left ha hc hmap)
  · exact .inr (.inl (held_of_left hheld))
  · rw [left_loop] at hwait
    obtain hwait | hr | ⟨hdiscards, -⟩ := hs.waiting_after ha hwait
    · exact .inr (.inr (.inl hwait))
    · have hremoves := removes_iff.mpr ⟨.base, hr⟩
      exact .inr (.inr (.inr ⟨_, hpending _ (pending_of_removes ha hremoves hgone), rfl, rfl⟩))
    · exact absurd hdiscards discards_ne_base
  · exact .inr (.inr (.inr ⟨f, hfs f hf hraw, hraw, htarget⟩))

theorem Keeps.next (h : s.Keeps c fs) (hs : s.Sound) (ha : s.Ready a) (hsec : s.Secures a)
    (hc : c < s.made) (hgone : (s.loop (s.conn c).home).stage.gone = false)
    (hlasts : (s.left a).Lasts c → (s.left a).Keeps c fs)
    (hfs : ∀ f ∈ fs, f.isRaw = false → f ∈ fs')
    (hpending : ∀ f ∈ ((s.after a).loop (s.conn c).home).pendingFunctors_, f ∈ fs') :
    (s.after a).Keeps c fs' := by
  obtain hleft | hcopy := h.left ha hsec hgone hlasts
  · exact hleft.after hs ha hc hgone hfs hpending
  · exact .inr (.inr (.inr ⟨_, hpending _ hcopy, rfl, rfl⟩))

/-! ## Where a waiting functor was before -/

theorem pending_of_book (ha : s.Ready a) (hf : f ∈ ((s.book a).loop l).pendingFunctors_) :
    ((s.book a).loop l).pendingFunctors_ = (s.loop l).pendingFunctors_ := by
  have hstep := book_loop ha l
  generalize (s.book a).loop l = L at hstep hf ⊢
  cases hstep with
  | test hat =>
    obtain ⟨stage, heq, -⟩ := (s.loop l).testQuit_eq l
    rw [heq]
  | swap hat hactive => cases hf
  | discard i hl hstage => cases hf
  | _ => rfl

/-- A functor of a batch was in it, with the same copies about it, or comes from the queue with what
was there. -/
theorem Sound.rest_of_book (h : s.Sound) (ha : s.Ready a) (hf : f ∈ ((s.book a).loop l).rest) :
    (f ∈ (s.loop l).rest ∧ ∀ g ∈ (s.loop l).functors, g ∈ ((s.book a).loop l).functors) ∨
    (f ∈ (s.loop l).pendingFunctors_ ∧
      ∀ g ∈ (s.loop l).pendingFunctors_, g ∈ ((s.book a).loop l).functors) := by
  have hstep := book_loop ha l
  generalize (s.book a).loop l = L at hstep hf ⊢
  cases hstep with
  | test hat =>
    have hrest := ((h.staged l).quiet (by simp [hat.1]) (by simp [hat.1])).2.1
    obtain ⟨stage, heq, -⟩ := (s.loop l).testQuit_eq l
    rw [heq] at hf
    exact absurd hrest (List.ne_nil_of_mem hf)
  | swap hat hactive => exact .inr ⟨hf, fun g hg => by simpa [ServerLoop.functors] using .inr hg⟩
  | take k hat hrest =>
    obtain ⟨g, rest, hcons⟩ := List.exists_cons_of_ne_nil hrest
    exact .inl ⟨List.mem_of_mem_tail hf, by simp [ServerLoop.functors, hcons]⟩
  | done hat hrest => exact absurd hrest (List.ne_nil_of_mem hf)
  | discard i hl hstage =>
    have hrest := ((h.staged l).quiet (by simp [hstage]) (by simp [hstage])).2.1
    exact absurd hrest (List.ne_nil_of_mem hf)
  | _ => exact .inl ⟨hf, fun g hg => hg⟩

theorem functors_after (h : f ∈ ((s.book a).loop l).functors) :
    f ∈ ((s.after a).loop l).functors := by
  obtain ⟨added, hpending, -⟩ := s.after_pending a l
  have hframe := s.after_frame a
  rw [ServerLoop.functors, hpending, hframe.ran, hframe.rest]
  simp only [ServerLoop.functors, List.mem_append] at h ⊢
  tauto

omit [DecidableEq υ] in
theorem Sound.home_of_raw (h : s.Sound) (hf : f ∈ (s.loop l).functors) (hraw : f.isRaw = true) :
    f.target < s.made ∧ (s.conn f.target).home = l := by
  have howner := (h.placed l).owner f hf
  refine ⟨(h.placed l).target f hf, ?_⟩
  rcases f with c | c | ⟨c, g⟩
  · cases hraw
  · cases hraw
  · exact howner

/-- Who pushes a functor without a copy has a pointer of its own. -/
theorem Sound.held_of_push {t : Thread υ} (h : s.Sound) (ha : s.Ready a)
    (hr : s.request a = some (t, l, f)) (ht : t ≠ .loop l) (hraw : f.isRaw = true) :
    f.target ∈ (s.after a).held.map Prod.snd := by
  have hheld : ∀ t, s.call t ≠ .idle → t ≠ .loop (s.conn (s.callee t)).home →
      s.callee t ∈ s.held.map Prod.snd := by
    intro t hcall hne
    obtain hheld | hcb := h.calling t hcall
    · exact List.mem_map_of_mem hheld
    · exact absurd (h.home_of_inCallback hcb) hne
  rw [(s.after_frame a).held]
  cases asks_of_request ha hr with
  | functor _ k _ rest hrest => exact absurd rfl ht
  | removal l' k c hhead => cases hraw
  | accept sockfd => cases hraw
  | send _ k data hcall => exact hheld t (by simp [hcall]) ht
  | shutdown _ hcall => exact hheld t (by simp [hcall]) ht
  | destroy c hc => cases hraw

/-! ## Every run -/

/-- No functor outlasts what holds its connection. -/
structure Lasting (s : TcpServer υ) : Prop where
  sound : s.Sound
  lasts : ∀ c, s.Lasts c

omit [DecidableEq υ] in
theorem start_lasting (n : ℕ) (b : Bool) : (start n b : TcpServer υ).Lasting :=
  ⟨start_sound n b, fun _ => ⟨nofun, nofun⟩⟩

theorem Lasting.keeps_pending (h : s.Lasting) (ha : s.Ready a) (hsec : s.Secures a)
    (hf : f ∈ ((s.after a).loop l).pendingFunctors_) (hraw : f.isRaw = true) :
    (s.after a).Keeps f.target ((s.after a).loop l).pendingFunctors_ := by
  obtain ⟨added, hpending, hadded⟩ := s.after_pending a l
  obtain hold | hnew := List.mem_append.mp (hpending ▸ hf)
  · have hbook := pending_of_book ha hold
    rw [hbook] at hold
    obtain ⟨hc, rfl⟩ := h.sound.home_of_raw (List.mem_append_left _ hold) hraw
    have hgone := (h.sound.staged _).not_gone (.inl (List.ne_nil_of_mem hold))
    refine ((h.lasts f.target).1 f hold hraw rfl).next h.sound ha hsec hc hgone (fun hl => ?_)
      (fun g hg _ => ?_) fun g hg => hg
    · obtain ⟨hl, -⟩ := hl
      rw [left_loop, left_conn] at hl
      exact hl f hold hraw rfl
    · rw [hpending, hbook]
      exact List.mem_append_left _ hg
  · obtain hfollows | ⟨t, hr, ht⟩ := hadded f hnew
    · rw [hfollows.isRaw] at hraw
      cases hraw
    · exact .inr (.inl (h.sound.held_of_push ha hr ht hraw))

theorem Lasting.keeps_rest (h : s.Lasting) (ha : s.Ready a) (hsec : s.Secures a)
    (hf : f ∈ ((s.after a).loop l).rest) (hraw : f.isRaw = true) :
    (s.after a).Keeps f.target ((s.after a).loop l).functors := by
  have hpending : ∀ g ∈ ((s.after a).loop l).pendingFunctors_, g ∈ ((s.after a).loop l).functors :=
    fun g hg => List.mem_append_left _ hg
  rw [(s.after_frame a).rest] at hf
  obtain ⟨hold, hfs⟩ | ⟨hold, hfs⟩ := h.sound.rest_of_book ha hf
  · obtain ⟨hc, rfl⟩ := h.sound.home_of_raw
      (List.mem_append_right _ (List.mem_append_right _ hold)) hraw
    have hgone := (h.sound.staged _).not_gone (.inr (List.ne_nil_of_mem hold))
    refine ((h.lasts f.target).2 f hold hraw rfl).next h.sound ha hsec hc hgone (fun hl => ?_)
      (fun g hg _ => functors_after (hfs g hg)) hpending
    obtain ⟨-, hl⟩ := hl
    rw [left_loop, left_conn] at hl
    exact hl f hold hraw rfl
  · obtain ⟨hc, rfl⟩ := h.sound.home_of_raw (List.mem_append_left _ hold) hraw
    have hgone := (h.sound.staged _).not_gone (.inl (List.ne_nil_of_mem hold))
    refine ((h.lasts f.target).1 f hold hraw rfl).next h.sound ha hsec hc hgone (fun hl => ?_)
      (fun g hg _ => functors_after (hfs g hg)) hpending
    obtain ⟨hl, -⟩ := hl
    rw [left_loop, left_conn] at hl
    exact hl f hold hraw rfl

theorem Lasting.next (h : s.Lasting) (ha : steps.enabled s a) (hsec : s.Secures a) :
    (steps.next s a).Lasting := by
  refine ⟨h.sound.next ha.1, fun c => ⟨?_, ?_⟩⟩
  · rintro f hf hraw rfl
    exact h.keeps_pending ha.1 hsec hf hraw
  · rintro f hf hraw rfl
    exact h.keeps_rest ha.1 hsec hf hraw

omit [DecidableEq υ] in
/-- What keeps a connection is a strong reference. -/
theorem Sound.strong_of_keeps (h : s.Sound) (hk : s.Keeps c (s.loop (s.conn c).home).functors) :
    s.Strong c := by
  rcases hk with hmap | hheld | hwait | hcopy
  · exact .inl hmap
  · exact .inr (.inr hheld)
  · exact .inr (.inl ⟨.base, List.mem_cons_self,
      .inl ⟨_, ServerLoop.mem_functors_of_waiting hwait, rfl, rfl⟩⟩)
  · exact .inr (.inl ⟨_, h.home c, .inl hcopy⟩)

omit [DecidableEq υ] in
theorem Sound.strong_of_has {t : Thread υ} (h : s.Sound) (hhas : s.Has t c) : s.Strong c := by
  obtain hheld | hcb := hhas
  · exact .inr (.inr (List.mem_map_of_mem hheld))
  · obtain rfl := h.home_of_inCallback hcb
    exact .inr (.inl ⟨_, h.home c, .inr (List.mem_map_of_mem (List.mem_of_mem_head? hcb))⟩)

theorem Lasting.runsAlive (h : s.Lasting) (ha : s.Ready a) : s.RunsAlive a := by
  rintro ⟨l, f⟩ hr hraw
  have hasks := asks_of_request ha (runs_iff.mp hr)
  generalize (.loop l : Thread υ) = t at hasks
  cases hasks with
  | functor _ k _ rest hrest =>
    have hmem : f ∈ (s.loop l).rest := by simp [hrest]
    obtain ⟨-, rfl⟩ := h.sound.home_of_raw
      (List.mem_append_right _ (List.mem_append_right _ hmem)) hraw
    exact h.sound.strong_of_keeps ((h.lasts f.target).2 f hmem hraw rfl)
  | removal l' k c hhead => cases hraw
  | accept sockfd => cases hraw
  | send _ k data hcall => exact h.sound.strong_of_has (h.sound.calling t (by simp [hcall]))
  | shutdown _ hcall => exact h.sound.strong_of_has (h.sound.calling t (by simp [hcall]))
  | destroy c hc => cases hraw

/-- **Every `sendInLoop` and `shutdownInLoop` runs on a connection that is alive, in every run in
which no one gives up what the connection of such a functor is held by while it waits.** -/
theorem run_alive (n : ℕ) (b : Bool) (as : List (Action υ)) (h : steps.Valid (start n b) as)
    (hsec : steps.Along Secures (start n b) as) : steps.Along RunsAlive (start n b) as :=
  (Machine.along_and.mpr ⟨h, hsec⟩).imp_of_invariant (I := Lasting)
    (fun _ _ hs ha => hs.next ha.1 ha.2) (fun _ _ hs ha => hs.runsAlive ha.1.1) (start_lasting n b)

/-- A thread drops its pointer behind a `send`, on a connection whose close is under way. -/
theorem run_alive_release :
    steps.Along RunsAlive (start 1 false : TcpServer Unit)
      [.enter .base, .test .base, .poll .base [], .newConncetion 7, .enter (.sub 0), .test (.sub 0),
        .poll (.sub 0) [], .doPendingFunctors (.sub 0), .functor (.sub 0) ⟨⟨0, 0, 0⟩, .data []⟩,
        .share (.loop (.sub 0)) (.user ()) 0, .ret (.sub 0), .donePendingFunctors (.sub 0),
        .send (.user ()) 0 [1], .test (.sub 0), .poll (.sub 0) [(0, EPOLLIN)], .dispatch (.sub 0),
        .task (.sub 0) ⟨⟨0, 0, 0⟩, .data []⟩, .ret (.sub 0), .task (.sub 0) ⟨⟨0, 0, 0⟩, .data []⟩,
        .sendRun (.user ()) ⟨⟨0, 0, 0⟩, .data []⟩, .release (.user ()) 0, .doPendingFunctors .base,
        .functor .base ⟨⟨0, 0, 0⟩, .data []⟩, .donePendingFunctors .base, .doPendingFunctors (.sub 0),
        .functor (.sub 0) ⟨⟨1, 0, 0⟩, .data []⟩, .functor (.sub 0) ⟨⟨0, 0, 0⟩, .data []⟩] :=
  run_alive 1 false _ (by decide +kernel) (by decide +kernel)

/-- The `send` passes its test before the close and queues its functor behind `connectDestoryed`;
then its caller drops the last pointer. -/
theorem not_run_alive :
    ¬ ∀ (n : ℕ) (b : Bool) (as : List (Action Unit)), steps.Valid (start n b) as →
      steps.Along RunsAlive (start n b) as := by
  intro h
  have hrun := h 1 false
    [.enter .base, .test .base, .poll .base [], .newConncetion 7, .enter (.sub 0), .test (.sub 0),
      .poll (.sub 0) [], .doPendingFunctors (.sub 0), .functor (.sub 0) ⟨⟨0, 0, 0⟩, .data []⟩,
      .share (.loop (.sub 0)) (.user ()) 0, .ret (.sub 0), .donePendingFunctors (.sub 0),
      .send (.user ()) 0 [1], .test (.sub 0), .poll (.sub 0) [(0, EPOLLIN)], .dispatch (.sub 0),
      .task (.sub 0) ⟨⟨0, 0, 0⟩, .data []⟩, .ret (.sub 0), .task (.sub 0) ⟨⟨0, 0, 0⟩, .data []⟩,
      .doPendingFunctors .base, .functor .base ⟨⟨0, 0, 0⟩, .data []⟩, .donePendingFunctors .base,
      .doPendingFunctors (.sub 0), .functor (.sub 0) ⟨⟨0, 0, 0⟩, .data []⟩,
      .sendRun (.user ()) ⟨⟨0, 0, 0⟩, .data []⟩, .release (.user ()) 0, .donePendingFunctors (.sub 0),
      .test (.sub 0), .poll (.sub 0) [], .doPendingFunctors (.sub 0),
      .functor (.sub 0) ⟨⟨1, 0, 0⟩, .data []⟩] (by decide +kernel)
  revert hrun
  decide +kernel

end TcpServer

end Mymuduo
