import Mymuduo.TcpServer.Lifetime

/-!
# TcpServer/Registration — a connection goes after its channel

A poller has bare pointers to its channels, in `channels_` and in the kernel's interest set, and a
loop has those it is still to dispatch.  `connectDestoryed` takes a channel out of the poller, and
it runs under a copy of the pointer that comes from `conncetions_`; so as long as the channel is
there, the connection is in the map or its `connectDestoryed` is queued, and is held either way.

The copy can be lost on the way: a sub-loop has left `loop()`, and `~EventLoop` drops its queue.
And a channel can come back: `sendInLoop` registers it again after `connectDestoryed`, and the base
loop's `~TcpServer` leaves it in `activeChannels_`.
-/

namespace Mymuduo

open Machinery TcpConnection

namespace TcpServer

variable {υ : Type*} {s : TcpServer υ} {l : LoopId} {c : ℕ} {m : Method (Thread υ)}

/-- No pointer of its loop leads to `c`. -/
structure Clear (s : TcpServer υ) (c : ℕ) : Prop where
  channels : ∀ fd, (s.loop (s.conn c).home).poller_.channels_ fd ≠ some c
  interest : ∀ fd ev, (s.loop (s.conn c).home).poller_.interest fd = some ev → ev.ptr ≠ c
  active : c ∉ (s.loop (s.conn c).home).activeChannels_

/-- The channel of `c` is with its poller, or is to be. -/
def Exposed (s : TcpServer υ) (c : ℕ) : Prop :=
  (s.loop (s.conn c).home).stage ≠ .destroyed ∧
    ((s.conn c).tcp.channel_.index_ ≠ .kNew ∨
      .connectEstablished c ∈ (s.loop (s.conn c).home).waiting)

variable [DecidableEq υ] {a : Action υ}

/-- **The law**: where the last reference to a connection goes, no pointer is left. -/
def Unregistered (s : TcpServer υ) (a : Action υ) : Prop :=
  ∀ c, s.Strong c → ¬ (s.after a).Strong c → (s.after a).Clear c

instance (s : TcpServer υ) (c : ℕ) : Decidable (s.Exposed c) :=
  inferInstanceAs (Decidable (_ ∧ (_ ∨ _)))

/-! ## What has to be kept -/

/-- The connection the destructor comes to. -/
def Action.destroys : Action υ → Option ℕ
  | .destroyNext c => some c
  | _ => none

/-- `~EventLoop` drops no `connectDestoryed` of a channel its poller has. -/
def RunsOut (s : TcpServer υ) (a : Action υ) : Prop :=
  ∀ l ∈ s.discards a, ∀ c < s.made, .of c .connectDestoryed ∈ (s.loop l).pendingFunctors_ →
    (s.conn c).tcp.channel_.index_ = .kNew

/-- An entry goes with its copy passed on to a loop that is there, if its channel is. -/
def PassesOn (s : TcpServer υ) (a : Action υ) : Prop :=
  ∀ c ∈ s.evicts a, s.Exposed c →
    s.Due c ∨ s.passesOn a = some c ∧ (s.loop (s.conn c).home).stage.gone = false

/-- The destructor comes to no connection that the base loop is still to dispatch. -/
def Dispatched (s : TcpServer υ) (a : Action υ) : Prop :=
  ∀ c ∈ a.destroys, c ∉ (s.loop .base).activeChannels_

/-- Nothing but `connectEstablished` registers a channel that the poller does not have. -/
def StaysOut (s : TcpServer υ) (a : Action υ) : Prop :=
  ∀ j ∈ s.job a, j.2.2.isEstablish = false → j.2.2.isDestroy = false →
    (j.2.2.effect ((s.book a).view j.2.1)).ops ≠ [] →
      (s.conn j.2.1).tcp.channel_.index_ ≠ .kNew ∨ s.Due j.2.1

/-- The four together. -/
def Retires (s : TcpServer υ) (a : Action υ) : Prop :=
  s.RunsOut a ∧ s.PassesOn a ∧ s.Dispatched a ∧ s.StaysOut a

instance (s : TcpServer υ) (a : Action υ) : Decidable (s.RunsOut a) :=
  inferInstanceAs (Decidable (∀ l ∈ s.discards a, ∀ c < s.made, _ → _))

instance (s : TcpServer υ) (a : Action υ) : Decidable (s.PassesOn a) :=
  inferInstanceAs (Decidable (∀ c ∈ s.evicts a, _ → _))

instance (s : TcpServer υ) (a : Action υ) : Decidable (s.Dispatched a) :=
  inferInstanceAs (Decidable (∀ c ∈ a.destroys, _))

instance (s : TcpServer υ) (a : Action υ) : Decidable (s.StaysOut a) :=
  inferInstanceAs (Decidable (∀ j ∈ s.job a, _ → _ → _ → _))

instance (s : TcpServer υ) (a : Action υ) : Decidable (s.Retires a) :=
  inferInstanceAs (Decidable (_ ∧ _ ∧ _ ∧ _))

/-! ## The channel of a connection -/

theorem index_book (s : TcpServer υ) (a : Action υ) (hc : c < s.made) :
    ((s.book a).conn c).tcp.channel_.index_ = (s.conn c).tcp.channel_.index_ := by
  obtain ⟨tcp, revt, heq, hchannel⟩ := s.book_conn a hc
  rw [heq, hchannel]
  rfl

/-- A channel's index is as it was, or as the method leaves it that the action runs. -/
theorem index_after (s : TcpServer υ) (a : Action υ) (hc : c < s.made) :
    ((s.after a).conn c).tcp.channel_.index_ = (s.conn c).tcp.channel_.index_ ∨
    ∃ l m, s.job a = some (l, c, m) ∧ ((s.after a).conn c).tcp.channel_.index_ =
      (m.run ((s.book a).view c)).channel_.index_ := by
  rw [← index_book s a hc]
  rcases s.after_conn a with ⟨l, c', m, hj, hconn⟩ | ⟨hconn, -⟩ <;> rw [hconn]
  · by_cases hself : c = c'
    · subst hself
      exact .inr ⟨l, m, hj, by rw [perform_tcp]⟩
    · rw [perform_conn_ne hself]
      exact .inl rfl
  · exact .inl rfl

/-- `connectDestoryed` takes the channel out. -/
theorem index_after_destroy (hj : s.job a = some (l, c, .connectDestoryed)) :
    ((s.after a).conn c).tcp.channel_.index_ = .kNew := by
  rcases s.after_conn a with ⟨l', c', m, hj', hconn⟩ | ⟨-, hsilent⟩
  · obtain ⟨rfl, rfl, rfl⟩ : l' = l ∧ c' = c ∧ m = .connectDestoryed := by simpa [hj] using hj'.symm
    rw [hconn, perform_tcp]
    exact Method.index_connectDestoryed
  · exact absurd (hsilent _ hj).2 (by simp [Method.closes])

/-! ## Who is exposed, and who covers for it -/

theorem book_destroyed (ha : s.Ready a) (hl : (s.loop l).stage = .destroyed) :
    ((s.book a).loop l).stage = .destroyed := by
  have hstep := book_loop ha l
  generalize (s.book a).loop l = L at hstep ⊢
  cases hstep with
  | enter hat => exact absurd (hl.symm.trans hat.1) nofun
  | test hat => exact absurd (hl.symm.trans hat.1) nofun
  | poll reports hat hr => exact absurd (hl.symm.trans hat.1) nofun
  | swap hat hactive => exact absurd (hl.symm.trans hat.1) nofun
  | done hat hrest => exact absurd (hl.symm.trans hat.1) nofun
  | clear i hi hstage => exact absurd (hl.symm.trans hstage) nofun
  | discard i hi hstage => exact absurd (hl.symm.trans hstage) nofun
  | endLoop i hi hstage => rfl
  | _ => exact hl

/-- No connection but a new one is waited for anew. -/
theorem Sound.established_waiting (h : s.Sound) (ha : s.Ready a) (hc : c < s.made)
    (hwait : .connectEstablished c ∈ ((s.after a).loop l).waiting) :
    .connectEstablished c ∈ (s.loop l).waiting := by
  obtain ⟨added, hwaiting, hadded⟩ := s.after_waiting a l
  obtain hold | hnew := List.mem_append.mp (hwaiting ▸ hwait)
  · exact h.mem_waiting_of_book ha hold
  · obtain ⟨c', cb, heq, -⟩ | ⟨t, hr, -⟩ := hadded _ hnew
    · cases heq
    · generalize hf : ServerFunctor.connectEstablished c = f at hr
      cases asks_of_request ha hr with
      | functor _ k _ rest hrest =>
        subst hf
        exact List.mem_append_left _ (by simp [hrest])
      | accept sockfd =>
        cases hf
        exact absurd hc (Nat.lt_irrefl _)
      | _ => cases hf

/-- `connectEstablished` is run by its functor, or on a connection that is new. -/
theorem Sound.waiting_of_establish (h : s.Sound) (ha : s.Ready a) (hc : c < s.made)
    (hj : s.job a = some (l, c, m)) (hm : m.isEstablish = true) :
    .connectEstablished c ∈ (s.loop (s.conn c).home).waiting := by
  obtain hb | ⟨f, hr, hf, rfl⟩ := job_cases hj
  · rw [(event_of_branch hb).1] at hm
    cases hm
  obtain ⟨c, rfl⟩ : ∃ c, f = .connectEstablished c := ⟨_, eq_connectEstablished hf hm⟩
  generalize (.loop l : Thread υ) = t at hr
  cases asks_of_request ha hr with
  | functor _ k _ rest hrest =>
    have hmem : .connectEstablished c ∈ (s.loop l).waiting := by simp [ServerLoop.waiting, hrest]
    have howner : (s.conn c).home = l :=
      (h.placed l).owner _ (ServerLoop.mem_functors_of_waiting hmem)
    exact howner.symm ▸ hmem
  | accept sockfd => exact absurd hc (Nat.lt_irrefl _)

/-- Who is exposed was so before, or is to be destroyed. -/
theorem Sound.exposed_before (h : s.Sound) (ha : s.Ready a) (hout : s.StaysOut a) (hc : c < s.made)
    (he : (s.after a).Exposed c) : s.Exposed c ∨ s.Due c := by
  obtain ⟨hstage, he⟩ := he
  rw [s.after_home_of_lt a hc, (s.after_frame a).stage] at hstage
  have hstage' : (s.loop (s.conn c).home).stage ≠ .destroyed := fun hl =>
    hstage (book_destroyed ha hl)
  by_cases hindex : (s.conn c).tcp.channel_.index_ = .kNew
  case neg => exact .inl ⟨hstage', .inl hindex⟩
  obtain hnew | hwait := he
  · obtain heq | ⟨l, m, hj, heq⟩ := s.index_after a hc
    · exact absurd (heq.trans hindex) hnew
    by_cases hest : m.isEstablish = true
    · exact .inl ⟨hstage', .inr (h.waiting_of_establish ha hc hj hest)⟩
    by_cases hdestroy : m.isDestroy = true
    · rw [Method.isDestroy_iff.mp hdestroy, Method.index_connectDestoryed] at heq
      exact absurd heq hnew
    by_cases hops : (m.effect ((s.book a).view c)).ops = []
    · rw [(m.run_does _).channel, hops] at heq
      exact absurd ((heq.trans (index_book s a hc)).trans hindex) hnew
    · obtain hadded | hdue := hout _ hj (by simpa using hest) (by simpa using hdestroy) hops
      · exact absurd hindex hadded
      · exact .inr hdue
  · rw [s.after_home_of_lt a hc] at hwait
    exact .inl ⟨hstage', .inr (h.established_waiting ha hc hwait)⟩

/-- No one is exposed when `connectDestoryed` has run. -/
theorem Sound.not_exposed_of_destroy (h : s.Sound) (ha : s.Ready a) (hc : c < s.made)
    (hj : s.job a = some (l, c, .connectDestoryed)) : ¬ (s.after a).Exposed c := by
  rintro ⟨-, hindex | hwait⟩
  · exact hindex (index_after_destroy hj)
  rw [s.after_home_of_lt a hc] at hwait
  have hold := h.established_waiting ha hc hwait
  obtain hb | ⟨f, hr, hf, rfl⟩ := job_cases hj
  · exact absurd (event_of_branch hb).2 nofun
  obtain ⟨c, rfl⟩ : ∃ c, f = .of c .connectDestoryed := ⟨_, eq_of_connectDestoryed hf⟩
  generalize ht : (.loop l : Thread υ) = t at hr
  cases asks_of_request ha hr with
  | functor _ k _ rest hrest =>
    -- `connectEstablished` comes before anything else that is about `c`
    have hmem : .of c .connectDestoryed ∈ (s.loop l).waiting := by simp [ServerLoop.waiting, hrest]
    obtain rfl : (s.conn c).home = l :=
      (h.placed l).owner _ (ServerLoop.mem_functors_of_waiting hmem)
    have hordered := (h.placed (s.conn c).home).ordered
    change .connectEstablished c ∈ (s.loop (s.conn c).home).waiting at hold
    simp only [ServerLoop.waiting, hrest, List.cons_append, List.pairwise_cons, List.mem_cons,
      reduceCtorEq, false_or] at hordered hold
    exact hordered.1 _ hold c rfl rfl
  | destroy c hc =>
    have hbase : .base = (s.conn c).home := by simpa using ht.symm
    exact ((h.placed _).unannounced c hold).2 hbase.symm

/-- **Who is exposed is held**: it is in the map, or its `connectDestoryed` is queued.  And no loop
is to dispatch a channel that its poller does not have. -/
structure Guarded (s : TcpServer υ) : Prop where
  sound : s.Sound
  covered : ∀ c < s.made, s.Exposed c → s.InMap c ∨ s.Due c
  active : ∀ l, ∀ c ∈ (s.loop l).activeChannels_, (s.conn c).tcp.channel_.index_ ≠ .kNew

omit [DecidableEq υ] in
theorem start_guarded (n : ℕ) (b : Bool) : (start n b : TcpServer υ).Guarded where
  sound := start_sound n b
  covered := nofun
  active l c hc := by
    rcases l with _ | i
    · cases hc
    · simp only [start] at hc
      split at hc <;> cases hc

omit [DecidableEq υ] in
/-- **A connection that nothing holds is clear.** -/
theorem Guarded.clear (h : s.Guarded) (hc : ¬ s.Strong c) : s.Clear c := by
  have hcovered : c < s.made → (s.loop (s.conn c).home).stage ≠ .destroyed →
      (s.conn c).tcp.channel_.index_ = .kNew := by
    intro hlt hstage
    by_contra hindex
    refine hc ?_
    obtain hmap | hdue := h.covered c hlt ⟨hstage, .inl hindex⟩
    · exact .inl hmap
    · exact .inr (.inl ⟨_, h.sound.home c,
        .inl ⟨_, ServerLoop.mem_functors_of_waiting hdue, rfl, rfl⟩⟩)
  have hplaced := h.sound.placed (s.conn c).home
  have hstaged := h.sound.staged (s.conn c).home
  refine ⟨fun fd hfd => ?_, fun fd ev hev hptr => ?_, fun hactive => ?_⟩
  · have hlt := h.sound.made c (hplaced.channels fd c hfd).2
    refine ((h.sound.knows c hlt).channels fd hfd).2 (hcovered hlt fun hstage => ?_)
    rw [hstaged.destroyed hstage] at hfd
    cases hfd
  · have hlt := h.sound.made c (hptr ▸ (hplaced.interest fd ev hev).2)
    have hindex := hcovered hlt fun hstage => by
      rw [hstaged.destroyed hstage] at hev
      cases hev
    have hadded := ((h.sound.knows c hlt).interest fd ev hev hptr).2
    rw [hindex] at hadded
    cases hadded
  · have hlt := h.sound.made c (hplaced.active c hactive).2
    refine h.active _ c hactive (hcovered hlt ?_)
    rw [hstaged.dispatching (List.ne_nil_of_mem hactive)]
    nofun

/-! ## Every run -/

/-- A queued `connectDestoryed` runs, or goes on waiting. -/
theorem Guarded.due_after (h : s.Guarded) (ha : s.Ready a) (hruns : s.RunsOut a) (hc : c < s.made)
    (hdue : s.Due c) (he : (s.after a).Exposed c) : (s.after a).Due c := by
  rw [Due, s.after_home_of_lt a hc]
  obtain hwait | hr | ⟨hdiscards, hnil⟩ := h.sound.waiting_after ha hdue
  · exact hwait
  · refine absurd he (h.sound.not_exposed_of_destroy (l := (s.conn c).home) ha hc ?_)
    rw [job_of_request hr, if_pos rfl]
    rfl
  · -- the queue that is dropped holds no `connectDestoryed` of a channel the poller has
    obtain ⟨-, hindex | hwait⟩ := he
    · obtain ⟨i, rfl, -, hstage⟩ := discards_iff.mp hdiscards
      have hquiet := (h.sound.staged (s.conn c).home).quiet (by simp [hstage]) (by simp [hstage])
      rw [Due, ServerLoop.waiting, hquiet.2.1] at hdue
      have hkNew := hruns _ hdiscards c hc hdue
      obtain heq | ⟨l, m, hj, -⟩ := s.index_after (.endLoop i) hc
      · exact absurd (heq.trans hkNew) hindex
      · cases hj
    · rw [s.after_home_of_lt _ hc, hnil] at hwait
      cases hwait

theorem Guarded.covered_after (h : s.Guarded) (ha : s.Ready a) (hret : s.Retires a)
    (hc : c < s.made) (he : (s.after a).Exposed c) : (s.after a).InMap c ∨ (s.after a).Due c := by
  obtain ⟨hruns, hpass, -, hout⟩ := hret
  have hdue : s.Due c → (s.after a).Due c := fun hd => h.due_after ha hruns hc hd he
  obtain hexposed | hd := h.sound.exposed_before ha hout hc he
  case inr => exact .inr (hdue hd)
  obtain hmap | hd := h.covered c hc hexposed
  case inr => exact .inr (hdue hd)
  by_cases hdrops : s.drops a = some (s.conn c).name
  · have hevicts : s.evicts a = some c := Option.bind_eq_some_iff.mpr ⟨_, hdrops, hmap⟩
    obtain hd | ⟨hpassed, hgone⟩ := hpass c hevicts hexposed
    · exact .inr (hdue hd)
    by_cases hqueues : s.queues a = some c
    · right
      rw [Due, s.after_home_of_lt a hc]
      exact List.mem_append_right _ (pending_of_queues ha hqueues hgone)
    · -- the destructor has run `connectDestoryed` itself
      cases a with
      | destroyNext c' =>
        obtain rfl : c' = c := by simpa [passesOn] using hpassed
        have hbase : (s.conn c').home = .base := by simpa [queues] using hqueues
        refine absurd he (h.sound.not_exposed_of_destroy (l := .base) ha hc ?_)
        rw [job_of_request rfl, hbase]
        rfl
      | _ => exact absurd hpassed hqueues
  · refine .inl (hmap.after ha hc fun k hk hne => hdrops ?_)
    rw [hne]
    exact hk

/-- A channel that is to be dispatched was so before, or the poller has just reported it. -/
theorem Guarded.active_before (h : s.Guarded) (ha : s.Ready a)
    (hactive : c ∈ ((s.book a).loop l).activeChannels_) :
    s.Serves l c ∧ (s.conn c).tcp.channel_.index_ ≠ .kNew := by
  have hold : c ∈ (s.loop l).activeChannels_ →
      s.Serves l c ∧ (s.conn c).tcp.channel_.index_ ≠ .kNew :=
    fun hc => ⟨(h.sound.placed l).active c hc, h.active l c hc⟩
  have hstep := book_loop ha l
  generalize (s.book a).loop l = L at hstep hactive
  cases hstep with
  | test hat =>
    obtain ⟨stage, heq, -⟩ := (s.loop l).testQuit_eq l
    rw [heq] at hactive
    exact hold hactive
  | poll reports hat hr =>
    obtain ⟨r, hmem, rfl⟩ := List.mem_map.mp hactive
    have hreports := hr r hmem
    have hserves := h.sound.serves_of_reports hreports
    refine ⟨hserves, fun hindex => ?_⟩
    have hknows := h.sound.knows r.1 (h.sound.made _ hserves.2)
    rw [hserves.1] at hknows
    unfold Reports at hreports
    rcases hev : (s.loop l).poller_.interest (s.conn r.1).tcp.channel_.fd_ with _ | ev
    · rw [hev] at hreports
      cases hreports
    · rw [hev] at hreports
      have hadded := (hknows.interest _ ev hev hreports.1).2
      rw [hindex] at hadded
      cases hadded
  | dispatch hat => exact hold (List.mem_of_mem_tail hactive)
  | _ => exact hold hactive

/-- No `connectDestoryed` runs on a connection whose channel is to be dispatched. -/
theorem Guarded.not_destroy_of_active (h : s.Guarded) (ha : s.Ready a) (hspares : s.Dispatched a)
    (hactive : c ∈ ((s.book a).loop (s.conn c).home).activeChannels_)
    (hj : s.job a = some (l, c, m)) : m.isDestroy = false := by
  by_contra hm
  obtain rfl := Method.isDestroy_iff.mp (by simpa using hm)
  obtain hb | ⟨f, hr, hf, rfl⟩ := job_cases hj
  · cases (event_of_branch hb).2
  obtain ⟨c, rfl⟩ : ∃ c, f = .of c .connectDestoryed := ⟨_, eq_of_connectDestoryed hf⟩
  generalize ht : (.loop l : Thread υ) = t at hr
  change c ∈ ((s.book a).loop (s.conn c).home).activeChannels_ at hactive
  cases asks_of_request ha hr with
  | functor _ k _ rest hrest =>
    have hmem : .of c .connectDestoryed ∈ (s.loop l).waiting := by simp [ServerLoop.waiting, hrest]
    obtain rfl : (s.conn c).home = l :=
      (h.sound.placed l).owner _ (ServerLoop.mem_functors_of_waiting hmem)
    have hdispatching := (h.sound.book ha).staged _ |>.dispatching (List.ne_nil_of_mem hactive)
    simp only [book, onLoop_self] at hdispatching
    cases hdispatching.symm.trans ha.1.1
  | destroy c hc =>
    have hbase : .base = (s.conn c).home := by simpa using ht.symm
    rw [← hbase] at hactive
    exact hspares c rfl hactive

theorem Guarded.active_after (h : s.Guarded) (ha : s.Ready a) (hspares : s.Dispatched a)
    (hactive : c ∈ ((s.after a).loop l).activeChannels_) :
    ((s.after a).conn c).tcp.channel_.index_ ≠ .kNew := by
  rw [(s.after_frame a).activeChannels_] at hactive
  obtain ⟨⟨rfl, hup⟩, hindex⟩ := h.active_before ha hactive
  have hc := h.sound.made c hup
  obtain heq | ⟨l, m, hj, heq⟩ := s.index_after a hc <;> rw [heq]
  · exact hindex
  · refine Method.index_ne_kNew ?_ (.inr ?_)
    · rintro rfl
      cases h.not_destroy_of_active ha hspares hactive hj
    · rw [← index_book s a hc] at hindex
      exact hindex

theorem inMap_accept (s : TcpServer υ) (sockfd : ℤ) :
    (s.after (.newConncetion sockfd)).InMap s.made := by
  have haccept : (s.accept sockfd).InMap s.made := by simp [InMap, accept]
  change ((s.accept sockfd).runInLoop (.loop .base) _ _ (.connectEstablished s.made)).InMap s.made
  unfold runInLoop
  split
  · rw [InMap, exec, perform_name]
    exact haccept
  · exact haccept

theorem Guarded.next (h : s.Guarded) (ha : steps.enabled s a) (hret : s.Retires a) :
    (steps.next s a).Guarded where
  sound := h.sound.next ha.1
  covered c hc he := by
    change c < (s.after a).made at hc
    rw [(s.after_frame a).made] at hc
    obtain hlt | ⟨sockfd, rfl, rfl⟩ := lt_book_made hc
    · exact h.covered_after ha.1 hret hlt he
    · exact .inl (s.inMap_accept sockfd)
  active l c hc := h.active_after ha.1 hret.2.2.1 hc

/-- **The last reference to a connection goes when nothing points to its channel, in every run in
which its `connectDestoryed` is not lost and nothing undoes what that does.** -/
theorem unregistered (n : ℕ) (b : Bool) (as : List (Action υ)) (h : steps.Valid (start n b) as)
    (hret : steps.Along Retires (start n b) as) : steps.Along Unregistered (start n b) as :=
  (Machine.along_and.mpr ⟨h, hret⟩).imp_of_invariant (I := Guarded)
    (fun _ _ hs ha => hs.next ha.1 ha.2)
    (fun _ _ hs ha _ _ hc => (hs.next ha.1 ha.2).clear hc) (start_guarded n b)

/-- A peer's close in a sub-loop, until the connection goes with the end of the batch. -/
theorem unregistered_close :
    steps.Along Unregistered (start 1 false : TcpServer Unit)
      [.enter .base, .test .base, .poll .base [], .newConncetion 7, .enter (.sub 0), .test (.sub 0),
        .poll (.sub 0) [], .doPendingFunctors (.sub 0), .functor (.sub 0) ⟨⟨0, 0, 0⟩, .data []⟩,
        .ret (.sub 0), .donePendingFunctors (.sub 0), .test (.sub 0),
        .poll (.sub 0) [(0, EPOLLIN)], .dispatch (.sub 0), .task (.sub 0) ⟨⟨0, 0, 0⟩, .data []⟩,
        .ret (.sub 0), .task (.sub 0) ⟨⟨0, 0, 0⟩, .data []⟩, .doPendingFunctors .base,
        .functor .base ⟨⟨0, 0, 0⟩, .data []⟩, .donePendingFunctors .base, .doPendingFunctors (.sub 0),
        .functor (.sub 0) ⟨⟨0, 0, 0⟩, .data []⟩, .donePendingFunctors (.sub 0)] :=
  unregistered 1 false _ (by decide +kernel) (by decide +kernel)

/-- The server is destroyed with a connection open: `quit` reaches the sub-loop before the
`connectDestoryed` that is in its queue, and the queue goes with the loop. -/
theorem not_unregistered_quit :
    ¬ ∀ (n : ℕ) (b : Bool) (as : List (Action Unit)), steps.Valid (start n b) as →
      steps.Along Unregistered (start n b) as := by
  intro h
  have hrun := h 1 false
    [.enter .base, .test .base, .poll .base [], .newConncetion 7, .enter (.sub 0), .test (.sub 0),
      .poll (.sub 0) [], .doPendingFunctors (.sub 0), .functor (.sub 0) ⟨⟨0, 0, 0⟩, .data []⟩,
      .ret (.sub 0), .destroy, .destroyNext 0, .stop, .stop, .donePendingFunctors (.sub 0),
      .test (.sub 0), .endLoop 0, .endLoop 0] (by decide +kernel)
  have hchannel := hrun.mono (Q := fun (s : TcpServer Unit) a => s.Strong 0 →
      ¬ (s.after a).Strong 0 →
        ((s.after a).loop ((s.after a).conn 0).home).poller_.channels_ 7 ≠ some 0)
    fun s a hs hstrong hgone => (hs 0 hstrong hgone).channels 7
  revert hchannel
  decide +kernel

end TcpServer

end Mymuduo
