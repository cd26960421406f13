import Mymuduo.TcpServer.Soundness

/-!
# TcpServer/Teardown — who is told that a connection is down

A connection is torn down by `connectDestoryed`, and there are two ways to it:

    handleClose ──▸ removeConnection ──▸ removeConnectionInLoop ──▸ connectDestoryed
    ~TcpServer ───────────────────────────────────────────────────▸ connectDestoryed

`handleClose` calls `connectionCallback_`; `connectDestoryed` disables the channel of a connection
it finds open, and calls nothing.  So the user is told of every close but those the destructor
makes, and whether one has been told can be read off the channel: it asks for reading from `up` to
`down`, unless `connectDestoryed` has come in between (`matched_iff`).
-/

namespace Mymuduo

open Machinery TcpConnection

namespace TcpServer

variable {υ : Type*} [DecidableEq υ] {s : TcpServer υ} {a : Action υ} {l : LoopId} {c : ℕ}
  {m : Method (Thread υ)}

/-- **The law**: where `connectDestoryed` has run on a connection that was announced as up, it has
been announced as down. -/
def Matched (s : TcpServer υ) (a : Action υ) : Prop :=
  ∀ j ∈ s.job a, j.2.2.isDestroy = true → (s.after a).Up j.2.1 → (s.after a).Down j.2.1

/-- `connectDestoryed` finds the channel no longer reading. -/
def Closed (s : TcpServer υ) (a : Action υ) : Prop :=
  ∀ j ∈ s.job a, j.2.2.isDestroy = true → (s.conn j.2.1).tcp.channel_.isReading = false

instance (s : TcpServer υ) (a : Action υ) : Decidable (s.Matched a) :=
  inferInstanceAs (Decidable (∀ j ∈ s.job a, _ → _ → _))

instance (s : TcpServer υ) (a : Action υ) : Decidable (s.Closed a) :=
  inferInstanceAs (Decidable (∀ j ∈ s.job a, _ → _))

/-! ## What is told and what is asked for -/

omit [DecidableEq υ] in
/-- The channel of `c` asks for reading exactly while `c` is up, as far as anyone has been told. -/
def Honest (s : TcpServer υ) (c : ℕ) : Prop :=
  (s.conn c).tcp.channel_.isReading = true ↔ s.Up c ∧ ¬ s.Down c

/-- What has been told of every connection. -/
structure Told (s : TcpServer υ) : Prop where
  sound : s.Sound
  down : ∀ c < s.made, s.Down c → s.Up c
  honest : ∀ c < s.made, s.Honest c

omit [DecidableEq υ] in
theorem start_told (n : ℕ) (b : Bool) : (start n b : TcpServer υ).Told :=
  ⟨start_sound n b, nofun, nofun⟩

/-- `connectEstablished` runs on a connection that has not been announced. -/
theorem Sound.not_up_of_establish (h : s.Sound) (ha : s.Ready a) (hj : s.job a = some (l, c, m))
    (hm : m.isEstablish = true) : ¬ (s.book a).Up c := by
  obtain hb | ⟨f, hr, hf, rfl⟩ := job_cases hj
  · rw [(event_of_branch hb).1] at hm
    cases hm
  obtain ⟨c, rfl⟩ : ∃ c, f = .connectEstablished c := ⟨_, eq_connectEstablished hf hm⟩
  generalize ht : (.loop l : Thread υ) = t at hr
  cases asks_of_request ha hr with
  | functor _ k _ rest hrest =>
    exact ((h.placed l).unannounced c (by simp [ServerLoop.waiting, hrest])).1
  | accept sockfd => exact s.accept_not_up sockfd

/-- The connection `connectDestoryed` runs on is not the one being accepted. -/
theorem Sound.lt_made_of_destroy (h : s.Sound) (ha : s.Ready a) (hj : s.job a = some (l, c, m))
    (hm : m.isDestroy = true) : c < s.made := by
  obtain hlt | ⟨sockfd, rfl, -⟩ := lt_book_made (h.performs_of_job ha hj).made
  · exact hlt
  · obtain hb | ⟨f, hr, hf, -⟩ := job_cases hj
    · cases hb
    · generalize ht : (.loop l : Thread υ) = t at hr
      cases asks_of_request ha hr
      cases hf
      cases hm

theorem isReading_book (s : TcpServer υ) (a : Action υ) (hc : c < s.made) :
    ((s.book a).conn c).tcp.channel_.isReading = (s.conn c).tcp.channel_.isReading := by
  obtain ⟨tcp, revt, heq, hchannel⟩ := s.book_conn a hc
  rw [heq, hchannel]
  rfl

theorem notified_book (s : TcpServer υ) (a : Action υ) (hc : c < s.made) :
    ((s.book a).conn c).notified = (s.conn c).notified := by
  obtain ⟨tcp, revt, heq, -⟩ := s.book_conn a hc
  rw [heq]

/-- A connection is accepted with nothing told of it, and asks for nothing. -/
theorem Told.book (h : s.Told) (ha : s.Ready a) : (s.book a).Told := by
  refine ⟨h.sound.book ha, fun c hc hdown => ?_, fun c hc => ?_⟩
  · obtain hlt | ⟨sockfd, rfl, rfl⟩ := lt_book_made hc
    · rw [Down, notified_book s a hlt] at hdown
      rw [Up, notified_book s a hlt]
      exact h.down c hlt hdown
    · simp [Down, TcpServer.book, accept] at hdown
  · obtain hlt | ⟨sockfd, rfl, rfl⟩ := lt_book_made hc
    · rw [Honest, Up, Down, notified_book s a hlt, isReading_book s a hlt]
      exact h.honest c hlt
    · refine iff_of_false ?_ fun hup => s.accept_not_up sockfd hup.1
      simp [TcpServer.book, accept, TcpConnection.new, Channel.new, Channel.isReading,
        Channel.kNoneEvent]

omit [DecidableEq υ] in
/-- **A method keeps the two in step**, unless it is a `connectDestoryed` that finds the channel
reading. -/
theorem Told.honest_perform (h : s.Told) (hp : s.Performs l c m)
    (hest : m.isEstablish = true → ¬ s.Up c)
    (hclosed : m.isDestroy = true → (s.conn c).tcp.channel_.isReading = false) :
    (s.perform l c m).Honest c := by
  have hhonest := h.honest c hp.made
  have hview : (s.view c).channel_.isReading = (s.conn c).tcp.channel_.isReading := rfl
  rw [Honest, up_perform, down_perform, perform_tcp]
  by_cases he : m.isEstablish = true
  · have hdown : ¬ s.Down c := fun hd => hest he (h.down c hp.made hd)
    simp [Method.isReading_establish he, he, hdown]
  rw [Bool.not_eq_true] at he
  by_cases hc : m.closes = true
  · have hread : (m.run (s.view c)).channel_.isReading = false := by
      refine Method.isReading_closes hc fun hn => ?_
      rw [hview]
      exact hclosed (Method.isDestroy_iff.mpr (Method.eq_connectDestoryed hc hn))
    cases hn : m.notifies with
    | true => simp [hread, he]
    | false =>
      have hdestroy := Method.isDestroy_iff.mpr (Method.eq_connectDestoryed hc hn)
      rw [Honest, hclosed hdestroy] at hhonest
      simpa [hread, he] using hhonest
  · rw [Bool.not_eq_true] at hc
    have hn : m.notifies = false := by
      by_contra hn
      rw [Method.closes_of_notifies (by simpa using hn) he] at hc
      cases hc
    rw [Method.isReading_silent hc he, hview]
    rw [Honest] at hhonest
    simpa [he, hn] using hhonest

theorem Told.next (h : s.Told) (ha : steps.enabled s a) (hclosed : s.Closed a) :
    (steps.next s a).Told := by
  have hbook := h.book ha.1
  refine ⟨h.sound.next ha.1, fun c hc => ?_, fun c hc => ?_⟩
  all_goals
    change c < (s.after a).made at hc
    rw [(s.after_frame a).made] at hc
    rcases s.after_conn a with ⟨l, c', m, hj, hconn⟩ | ⟨hconn, -⟩
  · change (s.after a).Down c → (s.after a).Up c
    rw [Down, Up, hconn]
    intro hdown
    refine up_perform.mpr ?_
    obtain hdown | ⟨rfl, hn, he⟩ := down_perform.mp hdown
    · exact .inl (hbook.down c hc hdown)
    · obtain hest | rfl | hup := (h.sound.performs_of_job ha.1 hj).up
      · exact .inr ⟨rfl, hest⟩
      · cases hn
      · exact .inl hup
  · change (s.after a).Down c → (s.after a).Up c
    rw [Down, Up, hconn]
    exact hbook.down c hc
  · change (s.after a).Honest c
    rw [Honest, Up, Down, hconn]
    by_cases hself : c = c'
    · subst hself
      refine hbook.honest_perform (h.sound.performs_of_job ha.1 hj)
        (h.sound.not_up_of_establish ha.1 hj) fun hm => ?_
      rw [isReading_book s a (h.sound.lt_made_of_destroy ha.1 hj hm)]
      exact hclosed _ hj hm
    · rw [perform_conn_ne hself]
      exact hbook.honest c hc
  · change (s.after a).Honest c
    rw [Honest, Up, Down, hconn]
    exact hbook.honest c hc

/-- Whether the law holds at a `connectDestoryed` is seen from the channel it finds. -/
theorem Told.matched_iff_closed (h : s.Told) (ha : steps.enabled s a) :
    s.Matched a ↔ s.Closed a := by
  refine forall₂_congr fun j hj => imp_congr_right fun hm => ?_
  obtain ⟨l, c, m⟩ := j
  have hlt := h.sound.lt_made_of_destroy ha.1 hj hm
  have hhonest : _ ↔ _ := h.honest c hlt
  rcases s.after_conn a with ⟨l', c', m', hj', hconn⟩ | ⟨-, hsilent⟩
  · obtain ⟨hl, hc, hm'⟩ : l' = l ∧ c' = c ∧ m' = m := by simpa [hj'] using hj
    subst hl hc hm'
    obtain rfl := Method.isDestroy_iff.mp hm
    have hup : (s.after a).Up c' ↔ s.Up c' := by
      rw [Up, hconn]
      refine up_perform.trans ?_
      rw [Up, notified_book s a hlt]
      simp [Up, Method.isEstablish]
    have hdown : (s.after a).Down c' ↔ s.Down c' := by
      rw [Down, hconn]
      refine down_perform.trans ?_
      rw [Down, notified_book s a hlt]
      simp [Down, Method.notifies]
    simp only [hup, hdown]
    rw [← Bool.not_eq_true, hhonest]
    tauto
  · have hcloses := (hsilent _ hj).2
    rw [Method.isDestroy_iff.mp hm] at hcloses
    cases hcloses

/-- **Every connection announced as up has been announced as down when its `connectDestoryed` is
over, exactly if every `connectDestoryed` finds the channel no longer reading** — that is, after a
`handleClose`, and not straight from `~TcpServer`. -/
theorem matched_iff (n : ℕ) (b : Bool) (as : List (Action υ))
    (h : steps.Valid (start n b) as) :
    steps.Along Matched (start n b) as ↔ steps.Along Closed (start n b) as :=
  Machine.along_congr_of_guarded (I := Told) (fun _ _ hs ha hr => hs.next ha hr)
    (fun _ _ hs ha => hs.matched_iff_closed ha) h (start_told n b)

/-- A peer's close in a sub-loop, followed to `connectDestoryed`. -/
theorem matched_iff_close :
    steps.Along Matched (start 1 false : TcpServer Unit)
      [.enter .base, .test .base, .poll .base [], .newConncetion 7, .enter (.sub 0), .test (.sub 0),
        .poll (.sub 0) [], .doPendingFunctors (.sub 0), .functor (.sub 0) ⟨⟨0, 0, 0⟩, .data []⟩,
        .ret (.sub 0), .donePendingFunctors (.sub 0), .test (.sub 0),
        .poll (.sub 0) [(0, EPOLLIN)], .dispatch (.sub 0), .task (.sub 0) ⟨⟨0, 0, 0⟩, .data []⟩,
        .ret (.sub 0), .task (.sub 0) ⟨⟨0, 0, 0⟩, .data []⟩, .doPendingFunctors .base,
        .functor .base ⟨⟨0, 0, 0⟩, .data []⟩, .doPendingFunctors (.sub 0),
        .functor (.sub 0) ⟨⟨0, 0, 0⟩, .data []⟩] :=
  (matched_iff 1 false _ (by decide +kernel)).mpr (by decide +kernel)

/-- The server is destroyed with a connection open: `connectDestoryed` runs, and nobody is told. -/
theorem not_matched_destroyed :
    ¬ ∀ (n : ℕ) (b : Bool) (as : List (Action Unit)), steps.Valid (start n b) as →
      steps.Along Matched (start n b) as := by
  intro h
  have hrun := h 0 false
    [.enter .base, .test .base, .poll .base [], .newConncetion 7, .ret .base, .destroy,
      .destroyNext 0] (by decide +kernel)
  revert hrun
  decide +kernel

end TcpServer

end Mymuduo
