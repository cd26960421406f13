import Mymuduo.TcpServer.Sessions

/-!
# TcpServer/Streams — what holds of a session holds of every connection of a server

A connection of a server comes to what its session comes to (`Hosting.comes_to`): its output is made
up of the methods that run on it, what is handed to it runs or waits in the queue of its loop, and
the poller of its loop agrees with its channel.  What the other connections of the loop do in between
makes no difference, nor does what threads do that have the connection.
-/

namespace Mymuduo

open Machinery TcpConnection EPollPoller

namespace TcpServer

variable {υ : Type*} [DecidableEq υ] {s : TcpServer υ} {a : Action υ} {as : List (Action υ)}
  {l : LoopId} {c : ℕ} {sockfd : ℤ} {σ : Session ℕ (Thread υ)}

/-- The method an action runs on `c`, with the connection it finds: none where nothing holds it. -/
def runsOn (c : ℕ) (s : TcpServer υ) (a : Action υ) :
    List (TcpConnection ℕ (Thread υ) × Method (Thread υ)) :=
  if s.Strong c then s.jobsOn c a else []

/-- The messages of `c` that wait in the queue of its loop. -/
def queuedOn (c : ℕ) (s : TcpServer υ) : List (Thread υ × List Byte) :=
  ((s.homeOf c).queueOf c).flatMap PendingFunctor.message

/-! ## The two runs -/

omit [DecidableEq υ] in
/-- A thread that hands over a message has the connection. -/
theorem Sound.handedOn_of_not_strong (h : s.Sound) (hs : ¬ s.Strong c) : s.handedOn c a = [] := by
  cases a with
  | sendRun t k =>
    have hidle : s.callOn c t = .idle := by
      unfold callOn
      split
      case isTrue hcallee =>
        by_contra hcall
        exact hs (h.strong_of_has (hcallee ▸ h.calling t hcall))
      case isFalse => rfl
    simp [handedOn, hidle]
  | _ => rfl

/-- **The session runs what the connection runs, and is handed what it is handed.** -/
theorem collect_session (hs : s.Hosting ∧ c < s.made ∧ (s.conn c).home = l)
    (hrun : steps.Along (fun s a => steps.enabled s a ∧ a.distinct) s as)
    (hrel : s.Strong c → Tracks c s σ) :
    (Session.marked (.loop l)).collect (Session.runs (.loop l)) σ
        (steps.collect (sessionActions c) s as) = steps.collect (runsOn c) s as ∧
      (Session.marked (.loop l)).collect Session.hands σ
        (steps.collect (sessionActions c) s as) = steps.collect (handedOn c) s as := by
  constructor
  · refine (session c l).collect (fun s σ a => ?_) hs hrun hrel
    rintro ⟨h, hc, rfl⟩ ⟨ha, hdistinct⟩ hrel
    change (Session.marked _).collect _ σ (sessionActions c s a) = _
    by_cases hs : s.Strong c
    · rw [(h.square (hrel hs) ha hdistinct hc hs).runs, runsOn, if_pos hs]
    · rw [sessionActions, if_neg hs, runsOn, if_neg hs]
      rfl
  · refine (session c l).collect (fun s σ a => ?_) hs hrun hrel
    rintro ⟨h, hc, rfl⟩ ⟨ha, hdistinct⟩ hrel
    change (Session.marked _).collect _ σ (sessionActions c s a) = _
    by_cases hs : s.Strong c
    · exact (h.square (hrel hs) ha hdistinct hc hs).hands
    · rw [sessionActions, if_neg hs, h.sound.handedOn_of_not_strong hs]
      rfl

/-- Its birth comes to nothing. -/
theorem Sound.sums_birth (h : s.Sound)
    (hbirth : (Session.marked (.loop s.threadPool_.getNextLoop.1)).Valid (s.newborn sockfd) s.birth) :
    Session.Sums (.loop s.threadPool_.getNextLoop.1) [] []
      ((Session.marked (.loop s.threadPool_.getNextLoop.1)).run (s.newborn sockfd) s.birth) := by
  have hnew : Session.Sums (.loop s.threadPool_.getNextLoop.1) [] [] (s.newborn sockfd) :=
    (h.newborn_initial sockfd).sums
  by_cases hbase : s.threadPool_.getNextLoop.1 = .base
  · rw [birth, if_pos hbase] at hbirth ⊢
    obtain ⟨houtput, hclosed, hran, hforeign, horder⟩ := hnew.next hbirth.1
    exact ⟨houtput, hclosed, hran, hforeign, horder⟩
  · rwa [birth, if_neg hbase]

/-- **A connection comes to what its session comes to.** -/
theorem Hosting.comes_to (h : s.Hosting)
    (hrun : steps.Along (fun s a => steps.enabled s a ∧ a.distinct) s
      (.newConncetion sockfd :: as))
    (hs : (steps.run s (.newConncetion sockfd :: as)).Strong s.made) :
    let σ := (Session.marked (.loop s.threadPool_.getNextLoop.1)).run (s.newborn sockfd)
      (s.sessionRun sockfd as)
    σ.Phased ∧ Tracks s.made (steps.run s (.newConncetion sockfd :: as)) σ ∧
      Session.Sums (.loop s.threadPool_.getNextLoop.1)
        (steps.collect (runsOn s.made) (s.after (.newConncetion sockfd)) as)
        (steps.collect (handedOn s.made) (s.after (.newConncetion sockfd)) as) σ := by
  obtain ⟨hbirth, htracks⟩ := h.sound.born sockfd
  obtain ⟨hvalid, hend⟩ := h.sessions hrun
  obtain ⟨hruns, hhands⟩ := collect_session (h.hosts hrun.1.1) hrun.2 fun _ => htracks
  have hinitial := h.sound.newborn_initial sockfd
  refine ⟨hvalid.invariant (fun _ _ hp hb => hp.marked_next hb) (.inl hinitial), hend hs, ?_⟩
  rw [sessionRun, Machine.run_append, ← hruns, ← hhands]
  rw [sessionRun] at hvalid
  simpa using (h.sound.sums_birth hbirth).run (Machine.along_append.mp hvalid).2

/-! ## What that says -/

/-- A connection whose loop is there has queued what its session has. -/
theorem Tracks.queued (hσ : Tracks c s σ) (h : s.Sound)
    (hgone : (s.homeOf c).stage.gone = false) : σ.conn.queued = s.queuedOn c := by
  rw [TcpConnection.queued, hσ.queue hgone, queuedOn]
  by_cases hup : s.Up c
  · rw [if_pos hup]
  · rw [if_neg hup]
    refine (List.flatMap_eq_nil_iff.mpr fun g hg => ?_).symm
    obtain ⟨f, hf, hown⟩ := List.mem_filterMap.mp hg
    rcases f with c' | c' | ⟨c', g'⟩
    · cases hown
    · cases hown
    · obtain ⟨rfl, rfl⟩ : c' = c ∧ g' = g := by simpa [ServerFunctor.own] using hown
      have hearly := mt ((h.placed _).early _ (ServerLoop.mem_functors_of_waiting hf)) hup
      cases g' <;> first | rfl | exact absurd rfl hearly

theorem Tracks.channel (hσ : Tracks c s σ) : σ.conn.channel_ = (s.conn c).tcp.channel_ := by
  rw [hσ.conn]

theorem Tracks.output (hσ : Tracks c s σ) : σ.conn.output = (s.conn c).tcp.output := by
  rw [hσ.conn]
  rfl

/-- The session of a connection that has been announced is past its beginning. -/
theorem Tracks.live (hσ : Tracks c s σ) (h : σ.Phased) (hup : s.Up c) : σ.Live := by
  obtain ⟨tcp, -, rfl⟩ | hlive := h
  · cases hσ.established.mpr hup
  · exact hlive

/-- A connection's poller agrees with its channel as its session's does. -/
theorem Tracks.agrees (hσ : Tracks c s σ) (hgone : (s.homeOf c).stage.gone = false)
    (haddr : (s.conn c).tcp.addr = c) (h : σ.conn.Agrees) :
    (s.homeOf c).poller_.AgreesAt c (s.conn c).tcp.channel_ := by
  have hchannel := hσ.channel
  have hself : σ.conn.addr = c := by rw [hσ.conn]; exact haddr
  rwa [Agrees, hchannel, hself, hσ.poller hgone] at h

/-- The messages that run on `c`. -/
def ranOn (c : ℕ) (s : TcpServer υ) (a : Action υ) : List (Thread υ × List Byte) :=
  (s.runsOn c a).flatMap (·.2.message)

/-- An action runs no closing method on `c`. -/
def Spares (c : ℕ) (s : TcpServer υ) (a : Action υ) : Prop :=
  ∀ r ∈ s.runsOn c a, r.2.closes = false

instance (c : ℕ) (s : TcpServer υ) (a : Action υ) : Decidable (s.Spares c a) :=
  inferInstanceAs (Decidable (∀ r ∈ s.runsOn c a, _))

/-- It is open until one runs. -/
theorem closed_of_spares {ms : List (Thread υ × List Byte)}
    (hsums : Session.Sums (.loop l) (steps.collect (runsOn c) s as) ms σ)
    (hspares : steps.Along (Spares c) s as) : σ.closed = false := by
  rw [hsums.closed, List.any_eq_false]
  exact fun r hr => Bool.eq_false_iff.mp (steps.forall_mem_collect.mpr hspares r hr)

/-! ## Every run -/

/-- A descriptor comes again after a connection that a late `sendInLoop` left registered: the kernel
dropped it at the `close`, `channels_` has the old entry until the new one replaces it. -/
example :
    let as : List (Action Unit) := [.enter .base, .test .base, .poll .base [], .newConncetion 7,
      .share (.loop .base) (.user ()) 0, .ret .base, .send (.user ()) 0 [1],
      .doPendingFunctors .base, .donePendingFunctors .base, .test .base,
      .poll .base [(0, EPOLLIN)], .dispatch .base, .task .base ⟨⟨0, 0, 0⟩, .data []⟩, .ret .base,
      .task .base ⟨⟨0, 0, 0⟩, .data []⟩, .doPendingFunctors .base,
      .functor .base ⟨⟨0, 0, 0⟩, .data []⟩, .donePendingFunctors .base,
      .sendRun (.user ()) ⟨⟨0, 0, 0⟩, .data []⟩, .test .base, .poll .base [],
      .doPendingFunctors .base, .functor .base ⟨⟨-1, EWOULDBLOCK, 0⟩, .data []⟩,
      .release (.user ()) 0, .donePendingFunctors .base, .test .base, .poll .base []]
    let s := steps.run (start 0 false) as
    let s' := s.after (.newConncetion 7)
    steps.Valid (start 0 false) (as ++ [.newConncetion 7]) ∧ ¬ s.Strong 0 ∧
      (s.loop .base).poller_.interest 7 ≠ none ∧ (s.loop .base).poller_.channels_ 7 = some 0 ∧
      (s'.loop .base).poller_.interest 7 = some ⟨Channel.kReadEvent, 1⟩ ∧
      (s'.loop .base).poller_.channels_ 7 = some 1 := by
  decide +kernel

end TcpServer

end Mymuduo
