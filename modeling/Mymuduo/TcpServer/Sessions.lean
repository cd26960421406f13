import Mymuduo.TcpServer.Square
import Mymuduo.TcpServer.Table

/-!
# TcpServer/Sessions — every connection of a server lives through a session

A server is, to a connection on one of its loops, a session (`session`), from the `newConncetion`
that makes it (`newborn`) as long as something holds it.  So what holds of every run of a session
holds of every connection of a server, in the company of whichever others.  That a poll reports each
channel once is all that is asked of the kernel beside its answers.
-/

namespace Mymuduo

open Machinery TcpConnection EPollPoller

namespace TcpServer

variable {υ : Type*} [DecidableEq υ] {s s' : TcpServer υ} {a : Action υ} {l : LoopId} {c : ℕ}
  {m : Method (Thread υ)} {f : ServerFunctor υ} {k : Answer} {t : Thread υ}
  {σ : Session ℕ (Thread υ)}

/-! ## The session of a connection -/

/-- **A server is, to its connection `c` on the loop `l`, a session**, as long as something holds
it. -/
def session (c : ℕ) (l : LoopId) :
    Tracking (steps (υ := υ)) (Session.marked (κ := ℕ) (Thread.loop l : Thread υ))
    (fun s a => steps.enabled s a ∧ a.distinct)
    (fun s => s.Hosting ∧ c < s.made ∧ (s.conn c).home = l) where
  rel s σ := s.Strong c → Tracks c s σ
  label := sessionActions c
  keeps := fun s a ⟨h, hc, hl⟩ ha =>
    ⟨h.next ha.1.1 ha.2, lt_made_after hc, (s.after_home_of_lt a hc).trans hl⟩
  follows := by
    rintro s σ a ⟨h, hc, rfl⟩ ⟨ha, hdistinct⟩ hrel
    by_cases hs : s.Strong c
    · have hsquare := h.square (hrel hs) ha hdistinct hc hs
      exact ⟨hsquare.valid, fun _ => hsquare.tracks⟩
    · rw [sessionActions, if_neg hs]
      exact ⟨trivial, fun hs' => absurd (h.sound.strong_before ha.1 hc hs') hs⟩

/-! ### Birth -/

/-- The session of the connection that `newConncetion` makes. -/
def newborn (s : TcpServer υ) (sockfd : ℤ) : Session ℕ (Thread υ) :=
  .new { TcpConnection.new s.made sockfd
      ((s.loop s.threadPool_.getNextLoop.1).poller_.closed sockfd) with
    writeCompleteCallback_ := s.writeCompleteCallback_ }

/-- A connection of the base loop is announced where it is made. -/
def birth (s : TcpServer υ) : List (Session.Action ℕ (Thread υ) ⊕ ℕ) :=
  if s.threadPool_.getNextLoop.1 = .base then [.inl .connectEstablished] else []

omit [DecidableEq υ] in
/-- Its loop's poller has nothing of it yet: no entry of an earlier connection with its descriptor in
the interest set, and none of its own in `channels_`. -/
theorem Sound.newborn_initial (h : s.Sound) (sockfd : ℤ) : (s.newborn sockfd).Initial := by
  refine ⟨_, ⟨rfl, rfl, rfl, rfl, rfl, rfl, Function.update_self .., fun hchannel => ?_⟩, rfl⟩
  exact Nat.lt_irrefl _ (h.made _ ((h.placed _).channels sockfd s.made hchannel).2)

/-- Nothing is about a connection before it is made. -/
theorem Sound.tracks_accept (h : s.Sound) (sockfd : ℤ) :
    Tracks s.made (s.accept sockfd) (s.newborn sockfd) := by
  have hconn : (s.accept sockfd).conn s.made =
      { tcp := { TcpConnection.new s.made sockfd .new with
          writeCompleteCallback_ := s.writeCompleteCallback_ }
        home := s.threadPool_.getNextLoop.1
        name := s.nextConnId_
        notified := [] } := Function.update_self ..
  have hhome : (s.accept sockfd).homeOf s.made =
      { s.loop s.threadPool_.getNextLoop.1 with
        poller_ := (s.loop s.threadPool_.getNextLoop.1).poller_.closed sockfd } := by
    rw [homeOf, hconn, accept_loop]
  have htarget : ∀ l, ∀ f ∈ (s.loop l).waiting, f.target ≠ s.made := fun l f hf =>
    Nat.ne_of_lt ((h.placed l).target f (ServerLoop.mem_functors_of_waiting hf))
  refine ⟨?_, ?_, fun t => ?_, ?_, ?_, ?_, fun _ => ?_, fun _ => ?_⟩
  · rw [hconn]
    rfl
  · exact iff_of_false (by simp [newborn, Session.new]) (s.accept_not_up sockfd)
  · have hidle : s.callee t = s.made → s.call t = .idle := by
      intro hcallee
      by_contra hcall
      exact Nat.lt_irrefl _ (hcallee ▸ h.made _ (h.up_callee hcall))
    change .idle = s.callOn s.made t
    unfold callOn
    split
    case isTrue hcallee => exact (hidle hcallee).symm
    case isFalse => rfl
  · rw [hhome, ServerLoop.todoOf, List.filter_eq_nil_iff.mpr]
    · rfl
    · intro r hr heq
      exact Nat.ne_of_lt (h.made _ ((h.placed _).todo r hr).2) (of_decide_eq_true heq)
  · rw [hhome]
    refine iff_of_false (by simp [newborn, Session.new]) fun hmem => ?_
    exact Nat.lt_irrefl _ (h.made _ ((h.placed _).active _ hmem).2)
  · refine (List.count_eq_zero_of_not_mem fun hmem => ?_).symm
    exact htarget .base _ hmem rfl
  · rw [hhome]
    rfl
  · rw [if_neg (s.accept_not_up sockfd)]
    rfl

/-- **A connection is born into its session.** -/
theorem Sound.born (h : s.Sound) (sockfd : ℤ) :
    (Session.marked (.loop s.threadPool_.getNextLoop.1)).Valid (s.newborn sockfd) s.birth ∧
      Tracks s.made (s.after (.newConncetion sockfd))
        ((Session.marked (.loop s.threadPool_.getNextLoop.1)).run (s.newborn sockfd) s.birth) := by
  have htracks := h.tracks_accept sockfd
  have hhome : ((s.accept sockfd).conn s.made).home = s.threadPool_.getNextLoop.1 := by
    simp [TcpServer.accept]
  have hafter : s.after (.newConncetion sockfd) = (s.accept sockfd).runInLoop (.loop .base)
      s.threadPool_.getNextLoop.1 (Action.newConncetion sockfd : Action υ).answer
      (.connectEstablished s.made) := rfl
  have hnone : ((s.accept sockfd).homeOf s.made).queueOf s.made = [] := by
    refine List.filterMap_eq_nil_iff.mpr fun f hf => ?_
    rw [homeOf, hhome] at hf
    have hlt := (h.placed _).target f (ServerLoop.mem_functors_of_waiting hf)
    rcases f with c | c | ⟨c, g⟩
    · rfl
    · rfl
    · exact if_neg (Nat.ne_of_lt hlt)
  rw [hafter, birth, TcpServer.runInLoop]
  by_cases hbase : s.threadPool_.getNextLoop.1 = .base
  · rw [if_pos hbase, if_pos (by rw [hbase])]
    have hgone : ((s.accept sockfd).homeOf s.made).stage.gone = false := by
      rw [homeOf, hhome, hbase]
      exact (h.staged .base).base rfl
    refine ⟨⟨⟨⟨rfl, rfl, rfl⟩, ?_⟩, trivial⟩, ?_⟩
    · rintro m ⟨⟩
      trivial
    · have hrun := htracks.establish hhome hgone (s.accept_not_up sockfd)
      rw [hnone, List.append_nil] at hrun
      exact hrun
  · rw [if_neg hbase, if_neg (by simpa using Ne.symm hbase)]
    refine ⟨trivial, htracks.queueInLoop ?_ fun hgone => ?_⟩
    · refine htracks.removals.trans ?_
      rw [removalsOf, removalsOf, waiting_queueInLoop, List.count_append]
      split <;> simp
    · rw [if_neg (s.accept_not_up sockfd)]
      rfl

/-! ## Every run -/

/-- What the run of a server is to the connection that its `newConncetion` of `sockfd` makes. -/
def sessionRun (s : TcpServer υ) (sockfd : ℤ) (as : List (Action υ)) :
    List (Session.Action ℕ (Thread υ) ⊕ ℕ) :=
  s.birth ++ steps.collect (sessionActions s.made) (s.after (.newConncetion sockfd)) as

/-- Whatever a server does, its connections share nothing. -/
theorem Hosting.along {as : List (Action υ)} (h : s.Hosting)
    (hrun : steps.Along (fun s a => steps.enabled s a ∧ a.distinct) s as) :
    (steps.run s as).Hosting :=
  hrun.invariant (fun _ _ hs ha => hs.next ha.1.1 ha.2) h

/-- The invariant under which a server is a session to the connection it has just made. -/
theorem Hosting.hosts (h : s.Hosting) {sockfd : ℤ}
    (ha : steps.enabled s (.newConncetion sockfd)) :
    (s.after (.newConncetion sockfd)).Hosting ∧ s.made < (s.after (.newConncetion sockfd)).made ∧
      ((s.after (.newConncetion sockfd)).conn s.made).home = s.threadPool_.getNextLoop.1 := by
  refine ⟨h.next ha.1 trivial, ?_, ?_⟩
  · rw [(s.after_frame _).made]
    exact Nat.lt_succ_self _
  · rw [after_home]
    simp [book, accept]

/-- From its `newConncetion` on, a server is a session to the connection it makes. -/
theorem Hosting.sessions (h : s.Hosting) {sockfd : ℤ} {as : List (Action υ)}
    (hrun : steps.Along (fun s a => steps.enabled s a ∧ a.distinct) s
      (.newConncetion sockfd :: as)) :
    (Session.marked (.loop s.threadPool_.getNextLoop.1)).Valid (s.newborn sockfd)
        (s.sessionRun sockfd as) ∧
      ((steps.run s (.newConncetion sockfd :: as)).Strong s.made →
        Tracks s.made (steps.run s (.newConncetion sockfd :: as))
          ((Session.marked (.loop s.threadPool_.getNextLoop.1)).run (s.newborn sockfd)
            (s.sessionRun sockfd as))) := by
  obtain ⟨hbirth, htracks⟩ := h.sound.born sockfd
  obtain ⟨hvalid, hend⟩ := (session s.made s.threadPool_.getNextLoop.1).run (h.hosts hrun.1.1)
    hrun.2 fun _ => htracks
  rw [sessionRun, Machine.run_append]
  exact ⟨Machine.along_append.mpr ⟨hbirth, hvalid⟩, hend⟩

end TcpServer

end Mymuduo
