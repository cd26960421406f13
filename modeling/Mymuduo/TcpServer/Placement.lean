import Mymuduo.TcpServer.Steps

/-!
# TcpServer/Placement — everything about a connection stands with its loop

A connection is given to a loop once and for all, by `newConncetion`.  From then on its functors are
in that loop's queue, except for a `removeConnectionInLoop`, which is in the base loop's; its
events, its callbacks and its entries in a poller are that loop's.  `connectEstablished` comes
before anything else that is queued for it, and only a connection it has announced is known to
anyone but the server.  This is `Sound`, and every step keeps it.
-/

namespace Mymuduo

open Machinery TcpConnection

/-- What may be queued for a connection before it has been announced. -/
def ServerFunctor.early {υ : Type*} : ServerFunctor υ → Bool
  | connectEstablished _ | of _ .connectDestoryed => true
  | removeConnectionInLoop _ | of _ _ => false

/-- A functor that calls back into code of the user. -/
def ServerFunctor.callsBack {υ : Type*} : ServerFunctor υ → Bool
  | connectEstablished _ => true
  | removeConnectionInLoop _ => false
  | of _ f => f.isCallback

/-- The functors a loop has still to run, in order. -/
def ServerLoop.waiting {υ : Type*} (L : ServerLoop υ) : List (ServerFunctor υ) :=
  L.rest ++ L.pendingFunctors_

theorem ServerLoop.mem_functors_of_waiting {υ : Type*} {L : ServerLoop υ} {f : ServerFunctor υ}
    (h : f ∈ L.waiting) : f ∈ L.functors := by
  simp only [waiting, functors, List.mem_append] at h ⊢
  tauto

/-- The stage says what a loop may have in hand. -/
structure ServerLoop.Staged {υ : Type*} (l : LoopId) (L : ServerLoop υ) : Prop where
  dispatching : L.activeChannels_ ≠ [] → L.stage = .dispatching
  running : L.rest ≠ [] → L.stage = .running
  busy : L.todo ≠ [] → L.stage = .dispatching ∨ L.stage = .running
  gone : L.stage.gone = true → L.pendingFunctors_ = []
  destroyed : L.stage = .destroyed → L.poller_ = .new
  base : l = .base → L.stage.gone = false

/-- Nothing is in hand where nothing has begun. -/
theorem ServerLoop.Staged.quiet {υ : Type*} {l : LoopId} {L : ServerLoop υ} (h : L.Staged l)
    (hdispatching : L.stage ≠ .dispatching) (hrunning : L.stage ≠ .running) :
    L.activeChannels_ = [] ∧ L.rest = [] ∧ L.todo = [] := by
  refine ⟨?_, ?_, ?_⟩
  · by_contra hne
    exact hdispatching (h.dispatching hne)
  · by_contra hne
    exact hrunning (h.running hne)
  · by_contra hne
    exact (h.busy hne).elim hdispatching hrunning

/-- A loop may change its stage when it has nothing in hand. -/
theorem ServerLoop.Staged.of_quiet {υ : Type*} {l : LoopId} {L : ServerLoop υ}
    (h : L.activeChannels_ = [] ∧ L.rest = [] ∧ L.todo = [])
    (hgone : L.stage.gone = true → L.pendingFunctors_ = [])
    (hdestroyed : L.stage = .destroyed → L.poller_ = .new)
    (hbase : l = .base → L.stage.gone = false) : L.Staged l :=
  ⟨fun hne => absurd h.1 hne, fun hne => absurd h.2.1 hne, fun hne => absurd h.2.2 hne, hgone,
    hdestroyed, hbase⟩

theorem Stage.not_gone_of_userCode {stage : Stage} (h : stage.userCode = true) :
    stage.gone = false := by
  cases stage <;> simp_all [userCode, gone]

namespace TcpServer

variable {υ : Type*}

/-- The loop a functor belongs to. -/
def owner (s : TcpServer υ) : ServerFunctor υ → LoopId
  | .removeConnectionInLoop _ => .base
  | .connectEstablished c | .of c _ => (s.conn c).home

/-- `l` is the loop of `c`, and `c` has been announced. -/
def Serves (s : TcpServer υ) (l : LoopId) (c : ℕ) : Prop := (s.conn c).home = l ∧ s.Up c

/-- All a loop has is its own. -/
structure Placed (s : TcpServer υ) (l : LoopId) (L : ServerLoop υ) : Prop where
  target : ∀ f ∈ L.functors, f.target < s.made
  owner : ∀ f ∈ L.functors, s.owner f = l
  early : ∀ f ∈ L.functors, f.early = false → s.Up f.target
  active : ∀ c ∈ L.activeChannels_, s.Serves l c
  todo : ∀ r ∈ L.todo, s.Serves l r.1
  interest : ∀ fd ev, L.poller_.interest fd = some ev → s.Serves l ev.ptr
  channels : ∀ fd c, L.poller_.channels_ fd = some c → s.Serves l c
  unannounced : ∀ c, .connectEstablished c ∈ L.waiting → ¬ s.Up c ∧ l ≠ .base
  ordered : L.waiting.Pairwise fun f g => ∀ c, g = .connectEstablished c → f.target ≠ c

/-- **The invariant of a server.** -/
structure Sound (s : TcpServer υ) : Prop where
  placed : ∀ l, s.Placed l (s.loop l)
  staged : ∀ l, (s.loop l).Staged l
  made : ∀ c, s.Up c → c < s.made
  home : ∀ c, (s.conn c).home ∈ s.loops
  addr : ∀ c < s.made, (s.conn c).tcp.addr = c
  knows : ∀ c < s.made, (s.loop (s.conn c).home).poller_.Knows c (s.conn c).tcp.channel_
  map : ∀ k c, s.conncetions_ k = some c → c < s.made ∧ (s.conn c).name = k
  held : ∀ r ∈ s.held, s.Up r.2
  calling : ∀ t, s.call t ≠ .idle → s.Has t (s.callee t)
  userCode : ∀ l, s.call (.loop l) ≠ .idle → (s.loop l).stage.userCode = true
  destructor : s.phase.inDestructor = true → s.call (.loop .base) = .idle

variable {s : TcpServer υ} {l l' : LoopId} {c c' : ℕ} {m : Method (Thread υ)} {t : Thread υ}
  {f : ServerFunctor υ} {k : Answer}

theorem start_sound (n : ℕ) (b : Bool) : (start n b : TcpServer υ).Sound where
  placed l := by
    cases l <;> constructor <;>
      simp [start, ServerLoop.new, ServerLoop.functors, ServerLoop.waiting, EPollPoller.new]
  staged l := by
    cases l with
    | base => constructor <;> simp [start, ServerLoop.new, Stage.gone]
    | sub i =>
      by_cases hi : i < n <;> constructor <;> simp [start, ServerLoop.new, hi]
  made := nofun
  home _ := List.mem_cons_self
  addr := nofun
  knows := nofun
  map := nofun
  held := nofun
  calling _ h := absurd rfl h
  userCode _ h := absurd rfl h
  destructor _ := rfl

/-! ## What it says -/

theorem Sound.up_of_has (h : s.Sound) (hhas : s.Has t c) : s.Up c := by
  obtain hheld | hcb := hhas
  · exact h.held _ hheld
  · cases t with
    | loop l => exact ((h.placed l).todo _ (List.mem_of_mem_head? hcb)).2
    | user u => cases hcb

theorem Sound.up_callee (h : s.Sound) (ht : s.call t ≠ .idle) : s.Up (s.callee t) :=
  h.up_of_has (h.calling t ht)

/-- A thread in a callback about `c` is that of its loop. -/
theorem Sound.home_of_inCallback (h : s.Sound) (hcb : s.InCallback t c) :
    t = .loop (s.conn c).home := by
  cases t with
  | loop l => rw [((h.placed l).todo _ (List.mem_of_mem_head? hcb)).1]
  | user u => cases hcb

/-! ## A method runs -/

theorem mem_functors_perform (h : f ∈ ((s.perform l c m).loop l').functors) :
    f ∈ (s.loop l').functors ∨ l' = (s.conn c).home ∧ f ∈ s.queued c m := by
  rw [perform_loop] at h
  simp only [ServerLoop.functors, List.mem_append] at h ⊢
  split at h
  · tauto
  · simp only [List.not_mem_nil, or_false] at h
    exact .inl h

theorem waiting_perform : ((s.perform l c m).loop l').waiting =
    (s.loop l').waiting ++ if l' = (s.conn c).home then s.queued c m else [] := by
  rw [perform_loop]
  simp [ServerLoop.waiting]

theorem connectEstablished_notMem_queued : .connectEstablished c' ∉ s.queued c m := by
  intro h
  obtain ⟨cb, hcb, -⟩ := mem_queued h
  cases hcb

theorem Serves.perform (h : s.Serves l' c') : (s.perform l c m).Serves l' c' :=
  ⟨perform_home.trans h.1, up_perform.mpr (.inl h.2)⟩

/-- What a method may be run on: a connection of the thread's own loop, announced unless the method
is one of the two that also serve the others. -/
structure Performs (s : TcpServer υ) (l : LoopId) (c : ℕ) (m : Method (Thread υ)) : Prop where
  made : c < s.made
  home : (s.conn c).home = l
  userCode : (s.loop l).stage.gone = false
  callbacks : m.callbacks ≠ [] →
    ((s.loop l).stage = .dispatching ∨ (s.loop l).stage = .running) ∧ s.call (.loop l) = .idle
  establish : m.isEstablish = true → .connectEstablished c ∉ (s.loop l).waiting
  up : m.isEstablish = true ∨ m = .connectDestoryed ∨ s.Up c

theorem Performs.up_perform (h : s.Performs l c m) (hm : m ≠ .connectDestoryed) :
    (s.perform l c m).Up c := by
  rw [TcpServer.up_perform]
  obtain hest | hdestroy | hup := h.up
  · exact .inr ⟨rfl, hest⟩
  · exact absurd hdestroy hm
  · exact .inl hup

/-- The poller after a method knows of the connection's channel what the channel does. -/
theorem Sound.knows_run (h : s.Sound) (hc : c < s.made) :
    (m.run (s.view c)).poller_.Knows c (m.run (s.view c)).channel_ := by
  have haddr : (s.view c).addr = c := h.addr c hc
  have hview : (s.view c).poller_.Knows (s.view c).addr (s.view c).channel_ := by
    rw [haddr]
    exact h.knows c hc
  rw [(m.run_does _).channel, (m.run_does _).poller]
  have hrun : ((s.view c).onChannels (m.effect (s.view c)).ops).poller_.Knows (s.view c).addr
      ((s.view c).onChannels (m.effect (s.view c)).ops).channel_ := onChannels_knows hview
  rwa [haddr] at hrun

/-- A poller gets entries of announced connections only: `connectDestoryed` leaves none. -/
theorem Sound.interest_run (h : s.Sound) (hp : s.Performs l c m) {fd : ℤ} {ev : EpollEvent ℕ}
    (hev : (m.run (s.view c)).poller_.interest fd = some ev) :
    (s.perform l c m).Serves l ev.ptr := by
  have haddr : (s.view c).addr = c := h.addr c hp.made
  have hknows := h.knows_run (m := m) hp.made
  rw [(m.run_does _).poller] at hev
  obtain hself | hold := onChannels_interest hev
  · rw [haddr] at hself
    refine ⟨by rw [hself, perform_home, hp.home], hself ▸ hp.up_perform ?_⟩
    rintro rfl
    have hadded := (hknows.interest fd ev (by rwa [(Method.run_does _ _).poller]) hself).2
    rw [Method.index_connectDestoryed] at hadded
    cases hadded
  · exact ((h.placed l).interest fd ev (by simpa [view, hp.home] using hold)).perform

theorem Sound.channels_run (h : s.Sound) (hp : s.Performs l c m) {fd : ℤ}
    (hc : (m.run (s.view c)).poller_.channels_ fd = some c') : (s.perform l c m).Serves l c' := by
  have haddr : (s.view c).addr = c := h.addr c hp.made
  have hknows := h.knows_run (m := m) hp.made
  rw [(m.run_does _).poller] at hc
  obtain hself | hold := onChannels_channels hc
  · rw [haddr] at hself
    refine ⟨by rw [hself, perform_home, hp.home], hself ▸ hp.up_perform ?_⟩
    rintro rfl
    refine (hknows.channels fd ?_).2 Method.index_connectDestoryed
    rw [(Method.run_does _ _).poller, hc, hself]
  · exact ((h.placed l).channels fd c' (by simpa [view, hp.home] using hold)).perform

theorem owner_perform : (s.perform l c m).owner f = s.owner f := by
  cases f <;> simp [owner]

/-- What a method queues is about its own connection, which is announced by then. -/
theorem Performs.queued (hp : s.Performs l c m) (hf : f ∈ s.queued c m) :
    f.target = c ∧ s.owner f = l ∧ (s.perform l c m).Up c := by
  obtain ⟨cb, rfl, -⟩ := mem_queued hf
  refine ⟨rfl, hp.home, hp.up_perform ?_⟩
  rintro rfl
  rw [queued_connectDestoryed] at hf
  cases hf

theorem Sound.placed_perform (h : s.Sound) (hp : s.Performs l c m) (l' : LoopId) :
    (s.perform l c m).Placed l' ((s.perform l c m).loop l') := by
  have hold := h.placed l'
  refine ⟨fun f hf => ?_, fun f hf => ?_, fun f hf he => ?_, fun c' hc' => ?_, fun r hr => ?_,
    fun fd ev hev => ?_, fun fd c' hc' => ?_, fun c' hc' => ?_, ?_⟩
  · obtain hf | ⟨-, hf⟩ := mem_functors_perform hf
    · exact hold.target f hf
    · rw [(hp.queued hf).1]
      exact hp.made
  · rw [owner_perform]
    obtain hf | ⟨hl', hf⟩ := mem_functors_perform hf
    · exact hold.owner f hf
    · rw [(hp.queued hf).2.1, hl', hp.home]
  · obtain hf | ⟨-, hf⟩ := mem_functors_perform hf
    · exact up_perform.mpr (.inl (hold.early f hf he))
    · rw [(hp.queued hf).1]
      exact (hp.queued hf).2.2
  · exact (hold.active c' hc').perform
  · rw [perform_loop] at hr
    obtain hr | hr := List.mem_append.mp hr
    · split at hr
      case isTrue hl' =>
        obtain ⟨cb, hcb, rfl⟩ := List.mem_map.mp hr
        refine ⟨by rw [perform_home, hp.home, hl'], hp.up_perform ?_⟩
        rintro rfl
        cases hcb
      case isFalse => cases hr
    · exact (hold.todo r hr).perform
  · rw [perform_loop] at hev
    by_cases hl' : l' = (s.conn c).home
    · rw [hl', hp.home]
      exact h.interest_run hp (by simpa [hl'] using hev)
    · exact (hold.interest fd ev (by simpa [hl'] using hev)).perform
  · rw [perform_loop] at hc'
    by_cases hl' : l' = (s.conn c).home
    · rw [hl', hp.home]
      exact h.channels_run hp (by simpa [hl'] using hc')
    · exact (hold.channels fd c' (by simpa [hl'] using hc')).perform
  · rw [waiting_perform] at hc'
    have hwait : .connectEstablished c' ∈ (s.loop l').waiting := by
      obtain hw | hq := List.mem_append.mp hc'
      · exact hw
      · split at hq
        · exact absurd hq connectEstablished_notMem_queued
        · cases hq
    obtain ⟨hup, hbase⟩ := hold.unannounced c' hwait
    refine ⟨?_, hbase⟩
    rw [up_perform]
    rintro (hup' | ⟨rfl, hest⟩)
    · exact hup hup'
    · have hl' : l = l' := by
        rw [← hp.home]
        exact hold.owner _ (ServerLoop.mem_functors_of_waiting hwait)
      exact hp.establish hest (hl' ▸ hwait)
  · rw [waiting_perform, List.pairwise_append]
    refine ⟨hold.ordered, ?_, fun f _ g hg c' hgc => ?_⟩
    · refine List.pairwise_of_forall_mem_list fun f _ g hg c' hgc => ?_
      split at hg
      · exact absurd (hgc ▸ hg) connectEstablished_notMem_queued
      · cases hg
    · split at hg
      · exact absurd (hgc ▸ hg) connectEstablished_notMem_queued
      · cases hg

theorem Sound.staged_perform (h : s.Sound) (hp : s.Performs l c m) (l' : LoopId) :
    ((s.perform l c m).loop l').Staged l' := by
  obtain ⟨hdispatching, hrunning, hbusy, hgone, hdestroyed, hbase⟩ := h.staged l'
  have hhome : l' = (s.conn c).home → (s.loop l').stage.gone = false :=
    fun hl' => hl' ▸ hp.home ▸ hp.userCode
  rw [perform_loop]
  refine ⟨hdispatching, hrunning, fun htodo => ?_, fun hg => ?_, fun hd => ?_, hbase⟩
  · by_cases hl' : l' = l
    · subst hl'
      by_cases hcb : m.callbacks = []
      · exact hbusy (by simpa [hcb] using htodo)
      · exact (hp.callbacks hcb).1
    · exact hbusy (by simpa [hl'] using htodo)
  · have hl' : l' ≠ (s.conn c).home := fun hl' => by simp [hhome hl'] at hg
    simpa [hl'] using hgone hg
  · have hl' : l' ≠ (s.conn c).home := fun hl' => by
      have hg := hhome hl'
      rw [show (s.loop l').stage = .destroyed from hd] at hg
      cases hg
    simpa [hl'] using hdestroyed hd

/-- **A method keeps the invariant.** -/
theorem Sound.perform (h : s.Sound) (hp : s.Performs l c m) : (s.perform l c m).Sound where
  placed := h.placed_perform hp
  staged := h.staged_perform hp
  made c' hup := by
    obtain hup | ⟨rfl, -⟩ := up_perform.mp hup
    · exact h.made c' hup
    · exact hp.made
  home c' := by
    rw [perform_home]
    exact h.home c'
  addr c' hc' := perform_addr (h.addr c' hc')
  knows c' hc' := by
    rw [perform_home, perform_loop]
    by_cases hself : c' = c
    · subst hself
      rw [perform_tcp]
      simpa using h.knows_run hc'
    · rw [perform_conn_ne hself]
      have hold := h.knows c' hc'
      split
      case isFalse => exact hold
      case isTrue hl' =>
        rw [(m.run_does _).poller]
        have haddr : (s.view c).addr = c := h.addr c hp.made
        rw [hl'] at hold
        exact onChannels_knows_other (c := s.view c) hold (by rwa [haddr])
  map k c' hk := by
    rw [perform_name]
    exact h.map k c' hk
  held r hr := up_perform.mpr (.inl (h.held r hr))
  calling t ht := by
    obtain hheld | hcb := h.calling t ht
    · exact .inl hheld
    · right
      cases t with
      | user u => cases hcb
      | loop l' =>
        change ((s.perform l c m).loop l').todo.head? = _
        rw [perform_loop]
        by_cases hl' : l' = l ∧ m.callbacks ≠ []
        · exact absurd (hl'.1 ▸ (hp.callbacks hl'.2).2) ht
        · rw [not_and_not_right] at hl'
          have hnil : (if l' = l then m.callbacks.map (c, ·) else []) = [] := by
            split
            case isTrue hl => simp [hl' hl]
            case isFalse => rfl
          rw [hnil]
          exact hcb
  userCode l' hl' := h.userCode l' hl'
  destructor := h.destructor

/-! ## A push -/

/-- What a functor that is pushed has to be. -/
structure Pushes (s : TcpServer υ) (l : LoopId) (f : ServerFunctor υ) : Prop where
  target : f.target < s.made
  owner : s.owner f = l
  early : f.early = false → s.Up f.target
  first : ∀ c, f = .connectEstablished c →
    ¬ s.Up c ∧ l ≠ .base ∧ ∀ g ∈ (s.loop l).waiting, g.target ≠ c

theorem mem_functors_queueInLoop {g : ServerFunctor υ}
    (h : g ∈ ((s.queueInLoop l f).loop l').functors) :
    g ∈ (s.loop l').functors ∨ l' = l ∧ g = f := by
  rw [queueInLoop_loop] at h
  simp only [ServerLoop.functors, List.mem_append] at h ⊢
  split at h
  · simp only [List.mem_singleton] at h
    tauto
  · simp only [List.not_mem_nil, or_false] at h
    exact .inl h

theorem waiting_queueInLoop : ((s.queueInLoop l f).loop l').waiting =
    (s.loop l').waiting ++ if l' = l ∧ (s.loop l).stage.gone = false then [f] else [] := by
  rw [queueInLoop_loop]
  simp [ServerLoop.waiting]

theorem Sound.placed_queueInLoop (h : s.Sound) (hf : s.Pushes l f) (l' : LoopId) :
    (s.queueInLoop l f).Placed l' ((s.queueInLoop l f).loop l') := by
  have hold := h.placed l'
  refine ⟨fun g hg => ?_, fun g hg => ?_, fun g hg he => ?_, ?_, ?_, ?_, ?_, fun c hc => ?_, ?_⟩
  · obtain hg | ⟨-, rfl⟩ := mem_functors_queueInLoop hg
    · exact hold.target g hg
    · exact hf.target
  · obtain hg | ⟨rfl, rfl⟩ := mem_functors_queueInLoop hg
    · exact hold.owner g hg
    · exact hf.owner
  · obtain hg | ⟨-, rfl⟩ := mem_functors_queueInLoop hg
    · exact hold.early g hg he
    · exact hf.early he
  · rw [queueInLoop_loop]
    exact hold.active
  · rw [queueInLoop_loop]
    exact hold.todo
  · rw [queueInLoop_loop]
    exact hold.interest
  · rw [queueInLoop_loop]
    exact hold.channels
  · rw [waiting_queueInLoop] at hc
    obtain hwait | hnew := List.mem_append.mp hc
    · exact hold.unannounced c hwait
    · split at hnew
      case isTrue hl' =>
        have hfirst := hf.first c (List.mem_singleton.mp hnew).symm
        exact ⟨hfirst.1, hl'.1 ▸ hfirst.2.1⟩
      case isFalse => cases hnew
  · rw [waiting_queueInLoop]
    split
    case isTrue hl' =>
      obtain rfl := hl'.1
      rw [List.pairwise_append]
      refine ⟨hold.ordered, List.pairwise_singleton .., fun g hg g' hg' c hc => ?_⟩
      exact (hf.first c ((List.mem_singleton.mp hg').symm.trans hc)).2.2 g hg
    case isFalse =>
      rw [List.append_nil]
      exact hold.ordered

theorem Sound.staged_queueInLoop (h : s.Sound) (l' : LoopId) :
    ((s.queueInLoop l f).loop l').Staged l' := by
  obtain ⟨hdispatching, hrunning, hbusy, hgone, hdestroyed, hbase⟩ := h.staged l'
  rw [queueInLoop_loop]
  refine ⟨hdispatching, hrunning, hbusy, fun hg => ?_, hdestroyed, hbase⟩
  have hnone : ¬ (l' = l ∧ (s.loop l).stage.gone = false) := by
    rintro ⟨rfl, hl⟩
    rw [hl] at hg
    cases hg
  simpa [hnone] using hgone hg

/-- **A push keeps the invariant.** -/
theorem Sound.queueInLoop (h : s.Sound) (hf : s.Pushes l f) : (s.queueInLoop l f).Sound where
  placed := h.placed_queueInLoop hf
  staged := h.staged_queueInLoop
  made := h.made
  home := h.home
  addr := h.addr
  knows c hc := by
    rw [queueInLoop_loop]
    exact h.knows c hc
  map := h.map
  held := h.held
  calling t ht := by
    obtain hheld | hcb := h.calling t ht
    · exact .inl hheld
    · right
      cases t with
      | user u => cases hcb
      | loop l' =>
        change ((s.queueInLoop l f).loop l').todo.head? = _
        rw [queueInLoop_loop]
        exact hcb
  userCode l' hl' := by
    rw [queueInLoop_stage]
    exact h.userCode l' hl'
  destructor := h.destructor

/-! ## The server and the threads go on -/

/-- What the loops and the connections are not concerned with may change, if it meets its own
clauses. -/
theorem Sound.withServer (h : s.Sound) {conncetions_ : BitVec 32 → Option ℕ} {phase : Phase}
    {call : Thread υ → Call} {callee : Thread υ → ℕ} {held : List (Thread υ × ℕ)}
    (hmap : ∀ k c, conncetions_ k = some c → c < s.made ∧ (s.conn c).name = k)
    (hheld : ∀ r ∈ held, s.Up r.2)
    (hcalling : ∀ t, call t ≠ .idle → (t, callee t) ∈ held ∨ s.InCallback t (callee t))
    (huser : ∀ l, call (.loop l) ≠ .idle → (s.loop l).stage.userCode = true)
    (hdestructor : phase.inDestructor = true → call (.loop .base) = .idle) :
    Sound { s with conncetions_, phase, call, callee, held } where
  placed l := { h.placed l with }
  staged := h.staged
  made := h.made
  home := h.home
  addr := h.addr
  knows := h.knows
  map := hmap
  held := hheld
  calling := hcalling
  userCode := huser
  destructor := hdestructor

/-- An entry of `conncetions_` may go at any time. -/
theorem Sound.erase (h : s.Sound) (k : BitVec 32) :
    Sound { s with conncetions_ := Function.update s.conncetions_ k none } := by
  refine h.withServer (fun k' c hc => ?_) h.held h.calling h.userCode h.destructor
  by_cases hk : k' = k
  · simp [hk] at hc
  · exact h.map k' c (by simpa [hk] using hc)

theorem Sound.removeConnectionInLoop (h : s.Sound) (hc : c < s.made) :
    (s.removeConnectionInLoop c).Sound :=
  (h.erase _).queueInLoop ⟨hc, rfl, nofun, nofun⟩

/-! ## A loop goes on -/

/-- A loop changes, and nothing else. -/
theorem Sound.onLoop (h : s.Sound) {g : ServerLoop υ → ServerLoop υ}
    (hplaced : s.Placed l (g (s.loop l))) (hstaged : (g (s.loop l)).Staged l)
    (hpoller : (g (s.loop l)).poller_ = (s.loop l).poller_ ∨ (g (s.loop l)).poller_ = .new)
    (hcall : s.call (.loop l) ≠ .idle → (g (s.loop l)).stage.userCode = true ∧
      (g (s.loop l)).todo.head? = (s.loop l).todo.head?) : (s.onLoop l g).Sound where
  placed l' := by
    have hall : s.Placed l' ((s.onLoop l g).loop l') :=
      onLoop_forall (P := fun l' L => s.Placed l' L) h.placed (fun _ => hplaced) l'
    exact { hall with }
  staged := onLoop_forall h.staged fun _ => hstaged
  made := h.made
  home := h.home
  addr := h.addr
  knows c hc := by
    have hold := h.knows c hc
    change ((s.onLoop l g).loop (s.conn c).home).poller_.Knows c (s.conn c).tcp.channel_
    by_cases hl : (s.conn c).home = l
    · rw [hl] at hold ⊢
      rw [onLoop_self]
      obtain heq | hnew := hpoller
      · rwa [heq]
      · rw [hnew]
        exact ⟨nofun, nofun⟩
    · rwa [onLoop_ne hl]
  map := h.map
  held := h.held
  calling t ht := by
    obtain hheld | hcb := h.calling t ht
    · exact .inl hheld
    · right
      rcases t with l' | u
      · change ((s.onLoop l g).loop l').todo.head? = _
        by_cases hl : l' = l
        · subst hl
          rw [onLoop_self, (hcall ht).2]
          exact hcb
        · rw [onLoop_ne hl]
          exact hcb
      · cases hcb
  userCode l' hl' := by
    by_cases hl : l' = l
    · subst hl
      rw [onLoop_self]
      exact (hcall hl').1
    · rw [onLoop_ne hl]
      exact h.userCode l' hl'
  destructor := h.destructor

/-! ## A functor runs -/

/-- What a functor that is run has to be. -/
structure Executes (s : TcpServer υ) (l : LoopId) (f : ServerFunctor υ) : Prop where
  target : f.target < s.made
  owner : s.owner f = l
  early : f.early = false → s.Up f.target
  gone : (s.loop l).stage.gone = false
  callsBack : f.callsBack = true →
    ((s.loop l).stage = .dispatching ∨ (s.loop l).stage = .running) ∧ s.call (.loop l) = .idle
  first : ∀ c, f = .connectEstablished c → .connectEstablished c ∉ (s.loop l).waiting

theorem Sound.enterCallback (h : s.Sound) (hc : s.Serves l c) (hcall : s.call (.loop l) = .idle)
    (hstage : (s.loop l).stage = .dispatching ∨ (s.loop l).stage = .running) :
    (s.enterCallback l c).Sound := by
  have hold := h.placed l
  refine h.onLoop { hold with todo := fun r hr => ?_ } { h.staged l with busy := fun _ => hstage }
    (.inl rfl) fun hne => absurd hcall hne
  obtain rfl | hr := List.mem_cons.mp hr
  · exact hc
  · exact hold.todo r hr

theorem Executes.performs (h : s.Executes l f) (hm : f.method k = some m) :
    s.Performs l f.target m := by
  rcases f with c | c | ⟨c, g⟩
  · cases hm
    exact ⟨h.target, h.owner, h.gone, fun _ => h.callsBack rfl, fun _ => h.first c rfl, .inl rfl⟩
  · cases hm
  · cases g <;> cases hm
    · exact ⟨h.target, h.owner, h.gone, fun hcb => absurd rfl hcb, nofun, .inr (.inl rfl)⟩
    · exact ⟨h.target, h.owner, h.gone, fun hcb => absurd rfl hcb, nofun,
        .inr (.inr (h.early rfl))⟩
    · exact ⟨h.target, h.owner, h.gone, fun hcb => absurd rfl hcb, nofun,
        .inr (.inr (h.early rfl))⟩

theorem Sound.exec (h : s.Sound) (hf : s.Executes l f) : (s.exec l k f).Sound := by
  rcases s.exec_cases l k f with ⟨c, rfl, hexec⟩ | ⟨m, hm, -, hexec⟩ | ⟨-, -, hexec⟩ |
    ⟨c, cb, rfl, hcb, hexec⟩ <;> rw [hexec]
  · exact h.removeConnectionInLoop hf.target
  · exact h.perform (hf.performs hm)
  · exact h
  · have hlate : (ServerFunctor.of c cb).early = false := by
      cases cb <;> first | rfl | cases hcb
    obtain ⟨hstage, hcall⟩ := hf.callsBack hcb
    exact h.enterCallback ⟨hf.owner, hf.early hlate⟩ hcall hstage

theorem Sound.runInLoop [DecidableEq υ] (h : s.Sound) (hf : t = .loop l → s.Executes l f)
    (hp : t ≠ .loop l → s.Pushes l f) : (s.runInLoop t l k f).Sound := by
  unfold TcpServer.runInLoop
  split
  case isTrue ht => exact h.exec (hf ht)
  case isFalse ht => exact h.queueInLoop (hp ht)

/-! ## Connections and calls change -/

/-- What is placed stays so when connections are added and the old ones keep their loop and what
they have been told. -/
theorem Placed.mono {s' : TcpServer υ} {L : ServerLoop υ} (h : s.Placed l L)
    (hup : ∀ c, s.Up c → c < s.made) (hmade : s.made ≤ s'.made)
    (hhome : ∀ c < s.made, (s'.conn c).home = (s.conn c).home)
    (hup' : ∀ c < s.made, s'.Up c ↔ s.Up c) : s'.Placed l L := by
  have hserves : ∀ c, s.Serves l c → s'.Serves l c := fun c hc =>
    ⟨(hhome c (hup c hc.2)).trans hc.1, (hup' c (hup c hc.2)).mpr hc.2⟩
  have howner : ∀ f ∈ L.functors, s'.owner f = s.owner f := by
    intro f hf
    have hlt := h.target f hf
    rcases f with c | c | ⟨c, g⟩
    · exact hhome c hlt
    · rfl
    · exact hhome c hlt
  refine ⟨fun f hf => Nat.lt_of_lt_of_le (h.target f hf) hmade,
    fun f hf => (howner f hf).trans (h.owner f hf),
    fun f hf he => ?_, fun c hc => hserves c (h.active c hc), fun r hr => hserves _ (h.todo r hr),
    fun fd ev hev => hserves _ (h.interest fd ev hev),
    fun fd c hc => hserves c (h.channels fd c hc), fun c hc => ?_, h.ordered⟩
  · exact (hup' _ (h.target f hf)).mpr (h.early f hf he)
  · have hlt := h.target _ (ServerLoop.mem_functors_of_waiting hc)
    exact ⟨fun hc' => (h.unannounced c hc).1 ((hup' c hlt).mp hc'), (h.unannounced c hc).2⟩

/-- Connections change in what is their own business. -/
theorem Sound.onConn (h : s.Sound) {conn : ℕ → Connection υ}
    (hconn : ∀ c, ∃ tcp, conn c = { s.conn c with tcp } ∧ tcp.addr = (s.conn c).tcp.addr ∧
      tcp.channel_.fd_ = (s.conn c).tcp.channel_.fd_ ∧
      tcp.channel_.index_ = (s.conn c).tcp.channel_.index_) : Sound { s with conn } := by
  have hhome : ∀ c, (conn c).home = (s.conn c).home := by
    intro c
    obtain ⟨tcp, heq, -⟩ := hconn c
    rw [heq]
  have hnotified : ∀ c, (conn c).notified = (s.conn c).notified := by
    intro c
    obtain ⟨tcp, heq, -⟩ := hconn c
    rw [heq]
  have hup : ∀ c, Up { s with conn } c ↔ s.Up c := fun c => by
    simp only [Up, hnotified]
  exact
    { placed := fun l => (h.placed l).mono h.made le_rfl (fun c _ => hhome c) fun c _ => hup c
      staged := h.staged
      made := fun c hc => h.made c ((hup c).mp hc)
      home := fun c => (hhome c).symm ▸ h.home c
      addr := fun c hc => by
        obtain ⟨tcp, heq, haddr, -⟩ := hconn c
        simp only [heq]
        exact haddr.trans (h.addr c hc)
      knows := fun c hc => by
        obtain ⟨tcp, heq, -, hfd, hindex⟩ := hconn c
        simp only [heq]
        exact (h.knows c hc).congr hfd hindex
      map := fun k c hk => by
        obtain ⟨tcp, heq, -⟩ := hconn c
        simp only [heq]
        exact h.map k c hk
      held := fun r hr => (hup r.2).mpr (h.held r hr)
      calling := h.calling
      userCode := h.userCode
      destructor := h.destructor }

theorem Sound.onTcp (h : s.Sound)
    {g : TcpConnection ℕ (Thread υ) → TcpConnection ℕ (Thread υ)}
    (hg : ∀ tcp, (g tcp).addr = tcp.addr ∧ (g tcp).channel_ = tcp.channel_) :
    (s.onTcp c g).Sound := by
  refine h.onConn fun c' => ?_
  by_cases hc : c' = c
  · subst hc
    obtain ⟨haddr, hchannel⟩ := hg (s.conn c').tcp
    exact ⟨g (s.conn c').tcp, Function.update_self .., haddr, by rw [hchannel], by rw [hchannel]⟩
  · exact ⟨(s.conn c').tcp, Function.update_of_ne hc .., rfl, rfl, rfl⟩

/-- A thread goes on in a call, or enters one. -/
theorem Sound.withCall [DecidableEq υ] (h : s.Sound) {call : Call}
    (hhas : call ≠ .idle → s.Has t c)
    (hstage : call ≠ .idle → ∀ l, t = .loop l → (s.loop l).stage.userCode = true)
    (hbase : call ≠ .idle → t = .loop .base → s.phase.inDestructor = false) :
    Sound { s with
      call := Function.update s.call t call
      callee := Function.update s.callee t c } := by
  refine h.withServer h.map h.held (fun t' ht' => ?_) (fun l hl => ?_) fun hd => ?_
  · by_cases ht : t' = t
    · subst ht
      simp only [Function.update_self] at ht' ⊢
      exact hhas ht'
    · simp only [Function.update_of_ne ht] at ht' ⊢
      exact h.calling t' ht'
  · by_cases ht : .loop l = t
    · subst ht
      simp only [Function.update_self] at hl
      exact hstage hl l rfl
    · simp only [Function.update_of_ne ht] at hl
      exact h.userCode l hl
  · by_cases ht : .loop .base = t
    · subst ht
      simp only [Function.update_self]
      by_contra hne
      rw [hbase hne rfl] at hd
      cases hd
    · simp only [Function.update_of_ne ht]
      exact h.destructor hd

/-- The call ends. -/
theorem Sound.endCall [DecidableEq υ] (h : s.Sound) (t : Thread υ) :
    Sound { s with call := Function.update s.call t .idle } := by
  have hend : Sound { s with
      call := Function.update s.call t .idle
      callee := Function.update s.callee t (s.callee t) } :=
    h.withCall (absurd rfl) (absurd rfl) (absurd rfl)
  rwa [Function.update_eq_self] at hend

/-! ## A connection is accepted -/

theorem getNextLoop_mem (p : EventLoopThreadPool) : p.getNextLoop.1 ∈ LoopId.base :: p.loops_ := by
  unfold EventLoopThreadPool.getNextLoop
  split
  · exact List.mem_cons_self
  · change p.loops_.getD p.next_ .base ∈ _
    rw [List.getD_eq_getElem?_getD]
    rcases hl : p.loops_[p.next_]? with _ | l
    · exact List.mem_cons_self
    · exact List.mem_cons_of_mem _ (List.mem_of_getElem? hl)

theorem getNextLoop_loops (p : EventLoopThreadPool) : p.getNextLoop.2.loops_ = p.loops_ := by
  unfold EventLoopThreadPool.getNextLoop
  split <;> rfl

theorem accept_loops (s : TcpServer υ) (sockfd : ℤ) : (s.accept sockfd).loops = s.loops :=
  congrArg (LoopId.base :: ·) (getNextLoop_loops s.threadPool_)

theorem accept_loop (s : TcpServer υ) (sockfd : ℤ) (l : LoopId) : (s.accept sockfd).loop l =
    { s.loop l with poller_ := (s.loop l).poller_.closed sockfd } := rfl

theorem accept_conn (s : TcpServer υ) (sockfd : ℤ) (hc : c ≠ s.made) :
    (s.accept sockfd).conn c = s.conn c := Function.update_of_ne hc ..

theorem accept_not_up (s : TcpServer υ) (sockfd : ℤ) : ¬ (s.accept sockfd).Up s.made := by
  simp [Up, accept]

theorem Sound.up_accept (h : s.Sound) (sockfd : ℤ) (c : ℕ) :
    (s.accept sockfd).Up c ↔ s.Up c := by
  by_cases hc : c = s.made
  · subst hc
    exact iff_of_false (s.accept_not_up sockfd) fun hup => Nat.lt_irrefl _ (h.made _ hup)
  · rw [Up, Up, accept_conn s sockfd hc]

theorem Placed.closed {L : ServerLoop υ} (h : s.Placed l L) (fd : ℤ) :
    s.Placed l { L with poller_ := L.poller_.closed fd } :=
  { h with interest := fun fd' ev hev => h.interest fd' ev (EPollPoller.interest_of_closed hev) }

/-- **`newConncetion` keeps the invariant**: no one has met the new connection's address. -/
theorem Sound.accept (h : s.Sound) (sockfd : ℤ) : (s.accept sockfd).Sound where
  placed l := ((h.placed l).closed sockfd).mono h.made (Nat.le_succ _)
    (fun c hc => by rw [accept_conn s sockfd (Nat.ne_of_lt hc)]) fun c _ => h.up_accept sockfd c
  staged l :=
    { h.staged l with
      destroyed := fun hd => by
        rw [accept_loop, (h.staged l).destroyed hd, EPollPoller.closed_new] }
  made c hc := Nat.lt_succ_of_lt (h.made c ((h.up_accept sockfd c).mp hc))
  home c := by
    rw [accept_loops]
    by_cases hc : c = s.made
    · subst hc
      simp only [TcpServer.accept, Function.update_self]
      exact getNextLoop_mem s.threadPool_
    · rw [accept_conn s sockfd hc]
      exact h.home c
  addr c hc := by
    obtain hlt | rfl := Nat.lt_succ_iff_lt_or_eq.mp hc
    · rw [accept_conn s sockfd (Nat.ne_of_lt hlt)]
      exact h.addr c hlt
    · simp [TcpServer.accept, TcpConnection.new]
  knows c hc := by
    obtain hlt | rfl := Nat.lt_succ_iff_lt_or_eq.mp hc
    · rw [accept_conn s sockfd (Nat.ne_of_lt hlt)]
      exact (h.knows c hlt).closed sockfd
    · have hnone : ∀ l, ¬ s.Serves l s.made := fun l hl => Nat.lt_irrefl _ (h.made _ hl.2)
      refine ⟨fun fd hfd => absurd ((h.placed _).channels fd _ hfd) (hnone _),
        fun fd ev hev hptr => ?_⟩
      have hserves := (h.placed _).interest fd ev (EPollPoller.interest_of_closed hev)
      rw [hptr] at hserves
      exact absurd hserves (hnone _)
  map k c hk := by
    by_cases hnew : k = s.nextConnId_
    · subst hnew
      obtain rfl : s.made = c := by simpa [TcpServer.accept] using hk
      simp [TcpServer.accept]
    · obtain ⟨hlt, hname⟩ := h.map k c (by simpa [TcpServer.accept, hnew] using hk)
      rw [accept_conn s sockfd (Nat.ne_of_lt hlt)]
      exact ⟨Nat.lt_succ_of_lt hlt, hname⟩
  held r hr := (h.up_accept sockfd r.2).mpr (h.held r hr)
  calling := h.calling
  userCode := h.userCode
  destructor := h.destructor

end TcpServer

end Mymuduo
