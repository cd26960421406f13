import Mymuduo.TcpServer.Placement

/-!
# TcpServer/Soundness — every step keeps everything in its place

The change an action makes by itself, the functor or method it runs and the functor it pushes each
keep `Sound`; what is run or pushed is what `Executes`, `Performs` and `Pushes` ask, because it was
sound to begin with.  So `Sound` holds in every state of every run.
-/

namespace Mymuduo

open Machinery TcpConnection

namespace TcpServer

variable {υ : Type*} {s : TcpServer υ} {l l' : LoopId} {c c' : ℕ} {m : Method (Thread υ)}
  {t : Thread υ} {f : ServerFunctor υ} {k : Answer}

/-! ## An action's own change -/

/-- A loop may lose functors and pass them on, and take up what it serves. -/
theorem Placed.of_sublist {L L' : ServerLoop υ} (h : s.Placed l L)
    (hfunctors : ∀ f ∈ L'.functors, f ∈ L.functors) (hwaiting : L'.waiting.Sublist L.waiting)
    (hactive : ∀ c ∈ L'.activeChannels_, s.Serves l c) (htodo : ∀ r ∈ L'.todo, s.Serves l r.1)
    (hpoller : L'.poller_ = L.poller_ ∨ L'.poller_ = .new) : s.Placed l L' where
  target f hf := h.target f (hfunctors f hf)
  owner f hf := h.owner f (hfunctors f hf)
  early f hf := h.early f (hfunctors f hf)
  active := hactive
  todo := htodo
  interest fd ev hev := by
    obtain heq | hnew := hpoller
    · exact h.interest fd ev (heq ▸ hev)
    · rw [hnew] at hev
      cases hev
  channels fd c hc := by
    obtain heq | hnew := hpoller
    · exact h.channels fd c (heq ▸ hc)
    · rw [hnew] at hc
      cases hc
  unannounced c hc := h.unannounced c (hwaiting.subset hc)
  ordered := h.ordered.sublist hwaiting

theorem Sound.serves_of_reports (h : s.Sound) {r : ℕ × Mask} (hr : s.Reports l r) :
    s.Serves l r.1 := by
  unfold Reports at hr
  rcases hev : (s.loop l).poller_.interest (s.conn r.1).tcp.channel_.fd_ with _ | ev
  · rw [hev] at hr
    cases hr
  · rw [hev] at hr
    exact hr.1 ▸ (h.placed l).interest _ ev hev

/-- `loop()` returns, or goes on. -/
theorem Sound.testQuit (h : s.Sound) (hat : s.At l .test) :
    (s.onLoop l fun L => L.testQuit l).Sound := by
  obtain ⟨hstage, htodo, hfree⟩ := hat
  have hold := h.placed l
  have hquiet := (h.staged l).quiet (by simp [hstage]) (by simp [hstage])
  obtain ⟨stage, heq, hgone, -⟩ := (s.loop l).testQuit_eq l
  have hpresent : ∀ {p : Prop}, stage.gone = true → p := fun hg => by simp [hgone] at hg
  refine h.onLoop ?_ ?_ ?_ fun hne => absurd hfree.1 hne <;> rw [heq]
  · exact { hold with }
  · exact .of_quiet hquiet hpresent (by rintro rfl; exact hpresent rfl) fun _ => hgone
  · exact .inl rfl

/-- The events of a poll are the loop's. -/
theorem Sound.poll (h : s.Sound) {reports : List (ℕ × Mask)} (hat : s.At l .polling)
    (hr : ∀ r ∈ reports, s.Reports l r) : Sound
      { s.onLoop l fun L =>
          { L with stage := .dispatching, activeChannels_ := reports.map Prod.fst } with
        conn := s.setRevents reports } := by
  obtain ⟨hstage, htodo, hfree⟩ := hat
  have hold := h.placed l
  obtain ⟨-, hrest, -⟩ := (h.staged l).quiet (by simp [hstage]) (by simp [hstage])
  have hpolled := h.onLoop (l := l)
    (g := fun L => { L with stage := .dispatching, activeChannels_ := reports.map Prod.fst })
    (hold.of_sublist (fun f hf => hf) (.refl _) (fun c hc => ?_) hold.todo (.inl rfl))
    ⟨fun _ => rfl, fun hne => absurd hrest hne, fun hne => absurd htodo hne, nofun, nofun,
      fun _ => rfl⟩
    (.inl rfl) fun hne => absurd hfree.1 hne
  · refine hpolled.onConn fun c => ?_
    obtain ⟨revt, heq⟩ := setRevents_eq (s := s) reports c
    exact ⟨_, heq, rfl, rfl, rfl⟩
  · obtain ⟨r, hmem, rfl⟩ := List.mem_map.mp hc
    exact h.serves_of_reports (hr r hmem)

theorem Sound.dispatch (h : s.Sound) (hat : s.At l .dispatching) : Sound (s.onLoop l fun L =>
    { L with
      activeChannels_ := L.activeChannels_.tail
      todo := (L.activeChannels_.take 1).flatMap s.handleEvent }) := by
  obtain ⟨hstage, -, hfree⟩ := hat
  have hold := h.placed l
  have hstaged := h.staged l
  refine h.onLoop ?_ ?_ (.inl rfl) fun hne => absurd hfree.1 hne
  · refine hold.of_sublist (fun f hf => hf) (.refl _)
      (fun c hc => hold.active c (List.mem_of_mem_tail hc)) (fun r hr => ?_) (.inl rfl)
    obtain ⟨c, hc, hr⟩ := List.mem_flatMap.mp hr
    have hfst : r.1 = c := by
      unfold handleEvent at hr
      split at hr
      · obtain ⟨task, -, rfl⟩ := List.mem_map.mp hr
        rfl
      · cases hr
    rw [hfst]
    exact hold.active c (List.mem_of_mem_take hc)
  · exact { hstaged with
      dispatching := fun _ => hstage
      busy := fun _ => .inl hstage }

/-- What is at hand is done. -/
theorem Sound.tail (h : s.Sound) (hfree : s.Free l) :
    Sound (s.onLoop l fun L => { L with todo := L.todo.tail }) := by
  have hold := h.placed l
  have hstaged := h.staged l
  refine h.onLoop (hold.of_sublist (fun f hf => hf) (.refl _) hold.active
    (fun r hr => hold.todo r (List.mem_of_mem_tail hr)) (.inl rfl)) ?_ (.inl rfl)
    fun hne => absurd hfree.1 hne
  refine { hstaged with busy := fun hne => hstaged.busy fun hnil => hne ?_ }
  simp only [hnil, List.tail_nil]

/-- The swap of `doPendingFunctors`. -/
theorem Sound.doPendingFunctors (h : s.Sound) (hat : s.At l .dispatching)
    (hactive : (s.loop l).activeChannels_ = []) : Sound (s.onLoop l fun L =>
      { L with stage := .running, rest := L.pendingFunctors_, pendingFunctors_ := [] }) := by
  obtain ⟨hstage, htodo, hfree⟩ := hat
  have hold := h.placed l
  refine h.onLoop (hold.of_sublist (fun f hf => ?_) ?_ hold.active hold.todo (.inl rfl)) ?_
    (.inl rfl) fun hne => absurd hfree.1 hne
  · simp only [ServerLoop.functors, List.nil_append, List.mem_append] at hf ⊢
    tauto
  · simp only [ServerLoop.waiting, List.append_nil]
    exact List.sublist_append_right ..
  · exact ⟨fun hne => absurd hactive hne, fun _ => rfl, fun hne => absurd htodo hne,
      by rintro ⟨⟩, by rintro ⟨⟩, fun _ => rfl⟩

/-- The next functor of the batch is taken. -/
theorem Sound.takeFunctor (h : s.Sound) (hat : s.At l .running) : Sound (s.onLoop l fun L =>
    { L with ran := L.ran ++ L.rest.take 1, rest := L.rest.tail }) := by
  obtain ⟨hstage, htodo, hfree⟩ := hat
  have hold := h.placed l
  have hstaged := h.staged l
  refine h.onLoop (hold.of_sublist (fun f hf => ?_) ?_ hold.active hold.todo (.inl rfl)) ?_
    (.inl rfl) fun hne => absurd hfree.1 hne
  · simp only [ServerLoop.functors, List.mem_append] at hf ⊢
    rcases hf with hf | (hf | hf) | hf
    · exact .inl hf
    · exact .inr (.inl hf)
    · exact .inr (.inr (List.mem_of_mem_take hf))
    · exact .inr (.inr (List.mem_of_mem_tail hf))
  · exact (List.tail_sublist _).append_right _
  · exact { hstaged with running := fun _ => hstage }

theorem Sound.donePendingFunctors (h : s.Sound) (hat : s.At l .running)
    (hrest : (s.loop l).rest = []) :
    Sound (s.onLoop l fun L => { L with stage := .test, ran := [] }) := by
  obtain ⟨hstage, htodo, hfree⟩ := hat
  have hold := h.placed l
  refine h.onLoop (hold.of_sublist (fun f hf => ?_) (.refl _) hold.active hold.todo (.inl rfl)) ?_
    (.inl rfl) fun hne => absurd hfree.1 hne
  · simp only [ServerLoop.functors, List.nil_append, List.mem_append] at hf ⊢
    tauto
  · refine .of_quiet ⟨?_, hrest, htodo⟩ (by rintro ⟨⟩) (by rintro ⟨⟩) fun _ => rfl
    by_contra hne
    have hd := (h.staged l).dispatching hne
    rw [hstage] at hd
    cases hd

/-- A thread of the pool takes a step after `loop()`. -/
theorem Sound.endLoop (h : s.Sound) (hending : (s.loop l).stage.ending = true) (hl : l ≠ .base) :
    Sound (s.onLoop l fun L => L.endNext) := by
  have hold := h.placed l
  have hstaged := h.staged l
  have hquiet : (s.loop l).stage ≠ .dispatching ∧ (s.loop l).stage ≠ .running := by
    constructor <;> intro heq <;> rw [heq] at hending <;> cases hending
  have hquiet := hstaged.quiet hquiet.1 hquiet.2
  have hbase : ∀ {p : Prop}, l = .base → p := fun heq => absurd heq hl
  have hcall : ∀ {p : Prop}, s.call (.loop l) ≠ .idle → p := by
    intro p hne
    have huser := h.userCode l hne
    cases hstage : (s.loop l).stage <;> rw [hstage] at hending huser <;>
      first | exact absurd hending (by decide) | exact absurd huser (by decide)
  obtain ⟨hstage, heq⟩ | ⟨hstage, heq⟩ | ⟨hstage, heq⟩ := ServerLoop.endNext_cases hending <;>
    refine h.onLoop ?_ ?_ ?_ hcall <;> rw [heq]
  · exact { hold with }
  · exact .of_quiet hquiet (by rintro ⟨⟩) (by rintro ⟨⟩) hbase
  · exact .inl rfl
  · refine hold.of_sublist (fun f hf => List.mem_append_right _ ?_) ?_ hold.active hold.todo
      (.inl rfl)
    · simpa [ServerLoop.functors] using hf
    · simp [ServerLoop.waiting]
  · exact .of_quiet hquiet (fun _ => rfl) (by rintro ⟨⟩) hbase
  · exact .inl rfl
  · exact hold.of_sublist (fun f hf => hf) (.refl _) hold.active hold.todo (.inr rfl)
  · exact .of_quiet hquiet (fun _ => hstaged.gone (by rw [hstage]; rfl)) (fun _ => rfl) hbase
  · exact .inr rfl

/-- A thread that may call is in no destructor, and a loop's is where code of the user runs. -/
theorem MayCall.userCode (h : s.MayCall t) (hl : t = .loop l) :
    (s.loop l).stage.userCode = true ∧ (l = .base → s.phase.inDestructor = false) := by
  subst hl
  exact ⟨h.2.1, h.2.2.1⟩

theorem Sound.share (h : s.Sound) (hup : s.Up c) :
    Sound { s with held := (t, c) :: s.held } := by
  refine h.withServer h.map (fun r hr => ?_)
    (fun t' ht' => (h.calling t' ht').imp_left (List.mem_cons_of_mem _)) h.userCode h.destructor
  obtain rfl | hr := List.mem_cons.mp hr
  · exact hup
  · exact h.held r hr

/-- The destructor goes on, with its thread in no call. -/
theorem Sound.withPhase (h : s.Sound) {phase : Phase}
    (hphase : phase.inDestructor = true → s.call (.loop .base) = .idle) :
    Sound { s with phase } :=
  h.withServer h.map h.held h.calling h.userCode hphase

theorem Sound.quit (h : s.Sound) : Sound (s.onLoop l fun L => { L with quit_ := true }) :=
  h.onLoop { h.placed l with } { h.staged l with } (.inl rfl) fun hne => ⟨h.userCode l hne, rfl⟩

variable [DecidableEq υ] {a : Action υ}

/-- A pointer goes, of a thread that is in no call. -/
theorem Sound.release (h : s.Sound) (ht : s.call t = .idle) :
    Sound { s with held := s.held.erase (t, c) } := by
  refine h.withServer h.map (fun r hr => h.held r (List.mem_of_mem_erase hr)) (fun t' ht' => ?_)
    h.userCode h.destructor
  have hne : t' ≠ t := by
    rintro rfl
    exact ht' ht
  refine (h.calling t' ht').imp_left fun hmem => ?_
  exact (List.mem_erase_of_ne (by simp [hne])).mpr hmem

omit [DecidableEq υ] in
theorem Sound.stopNext (h : s.Sound) (hs : s.MayStop) : s.stopNext.Sound := by
  have hidle : s.phase.inDestructor = true → s.call (.loop .base) = .idle := h.destructor
  unfold MayStop at hs
  unfold TcpServer.stopNext
  rcases hphase : s.phase with _ | _ | i | i | _ <;> rw [hphase] at hidle hs
  · cases hs
  · exact h.withPhase fun _ => hidle rfl
  · simp only
    split
    · exact h.withPhase fun _ => hidle rfl
    · exact (h.quit (l := .sub i)).withPhase fun _ => hidle rfl
  · exact h.withPhase fun _ => hidle rfl
  · cases hs

/-- **The change an action makes by itself keeps the invariant.** -/
theorem Sound.book (h : s.Sound) (ha : s.Ready a) : (s.book a).Sound := by
  cases a with
  | enter l =>
    obtain ⟨hstage, -, hfree⟩ := ha
    have hquiet := (h.staged l).quiet (by simp [hstage]) (by simp [hstage])
    exact h.onLoop (g := fun L => { L with stage := .test, quit_ := false })
      { h.placed l with } (.of_quiet hquiet nofun nofun fun _ => rfl) (.inl rfl)
      fun hne => absurd hfree.1 hne
  | test l => exact h.testQuit ha
  | poll l reports => exact h.poll ha.1 ha.2
  | dispatch l => exact h.dispatch ha.1
  | task l k => exact h.tail ha.1
  | ret l => exact h.tail ha.1
  | doPendingFunctors l => exact h.doPendingFunctors ha.1 ha.2
  | functor l k => exact h.takeFunctor ha.1
  | donePendingFunctors l => exact h.donePendingFunctors ha.1 ha.2
  | endLoop i => exact h.endLoop ha nofun
  | quit t l => exact h.quit
  | newConncetion sockfd => exact h.accept sockfd
  | send t c data =>
    rw [TcpServer.book]
    split
    · exact h.withCall (fun _ => ha.2) (fun _ l hl => (ha.1.userCode hl).1)
        fun _ hl => (ha.1.userCode hl).2 rfl
    · exact h
  | sendRun t k => exact h.endCall t
  | shutdown t c =>
    rw [TcpServer.book]
    split
    · exact h.withCall (fun _ => ha.2) (fun _ l hl => (ha.1.userCode hl).1)
        fun _ hl => (ha.1.userCode hl).2 rfl
    · exact h
  | shutdownStore t =>
    have hcalling : s.call t ≠ .idle := by simp [show s.call t = .shutTested from ha]
    have hbase : t = .loop .base → s.phase.inDestructor = false := by
      rintro rfl
      by_contra hd
      exact hcalling (h.destructor (by simpa using hd))
    have hstored : Sound { s with
        call := Function.update s.call t .shutStored
        callee := Function.update s.callee t (s.callee t) } :=
      h.withCall (fun _ => h.calling t hcalling) (fun _ l hl => h.userCode l (hl ▸ hcalling))
        fun _ => hbase
    rw [Function.update_eq_self] at hstored
    exact hstored.onTcp (c := s.callee t) (g := fun tcp => tcp.setState .kDisconnecting)
      fun tcp => ⟨rfl, rfl⟩
  | shutdownRun t => exact h.endCall t
  | setHighWaterMarkCallback t c mark =>
    exact h.onTcp (g := fun tcp =>
      { tcp with highWaterMarkCallback_ := true, highWaterMark_ := mark }) fun tcp => ⟨rfl, rfl⟩
  | retrieve l len =>
    rw [TcpServer.book]
    split
    · exact h.onTcp fun tcp => ⟨rfl, rfl⟩
    · exact h
  | share t t' c => exact h.share (h.up_of_has ha.2)
  | release t c => exact h.release ha.1.1
  | destroy => exact h.withPhase fun _ => ha.1.1
  | destroyNext c => exact h.erase _
  | stop => exact h.stopNext ha

/-! ### What becomes of a queue -/

/-- **A queue is as it was**, but for the functor that is taken, and where `~EventLoop` drops it. -/
theorem Sound.book_waiting (h : s.Sound) (ha : s.Ready a) (l : LoopId) :
    ((s.book a).loop l).waiting = (s.loop l).waiting ∨
    (∃ k f, a = .functor l k ∧ s.request a = some (.loop l, l, f) ∧
      (s.loop l).waiting = f :: ((s.book a).loop l).waiting) ∨
    (∃ i, a = .endLoop i ∧ l = .sub i ∧ (s.loop l).stage = .cleared ∧
      ((s.book a).loop l).waiting = []) := by
  have hstep := book_loop ha l
  generalize (s.book a).loop l = L at hstep ⊢
  cases hstep with
  | test hat =>
    obtain ⟨stage, heq, -⟩ := (s.loop l).testQuit_eq l
    exact .inl (by rw [heq]; rfl)
  | discard i hl hstage =>
    have hrest := ((h.staged l).quiet (by simp [hstage]) (by simp [hstage])).2.1
    exact .inr (.inr ⟨i, rfl, hl, hstage, by simp [ServerLoop.waiting, hrest]⟩)
  | swap hat hactive =>
    have hrest : (s.loop l).rest = [] := by
      by_contra hne
      have hrunning := (h.staged l).running hne
      rw [hat.1] at hrunning
      cases hrunning
    exact .inl (by simp [ServerLoop.waiting, hrest])
  | take k hat hrest =>
    obtain ⟨f, rest, hcons⟩ := List.exists_cons_of_ne_nil hrest
    exact .inr (.inl ⟨k, f, rfl, by simp [request, hcons], by simp [ServerLoop.waiting, hcons]⟩)
  | _ => exact .inl rfl

/-- So nothing joins it. -/
theorem Sound.mem_waiting_of_book (h : s.Sound) (ha : s.Ready a)
    (hf : f ∈ ((s.book a).loop l).waiting) : f ∈ (s.loop l).waiting := by
  obtain heq | ⟨k, g, -, -, heq⟩ | ⟨i, -, -, -, heq⟩ := h.book_waiting ha l
  · rwa [heq] at hf
  · rw [heq]
    exact List.mem_cons_of_mem g hf
  · rw [heq] at hf
    cases hf

/-! ## What is run and what is pushed -/

/-- A branch of an event is run on the loop's own connection. -/
theorem Sound.performs_of_branch (h : s.Sound) (ha : s.Ready a)
    (hb : s.branch a = some (l, c, m)) : (s.book a).Performs l c m := by
  cases a with
  | task l' k =>
    obtain ⟨r, hhead, hm⟩ := Option.bind_eq_some_iff.mp hb
    obtain ⟨m', hm', heq⟩ := Option.map_eq_some_iff.mp hm
    obtain ⟨rfl, rfl, rfl⟩ : l' = l ∧ r.1 = c ∧ m' = m := by simpa using heq
    have hmem : r ∈ (s.loop l').todo := List.mem_of_mem_head? hhead
    obtain ⟨hhome, hup⟩ := (h.placed l').todo r hmem
    have hbusy := (h.staged l').busy (List.ne_nil_of_mem hmem)
    refine ⟨h.made _ hup, hhome, ?_, fun _ => ⟨?_, ha.1.1⟩, fun hest => ?_, .inr (.inr hup)⟩
    · simp only [TcpServer.book, onLoop_self]
      rcases hbusy with hstage | hstage <;> simp [hstage, Stage.gone]
    · simpa only [TcpServer.book, onLoop_self] using hbusy
    · rcases r with ⟨c, task⟩
      cases task <;> cases hm' <;> cases hest
  | _ => cases hb

omit [DecidableEq υ] in
/-- The end of `send` or `shutdown`, on the connection's own thread and on another. -/
theorem Sound.executes_raw (h : s.Sound) {g : PendingFunctor (Thread υ)} (hg : g.isRaw = true)
    (ht : s.call t ≠ .idle) (hl : t = .loop l) (hhome : (s.conn (s.callee t)).home = l)
    (call : Thread υ → Call) : Executes { s with call } l (.of (s.callee t) g) := by
  refine ⟨h.made _ (h.up_callee ht), hhome, fun _ => h.up_callee ht,
    Stage.not_gone_of_userCode (h.userCode l (hl ▸ ht)), fun hback => ?_, nofun⟩
  have hcb : g.isCallback = true := hback
  cases g <;> simp_all [PendingFunctor.isRaw, PendingFunctor.isCallback]

omit [DecidableEq υ] in
theorem Sound.pushes_raw (h : s.Sound) {g : PendingFunctor (Thread υ)} (ht : s.call t ≠ .idle)
    (hhome : (s.conn (s.callee t)).home = l) (call : Thread υ → Call) :
    Pushes { s with call } l (.of (s.callee t) g) :=
  ⟨h.made _ (h.up_callee ht), hhome, fun _ => h.up_callee ht, nofun⟩

/-- A functor is run on its own loop's thread: the next of the batch, or one that came to
`runInLoop` there. -/
theorem Sound.executes_of_request (h : s.Sound) (ha : s.Ready a)
    (hr : s.request a = some (t, l, f)) (hl : t = .loop l) : (s.book a).Executes l f := by
  cases asks_of_request ha hr with
  | functor _ k f rest hrest =>
    obtain ⟨⟨hstage, -, hfree⟩, -⟩ := ha
    have hold := h.placed l
    have hmem : f ∈ (s.loop l).functors :=
      ServerLoop.mem_functors_of_waiting (by simp [ServerLoop.waiting, hrest])
    refine ⟨hold.target f hmem, hold.owner f hmem, hold.early f hmem, ?_,
      fun _ => ⟨.inr ?_, hfree.1⟩, fun c hc hwait => ?_⟩
    · simp [TcpServer.book, hstage, Stage.gone]
    · simpa [TcpServer.book] using hstage
    · have hord := hold.ordered
      simp only [ServerLoop.waiting, hrest, List.cons_append, List.pairwise_cons] at hord
      simp only [TcpServer.book, onLoop_self, ServerLoop.waiting, hrest, List.tail_cons] at hwait
      exact hord.1 _ hwait c rfl (by rw [hc]; rfl)
  | removal l' k c hhead =>
    obtain rfl : l' = .base := by simpa using hl
    have hserves := (h.placed _).todo _ (List.mem_of_mem_head? hhead)
    refine ⟨h.made c hserves.2, rfl, fun _ => hserves.2, ?_, by rintro ⟨⟩, by rintro _ ⟨⟩⟩
    simpa [TcpServer.book] using (h.staged .base).base rfl
  | accept sockfd =>
    obtain hnext : .base = s.threadPool_.getNextLoop.1 := by simpa using hl
    obtain ⟨⟨hstage, -, hfree⟩, -⟩ := ha
    rw [← hnext]
    refine ⟨Nat.lt_succ_self _, ?_, by rintro ⟨⟩, (h.staged .base).base rfl,
      fun _ => ⟨.inl hstage, hfree.1⟩, fun c hc hwait => ?_⟩
    · simpa [TcpServer.book, TcpServer.accept, owner] using hnext.symm
    · have hlt := (h.placed .base).target _ (ServerLoop.mem_functors_of_waiting hwait)
      cases hc
      exact Nat.lt_irrefl _ hlt
  | send _ k data hcall => exact h.executes_raw rfl (by simp [hcall]) hl rfl _
  | shutdown _ hcall => exact h.executes_raw rfl (by simp [hcall]) hl rfl _
  | destroy c hc =>
    obtain hhome : .base = (s.conn c).home := by simpa using hl
    rw [← hhome]
    exact ⟨hc, hhome.symm, by rintro ⟨⟩, (h.staged .base).base rfl, by rintro ⟨⟩, by rintro _ ⟨⟩⟩

/-- What another thread's `runInLoop` pushes belongs to the loop it is pushed to. -/
theorem Sound.pushes_of_request (h : s.Sound) (ha : s.Ready a) (hr : s.request a = some (t, l, f))
    (ht : t ≠ .loop l) : (s.book a).Pushes l f := by
  cases asks_of_request ha hr with
  | functor _ k f rest hrest => exact absurd rfl ht
  | removal l' k c hhead =>
    have hserves := (h.placed _).todo _ (List.mem_of_mem_head? hhead)
    exact ⟨h.made c hserves.2, rfl, fun _ => hserves.2, by rintro _ ⟨⟩⟩
  | accept sockfd =>
    refine ⟨Nat.lt_succ_self _, ?_, by rintro ⟨⟩, fun c hc => ?_⟩
    · simp [TcpServer.book, TcpServer.accept, owner]
    · obtain rfl : s.made = c := by simpa using hc
      refine ⟨s.accept_not_up sockfd, fun hbase => ht (by rw [hbase]), fun g hg => ?_⟩
      exact Nat.ne_of_lt ((h.placed _).target g (ServerLoop.mem_functors_of_waiting hg))
  | send _ k data hcall => exact h.pushes_raw (by simp [hcall]) rfl _
  | shutdown _ hcall => exact h.pushes_raw (by simp [hcall]) rfl _
  | destroy c hc => exact ⟨hc, rfl, by rintro ⟨⟩, by rintro _ ⟨⟩⟩

/-- A method is run in the thread of its connection's loop. -/
theorem Sound.performs_of_job (h : s.Sound) (ha : s.Ready a) (hj : s.job a = some (l, c, m)) :
    (s.book a).Performs l c m := by
  obtain hb | ⟨f, hr, hm, rfl⟩ := job_cases hj
  · exact h.performs_of_branch ha hb
  · exact (h.executes_of_request ha hr rfl).performs hm

/-! ## Every run -/

theorem Sound.next (h : s.Sound) (ha : s.Ready a) : (steps.next s a).Sound := by
  change (s.after a).Sound
  have hbook := h.book ha
  rcases s.after_cases a with ⟨l, c, m, hb, hafter⟩ | ⟨t, l, f, hr, hafter⟩ | ⟨-, -, hafter⟩ <;>
    rw [hafter]
  · exact hbook.perform (h.performs_of_branch ha hb)
  · exact hbook.runInLoop (h.executes_of_request ha hr) (h.pushes_of_request ha hr)
  · exact hbook

/-- **The invariant holds throughout.** -/
theorem Sound.along {as : List (Action υ)} {P : TcpServer υ → Action υ → Prop} (h : s.Sound)
    (hvalid : steps.Valid s as) (hP : ∀ s a, Sound s → steps.enabled s a → P s a) :
    steps.Along P s as :=
  hvalid.imp_of_invariant (I := Sound) (fun _ _ hs ha => hs.next ha.1) hP h

end TcpServer

end Mymuduo
