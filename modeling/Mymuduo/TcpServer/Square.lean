import Mymuduo.TcpServer.Hosting

/-!
# TcpServer/Square — an action of a server is an action of its sessions

    server      s ──────── a ────────▸ s.after a
                │                          │
             Tracks                     Tracks
                │                          │
    session     σ ── sessionActions ──▸    σ'

The square holds at every action (`Hosting.square`), for every connection that something holds.
What an action wants of the session is there because it is so in the server: a thread that may call
is, to each connection, in code of the user; a functor that comes to its turn finds its connection
announced; a channel is reported with its own address.
-/

namespace Mymuduo

open Machinery TcpConnection EPollPoller

namespace TcpServer

variable {υ : Type*} [DecidableEq υ] {s s' : TcpServer υ} {a : Action υ} {l : LoopId} {c : ℕ}
  {m : Method (Thread υ)} {f : ServerFunctor υ} {k : Answer} {t : Thread υ}
  {σ : Session ℕ (Thread υ)}

/-! ## The square at an action -/

omit [DecidableEq υ] in
theorem callOn_idle (ht : s.call t = .idle) : s.callOn c t = .idle := by
  unfold callOn
  split
  · exact ht
  · rfl

omit [DecidableEq υ] in
theorem callOn_callee (hcallee : s.callee t = c) : s.callOn c t = s.call t := if_pos hcallee

/-- The method an action runs on `c`, with the connection it finds. -/
def jobsOn (c : ℕ) (s : TcpServer υ) (a : Action υ) :
    List (TcpConnection ℕ (Thread υ) × Method (Thread υ)) :=
  match s.job a with
  | some (_, c', m) => if c' = c then [((s.conn c).tcp.bare, m)] else []
  | none => []

/-- The message of `c` that a thread is past the test of `send` with, as it is handed over. -/
def handedOn (c : ℕ) (s : TcpServer υ) : Action υ → List (Thread υ × List Byte)
  | .sendRun t _ =>
      match s.callOn c t with
      | .sending data => [(t, data)]
      | .idle | .shutTested | .shutStored => []
  | _ => []

/-- **The square**: the session may do what the action is to it, runs the method and is handed the
message the connection is, and the connection is then as the server has it. -/
structure Square (c : ℕ) (s : TcpServer υ) (a : Action υ) (σ : Session ℕ (Thread υ))
    (as : List (Session.Action ℕ (Thread υ) ⊕ ℕ)) : Prop where
  valid : (Session.marked (.loop (s.conn c).home)).Valid σ as
  tracks : Tracks c (s.after a) ((Session.marked (.loop (s.conn c).home)).run σ as)
  runs : (Session.marked (.loop (s.conn c).home)).collect
    (Session.runs (.loop (s.conn c).home)) σ as = s.jobsOn c a
  hands : (Session.marked (.loop (s.conn c).home)).collect Session.hands σ as = s.handedOn c a

theorem Tracks.bare (hσ : Tracks c s σ) : σ.conn.bare = (s.conn c).tcp.bare := by
  rw [hσ.conn]
  rfl

theorem jobsOn_of_none (h : s.job a = none) : s.jobsOn c a = [] := by rw [jobsOn, h]

theorem jobsOn_of_some (h : s.job a = some (l, c, m)) :
    s.jobsOn c a = [((s.conn c).tcp.bare, m)] := by
  rw [jobsOn, h]
  exact if_pos rfl

namespace Square

variable {b : Session.Action ℕ (Thread υ)}

/-- A session's action that runs no method. -/
theorem of_none (hready : σ.Ready (.loop (s.conn c).home) b)
    (hmethod : σ.method (.loop (s.conn c).home) b = none) (hjob : s.jobsOn c a = [])
    (hhands : σ.handed b = s.handedOn c a)
    (h : Tracks c (s.after a) (σ.book (.loop (s.conn c).home) b)) : Square c s a σ [.inl b] where
  valid := by
    refine ⟨⟨hready, ?_⟩, trivial⟩
    rw [hmethod]
    rintro m ⟨⟩
  tracks := by
    change Tracks c (s.after a) ((Session.steps _).next σ b)
    rwa [Session.next_of_none hmethod]
  runs := by simp [Session.runs, hmethod, hjob]
  hands := by simp [Session.hands, hhands]

/-- One that runs one. -/
theorem of_some (hσ : Tracks c s σ) (hready : σ.Ready (.loop (s.conn c).home) b)
    (hmethod : σ.method (.loop (s.conn c).home) b = some m) (hjob : s.job a = some (l, c, m))
    (hhands : σ.handed b = s.handedOn c a)
    (hallowed : m.Allowed (σ.book (.loop (s.conn c).home) b).conn)
    (h : Tracks c (s.after a) ((σ.book (.loop (s.conn c).home) b).perform m)) :
    Square c s a σ [.inl b] where
  valid := by
    refine ⟨⟨hready, ?_⟩, trivial⟩
    rw [hmethod]
    rintro m' ⟨⟩
    exact hallowed
  tracks := by
    change Tracks c (s.after a) ((Session.steps _).next σ b)
    rwa [Session.next_of_some hmethod]
  runs := by simp [Session.runs, hmethod, jobsOn_of_some hjob, hσ.bare]
  hands := by simp [Session.hands, hhands]

/-- Several in a row. -/
theorem cons {as : List (Session.Action ℕ (Thread υ) ⊕ ℕ)}
    (hready : σ.Ready (.loop (s.conn c).home) b)
    (hmethod : σ.method (.loop (s.conn c).home) b = none) (hhands : σ.handed b = [])
    (h : Square c s a (σ.book (.loop (s.conn c).home) b) as) : Square c s a σ (.inl b :: as) := by
  have hnext : (Session.marked (.loop (s.conn c).home)).next σ (.inl b) =
      σ.book (.loop (s.conn c).home) b := Session.next_of_none hmethod
  refine ⟨⟨⟨hready, ?_⟩, ?_⟩, ?_, ?_, ?_⟩
  · rw [hmethod]
    rintro m ⟨⟩
  · rw [hnext]
    exact h.valid
  · rw [Machine.run_cons, hnext]
    exact h.tracks
  · rw [Machine.collect_cons, hnext, h.runs]
    simp [Session.runs, hmethod]
  · rw [Machine.collect_cons, hnext, h.hands]
    simp [Session.hands, hhands]

end Square

/-! ### Calls -/

section

variable (h : s.Hosting) (hσ : Tracks c s σ)
include h hσ

omit hσ in
omit [DecidableEq υ] in
/-- What a thread is at, it is at for `c` or not at all. -/
theorem Hosting.todoOf_eq (l : LoopId) :
    (s.loop l).todoOf c = [] ∨ (s.loop l).todoOf c = (s.loop l).todo.map Prod.snd := by
  by_cases hat : ∃ r ∈ (s.loop l).todo, r.1 = c
  · obtain ⟨r, hr, rfl⟩ := hat
    right
    rw [ServerLoop.todoOf, List.filter_eq_self.mpr]
    exact fun r' hr' => decide_eq_true (h.living.single l r' hr' r hr)
  · left
    rw [ServerLoop.todoOf, List.filter_eq_nil_iff.mpr, List.map_nil]
    intro r hr heq
    exact hat ⟨r, hr, of_decide_eq_true heq⟩

/-- A thread in code of the user is, to each connection, in code of the user. -/
theorem Hosting.userCode (hhead : ∀ r ∈ (s.loop (s.conn c).home).todo.head?, r.2 = .user) :
    σ.userCode = true := by
  have htodo : σ.todo = (s.loop (s.conn c).home).todoOf c := hσ.todo
  obtain hnil | hall := h.todoOf_eq (c := c) (s.conn c).home
  · simp [Session.userCode, htodo, hnil]
  · rcases hlist : (s.loop (s.conn c).home).todo with _ | ⟨r, rest⟩
    · simp [Session.userCode, htodo, hall, hlist]
    · have huser : r.2 = .user := hhead r (by simp [hlist])
      simp [Session.userCode, htodo, hall, hlist, huser]

/-- A thread may make a call on a connection it has. -/
theorem Hosting.mayCall (hcall : s.MayCall t) (hhas : s.Has t c) : σ.established = true ∧
    σ.call t = .idle ∧ (t = .loop (s.conn c).home → σ.userCode = true) := by
  refine ⟨hσ.established.mpr (h.sound.up_of_has hhas), ?_, ?_⟩
  · rw [hσ.call]
    exact callOn_idle hcall.1
  · rintro rfl
    exact h.userCode hσ hcall.2.2.2

theorem Hosting.square_send {data : List Byte} (ha : s.Ready (.send t c data)) :
    Square c s (.send t c data) σ [.inl (.send t data)] := by
  refine .of_none (h.mayCall hσ ha.1 ha.2) rfl rfl rfl ?_
  have hstate : σ.conn.state_ = (s.conn c).tcp.state_ := by rw [hσ.conn]
  change Tracks c (s.book (.send t c data)) _
  rw [book, Session.book, hstate]
  split
  · exact hσ.begin
  · exact { hσ with }

theorem Hosting.square_shutdown (ha : s.Ready (.shutdown t c)) :
    Square c s (.shutdown t c) σ [.inl (.shutdown t)] := by
  refine .of_none (h.mayCall hσ ha.1 ha.2) rfl rfl rfl ?_
  have hstate : σ.conn.state_ = (s.conn c).tcp.state_ := by rw [hσ.conn]
  change Tracks c (s.book (.shutdown t c)) _
  rw [book, Session.book, hstate]
  split
  · exact hσ.begin
  · exact { hσ with }

omit h in
theorem Tracks.square_shutdownStore (ha : s.Ready (.shutdownStore t)) (hcallee : s.callee t = c) :
    Square c s (.shutdownStore t) σ [.inl (.shutdownStore t)] := by
  have htested : s.call t = .shutTested := ha
  refine .of_none (b := .shutdownStore t) ?_ rfl rfl rfl ?_
  · change σ.call t = .shutTested
    rw [hσ.call, callOn_callee hcallee, htested]
  · change Tracks c (s.book (.shutdownStore t)) _
    rw [book, Session.book, hcallee]
    exact (hσ.onTcp (g := fun tcp => tcp.setState .kDisconnecting) fun _ _ _ => rfl).step hcallee

omit h in
theorem Tracks.square_mark {highWaterMark : ℕ} :
    Square c s (.setHighWaterMarkCallback t c highWaterMark) σ [.inr highWaterMark] := by
  refine ⟨⟨trivial, trivial⟩, ?_, rfl, rfl⟩
  change Tracks c (s.book (.setHighWaterMarkCallback t c highWaterMark)) _
  rw [book]
  exact hσ.onTcp (g := fun tcp =>
    { tcp with highWaterMarkCallback_ := true, highWaterMark_ := highWaterMark }) fun _ _ _ => rfl

omit h in
theorem Tracks.allowed (hgone : (s.homeOf c).stage.gone = false) :
    m.Allowed σ.conn ↔ m.Allowed (s.view c) := by
  rw [hσ.view hgone, allowed_withQueue]

omit h hσ in
/-- The kernel answers what a functor run in its loop's thread asks. -/
theorem allowed_of_request (ha : steps.enabled s a) (hr : s.request a = some (t, l, f))
    (ht : t = .loop l) (hm : f.method a.answer = some m) :
    m.Allowed ((s.book a).view f.target) := by
  refine ha.2 (l, f.target, m) ?_
  rw [job_of_request hr, if_pos ht, hm]
  rfl

theorem Hosting.square_sendRun (ha : steps.enabled s (.sendRun t k)) (hs : s.Strong c)
    (hcallee : s.callee t = c) : Square c s (.sendRun t k) σ [.inl (.sendRun t k)] := by
  obtain ⟨data, hdata⟩ : ∃ data, s.call t = .sending data := by
    have hsending : (s.call t).isSending = true := ha.1
    cases hcall : s.call t with
    | sending data => exact ⟨data, rfl⟩
    | _ => simp [hcall, Call.isSending] at hsending
  have hcall : σ.call t = .sending data := by rw [hσ.call, callOn_callee hcallee, hdata]
  have hup : s.Up c := hcallee ▸ h.sound.up_callee (by simp [hdata])
  have hgone : t = .loop (s.conn c).home → (s.homeOf c).stage.gone = false := by
    rintro rfl
    exact Stage.not_gone_of_userCode (h.sound.userCode _ (by simp [hdata]))
  have hr : s.request (.sendRun t k) =
      some (t, (s.conn c).home, .of c (.sendInLoop t data)) := by
    simp only [request, hdata, hcallee]
  have hafter : s.after (.sendRun t k) =
      ({ s with call := Function.update s.call t .idle }).runInLoop t (s.conn c).home k
        (.of c (.sendInLoop t data)) := by
    simp only [after, branch, hr, book]
    rfl
  have hrun := (hσ.step (x := .idle) hcallee).runOwn (k := k) (t := t)
    (g := .sendInLoop t data) hup rfl (.inr hs) hgone
  have hjob := job_of_request hr
  have hhands : σ.handed (.sendRun t k) = s.handedOn c (.sendRun t k) := by
    simp only [Session.handed, handedOn, ← hσ.call, hcall]
  by_cases ht : t = .loop (s.conn c).home
  · refine .of_some (m := .sendInLoop t data k.write) hσ ?_ ?_ (by rw [hjob, if_pos ht]; rfl) hhands
      ?_ ?_
    · simp [Session.Ready, hcall, Call.isSending]
    · simp only [Session.method, hcall, if_pos ht]
    · simp only [Session.book, hcall, if_pos ht]
      exact (hσ.allowed (hgone ht)).mpr (allowed_of_request ha hr ht rfl)
    · rw [hafter]
      rw [if_pos ht] at hrun
      simp only [Session.book, hcall, if_pos ht]
      exact { hrun with }
  · refine .of_none ?_ ?_ (jobsOn_of_none (by rw [hjob, if_neg ht])) hhands ?_
    · simp [Session.Ready, hcall, Call.isSending]
    · simp [Session.method, hcall, ht]
    · rw [hafter]
      rw [if_neg ht] at hrun
      simp only [Session.book, hcall, if_neg ht]
      exact { hrun with }

theorem Hosting.square_shutdownRun (ha : steps.enabled s (.shutdownRun t)) (hs : s.Strong c)
    (hcallee : s.callee t = c) : Square c s (.shutdownRun t) σ [.inl (.shutdownRun t)] := by
  have hstored : s.call t = .shutStored := ha.1
  have hcall : σ.call t = .shutStored := by rw [hσ.call, callOn_callee hcallee, hstored]
  have hup : s.Up c := hcallee ▸ h.sound.up_callee (by simp [hstored])
  have hgone : t = .loop (s.conn c).home → (s.homeOf c).stage.gone = false := by
    rintro rfl
    exact Stage.not_gone_of_userCode (h.sound.userCode _ (by simp [hstored]))
  have hr : s.request (.shutdownRun t) = some (t, (s.conn c).home, .of c .shutdownInLoop) := by
    simp only [request, hcallee]
  have hafter : s.after (.shutdownRun t) =
      ({ s with call := Function.update s.call t .idle }).runInLoop t (s.conn c).home
        (Action.shutdownRun t).answer (.of c .shutdownInLoop) := by
    simp only [after, branch, hr, book]
  have hrun := (hσ.step (x := .idle) hcallee).runOwn (k := (Action.shutdownRun t).answer)
    (t := t) (g := .shutdownInLoop) hup rfl (.inr hs) hgone
  have hjob := job_of_request hr
  by_cases ht : t = .loop (s.conn c).home
  · refine .of_some (m := .shutdownInLoop) hσ hcall (if_pos ht) (by rw [hjob, if_pos ht]; rfl) rfl
      trivial ?_
    rw [hafter]
    rw [if_pos ht] at hrun
    simp only [Session.book, if_pos ht]
    exact { hrun with }
  · refine .of_none hcall (if_neg ht) (jobsOn_of_none (by rw [hjob, if_neg ht])) rfl ?_
    rw [hafter]
    rw [if_neg ht] at hrun
    simp only [Session.book, if_neg ht]
    exact { hrun with }

/-! ### Events -/

theorem Hosting.square_poll {reports : List (ℕ × Mask)} (ha : s.Ready (.poll l reports))
    (hdistinct : (reports.map Prod.fst).Nodup) (hc : c < s.made) {revt : Mask}
    (hmem : (c, revt) ∈ reports) : Square c s (.poll l reports) σ [.inl (.poll revt)] := by
  obtain ⟨⟨hstage, htodo, hfree⟩, hreports⟩ := ha
  have hr := hreports _ hmem
  obtain rfl : (s.conn c).home = l := (h.sound.serves_of_reports hr).1
  obtain ⟨hactive, hrest, -⟩ :=
    (h.sound.staged (s.conn c).home).quiet (by simp [hstage]) (by simp [hstage])
  have hgone : (s.homeOf c).stage.gone = false := by rw [homeOf, hstage]; rfl
  have hidle : σ.active = false := by
    rw [← Bool.not_eq_true, hσ.active, homeOf, hactive]
    exact List.not_mem_nil
  have hnil : σ.todo = [] := by simp [hσ.todo, homeOf, ServerLoop.todoOf, htodo]
  refine .of_none ⟨?_, hnil, hidle, ?_⟩ rfl rfl rfl ?_
  · have haddr := h.sound.addr c hc
    simpa only [Session.Reports, Reports, hσ.view hgone, TcpServer.view, withQueue, haddr] using hr
  · rw [hσ.call]
    exact callOn_idle hfree.1
  · have hloop : Tracks c (s.onLoop (s.conn c).home fun L =>
        { L with stage := .dispatching, activeChannels_ := reports.map Prod.fst })
        { σ with todo := σ.todo, active := true } := by
      refine hσ.onLoop rfl rfl ?_ rfl hσ.todo ?_
      · rw [hstage]
        rfl
      · simpa using ⟨revt, hmem⟩
    have htold := hloop.onTcp (g := fun tcp =>
      { tcp with channel_ := tcp.channel_.set_revents revt }) fun _ _ _ => rfl
    exact htold.congr (setRevents_of_mem hdistinct hmem) rfl rfl rfl

theorem Hosting.square_dispatch (ha : s.Ready (.dispatch l)) (hs : s.Strong c)
    (hhead : (s.loop l).activeChannels_.head? = some c) :
    Square c s (.dispatch l) σ [.inl .dispatch] := by
  obtain ⟨⟨hstage, htodo, hfree⟩, -⟩ := ha
  obtain ⟨cs, hcons⟩ := List.head?_eq_some_iff.mp hhead
  have hmem : c ∈ (s.loop l).activeChannels_ := by simp [hcons]
  obtain rfl : (s.conn c).home = l := ((h.sound.placed l).active c hmem).1
  have hrevents : σ.conn.channel_ = (s.conn c).tcp.channel_ := by rw [hσ.conn]
  have hnodup : c ∉ cs := by
    have honce := h.living.once (s.conn c).home
    rw [hcons] at honce
    exact (List.nodup_cons.mp honce).1
  refine .of_none ⟨hσ.active.mpr hmem, ?_, ?_⟩ rfl rfl rfl ?_
  · simp [hσ.todo, homeOf, ServerLoop.todoOf, htodo]
  · rw [hσ.call]
    exact callOn_idle hfree.1
  · change Tracks c (s.book (.dispatch (s.conn c).home)) _
    rw [book, Session.book, hrevents]
    refine hσ.onLoop rfl rfl rfl rfl ?_ ?_
    · have hall : ∀ r ∈ (Channel.handleEventWithGuard (s.conn c).tcp.channel_.revents_).map (c, ·),
          r.1 = c := by
        intro r hr
        obtain ⟨task, -, rfl⟩ := List.mem_map.mp hr
        rfl
      simp only [ServerLoop.todoOf, hcons, List.take_succ_cons, List.take_zero, List.flatMap_singleton,
        handleEvent, if_pos hs]
      rw [List.filter_eq_self.mpr fun r hr => decide_eq_true (hall r hr), List.map_map]
      simp [Function.comp_def]
    · simp [hcons, hnodup]

omit h in
/-- What the loop's thread is at, at the head of its list. -/
theorem Tracks.head_todo {task : Task} (hl : (s.conn c).home = l)
    (hhead : (s.loop l).todo.head? = some (c, task)) : σ.todo.head? = some task ∧
      σ.todo.tail = ServerLoop.todoOf { s.loop l with todo := (s.loop l).todo.tail } c := by
  obtain ⟨rest, hcons⟩ := List.head?_eq_some_iff.mp hhead
  rw [hσ.todo, homeOf, hl]
  simp [ServerLoop.todoOf, hcons]

omit h in
/-- The thread is done with it. -/
theorem Tracks.tail {task : Task} (hl : (s.conn c).home = l)
    (hhead : (s.loop l).todo.head? = some (c, task)) :
    Tracks c (s.onLoop l fun L => { L with todo := L.todo.tail })
      { σ with todo := σ.todo.tail } := by
  refine hσ.onLoop hl rfl rfl rfl (hσ.head_todo hl hhead).2 ?_
  rw [hσ.active, homeOf, hl]

theorem Hosting.square_ret {task : Task} (ha : s.Ready (.ret l))
    (hhead : (s.loop l).todo.head? = some (c, task)) :
    Square c s (.ret l) σ [.inl .ret] := by
  obtain ⟨hfree, r, hr, huser⟩ := ha
  obtain rfl : (c, task) = r := by simpa [hhead] using hr
  obtain rfl : (s.conn c).home = l := ((h.sound.placed l).todo _ (List.mem_of_mem_head? hhead)).1
  refine .of_none (b := .ret) ⟨?_, ?_⟩ rfl rfl rfl ?_
  · rw [(hσ.head_todo rfl hhead).1]
    exact congrArg some huser
  · rw [hσ.call]
    exact callOn_idle hfree.1
  · change Tracks c (s.book (.ret (s.conn c).home)) _
    rw [book, Session.book]
    exact hσ.tail rfl hhead

theorem Hosting.square_retrieve {task : Task} {len : ℕ} (ha : s.Ready (.retrieve l len))
    (hhead : (s.loop l).todo.head? = some (c, task)) :
    Square c s (.retrieve l len) σ [.inl (.consume len)] := by
  obtain ⟨-, r, hr, huser⟩ := ha
  obtain rfl : (c, task) = r := by simpa [hhead] using hr
  obtain rfl : (s.conn c).home = l := ((h.sound.placed l).todo _ (List.mem_of_mem_head? hhead)).1
  refine .of_none (b := .consume len) ?_ rfl rfl rfl ?_
  · change σ.todo.head? = some .user
    rw [(hσ.head_todo rfl hhead).1]
    exact congrArg some huser
  · change Tracks c (s.book (.retrieve (s.conn c).home len)) _
    rw [book, hhead]
    exact hσ.onTcp (g := fun tcp => { tcp with inputBuffer_ := tcp.inputBuffer_.retrieve len })
      fun _ _ _ => rfl

/-- A branch of an event. -/
theorem Hosting.square_branch {task : Task} (ha : steps.enabled s (.task l k))
    (hhead : (s.loop l).todo.head? = some (c, task)) (hm : task.method k = some m) :
    Square c s (.task l k) σ [.inl (.task k)] := by
  have hserves := (h.sound.placed l).todo _ (List.mem_of_mem_head? hhead)
  obtain ⟨hfree, r, hr, huser⟩ := ha.1
  obtain rfl : (c, task) = r := by simpa [hhead] using hr
  obtain rfl : (s.conn c).home = l := hserves.1
  have htodo := hσ.head_todo rfl hhead
  have hbusy := (h.sound.staged (s.conn c).home).busy (by rintro hnil; simp [hnil] at hhead)
  have hgone : (s.homeOf c).stage.gone = false := by
    obtain hstage | hstage := hbusy <;> rw [homeOf, hstage] <;> rfl
  have hbranch : s.branch (.task (s.conn c).home k) = some ((s.conn c).home, c, m) := by
    simp [branch, hhead, hm]
  have htail := hσ.tail rfl hhead
  have hremovals : σ.removals + (if σ.todo.head? = some .removeConnection then 1 else 0) =
      σ.removals := by
    rw [htodo.1, if_neg, Nat.add_zero]
    rintro ⟨⟩
    cases hm
  have hgone' : ((s.book (.task (s.conn c).home k)).homeOf c).stage.gone = false := by
    rw [book, homeOf_onLoop rfl]
    exact hgone
  refine .of_some (m := m) hσ ⟨?_, ?_⟩ ?_ (job_of_branch hbranch) rfl ?_ ?_
  · simpa [Session.userCode, htodo.1] using huser
  · rw [hσ.call]
    exact callOn_idle hfree.1
  · simp [Session.method, htodo.1, hm]
  · exact (htail.allowed hgone').mpr (ha.2 _ (job_of_branch hbranch))
  · have hafter : s.after (.task (s.conn c).home k) =
        (s.book (.task (s.conn c).home k)).perform (s.conn c).home c m := by
      simp only [after, hbranch, request_of_branch hbranch]
    rw [hafter, Session.book, hremovals]
    exact htail.perform rfl hgone' hserves.2

/-- The other two: `handleError` reports, and the server's `removeConnection` goes to the base
loop, at once where the thread is its own. -/
theorem Hosting.square_task {task : Task} (ha : steps.enabled s (.task l k))
    (hhead : (s.loop l).todo.head? = some (c, task)) : Square c s (.task l k) σ
      (.inl (.task k) ::
        if task = .removeConnection ∧ l = .base then [.inl .removeConnection] else []) := by
  rcases hm : task.method k with _ | m
  case some =>
    rw [if_neg (by rintro ⟨rfl, -⟩; cases hm)]
    exact h.square_branch hσ ha hhead hm
  have hserves := (h.sound.placed l).todo _ (List.mem_of_mem_head? hhead)
  obtain ⟨hfree, r, hr, huser⟩ := ha.1
  obtain rfl : (c, task) = r := by simpa [hhead] using hr
  obtain rfl : (s.conn c).home = l := hserves.1
  have htodo := hσ.head_todo rfl hhead
  have htail := hσ.tail rfl hhead
  have hbranch : s.branch (.task (s.conn c).home k) = none := by simp [branch, hhead, hm]
  have hready : σ.Ready (.loop (s.conn c).home) (.task k) := by
    refine ⟨by simpa [Session.userCode, htodo.1] using huser, ?_⟩
    rw [hσ.call]
    exact callOn_idle hfree.1
  have hmethod : σ.method (.loop (s.conn c).home) (.task k) = none := by
    simp [Session.method, htodo.1, hm]
  cases task with
  | errorCallback =>
    rw [if_neg (by rintro ⟨⟨⟩, -⟩)]
    have hafter : s.after (.task (s.conn c).home k) = s.book (.task (s.conn c).home k) := by
      simp [after, hbranch, request, hhead]
    refine .of_none hready hmethod (jobsOn_of_none ?_) rfl ?_
    · simp [job, hbranch, runs, request, hhead]
    · rw [hafter, Session.book, htodo.1]
      exact htail
  | removeConnection =>
    have hr : s.request (.task (s.conn c).home k) =
        some (.loop (s.conn c).home, .base, .removeConnectionInLoop c) := by simp [request, hhead]
    have hafter : s.after (.task (s.conn c).home k) =
        (s.book (.task (s.conn c).home k)).runInLoop (.loop (s.conn c).home) .base k
          (.removeConnectionInLoop c) := by
      simp only [after, hbranch, hr]
      rfl
    have hjobs : s.jobsOn c (.task (s.conn c).home k) = [] := by
      refine jobsOn_of_none ((job_of_request hr).trans ?_)
      split <;> rfl
    by_cases hbase : (s.conn c).home = .base
    · rw [if_pos ⟨rfl, hbase⟩]
      refine .cons hready hmethod rfl (.of_none ?_ rfl hjobs rfl ?_)
      · simp [Session.Ready, Session.book, htodo.1]
      · rw [hafter, runInLoop, if_pos (by rw [hbase]), exec]
        have hback := htail.removeConnectionInLoop hserves.2
        simpa [book, Session.book, htodo.1] using hback
    · rw [if_neg (fun h => hbase h.2)]
      refine .of_none hready hmethod hjobs rfl ?_
      rw [hafter, runInLoop, if_neg (by simpa using hbase), Session.book, htodo.1]
      refine htail.queueRemoval ?_
      rw [onLoop_ne (Ne.symm hbase)]
      exact (h.sound.staged .base).base rfl
  | user => exact absurd rfl huser
  | closeCallback => cases hm
  | readCallback => cases hm
  | writeCallback => cases hm

/-! ### Functors -/

omit hσ in
omit [DecidableEq υ] in
/-- The next functor of a batch that belongs to the connection finds it announced. -/
theorem Hosting.up_of_next {g : PendingFunctor (Thread υ)} {rest : List (ServerFunctor υ)}
    (hrest : (s.loop l).rest = .of c g :: rest) : (s.conn c).home = l ∧ s.Up c := by
  have hmem : .of c g ∈ (s.loop l).waiting := by simp [ServerLoop.waiting, hrest]
  have hhome : (s.conn c).home = l :=
    (h.sound.placed l).owner _ (ServerLoop.mem_functors_of_waiting hmem)
  refine ⟨hhome, ?_⟩
  by_contra hup
  have hc : c < s.made := (h.sound.placed l).target _ (ServerLoop.mem_functors_of_waiting hmem)
  have hgone : (s.homeOf c).stage.gone = false := by
    rw [homeOf, hhome]
    exact (h.sound.staged l).not_gone (.inr (by simp [hrest]))
  have hwait := h.awaited c hc hup hgone
  rw [homeOf, hhome, ServerLoop.waiting, hrest] at hwait
  have hordered := (h.sound.placed l).ordered
  rw [ServerLoop.waiting, hrest, List.cons_append, List.pairwise_cons] at hordered
  obtain heq | hlater := List.mem_cons.mp hwait
  · cases heq
  · exact hordered.1 _ hlater c rfl rfl

omit h in
/-- What the connection sees of a functor that is taken. -/
theorem Tracks.take {rest : List (ServerFunctor υ)} (hrest : (s.loop l).rest = f :: rest)
    {q : List (PendingFunctor (Thread υ))} {n : ℕ}
    (hn : σ.removals = n + if l = .base ∧ f = .removeConnectionInLoop c then 1 else 0)
    (hq : (s.homeOf c).stage.gone = false → σ.conn.pendingFunctors_ =
      (if s.Up c ∧ (s.conn c).home = l then (f.own c).toList else []) ++ q) :
    Tracks c (s.onLoop l fun L => { L with ran := L.ran ++ L.rest.take 1, rest := L.rest.tail })
      { σ with conn := { σ.conn with pendingFunctors_ := q }, removals := n } := by
  have hwait : (s.loop l).waiting = f :: ServerLoop.waiting { s.loop l with
      ran := (s.loop l).ran ++ (s.loop l).rest.take 1
      rest := (s.loop l).rest.tail } := by
    simp [ServerLoop.waiting, hrest]
  have hcount : n = (s.onLoop l fun L =>
      { L with ran := L.ran ++ L.rest.take 1, rest := L.rest.tail }).removalsOf c := by
    rw [hσ.removals, removalsOf] at hn
    rw [removalsOf]
    by_cases hbase : LoopId.base = l
    · subst hbase
      rw [onLoop_self]
      rw [hwait, List.count_cons] at hn
      simpa using hn.symm
    · rw [onLoop_ne hbase]
      simpa [Ne.symm hbase] using hn.symm
  by_cases hl : (s.conn c).home = l
  · subst hl
    refine hσ.of_loop (s.onLoop _ _) rfl (fun _ => rfl) onLoop_self hσ.todo hσ.active hcount
      (fun hgone => ⟨hgone, rfl⟩) (fun hgone => ?_) rfl
    have hqueue := hσ.queue hgone
    rw [hq hgone] at hqueue
    by_cases hup : s.Up c
    · rw [if_pos ⟨hup, rfl⟩, if_pos hup, homeOf, ServerLoop.queueOf, hwait] at hqueue
      rw [if_pos hup, ServerLoop.queueOf]
      rcases hown : f.own c with _ | g
      · rw [List.filterMap_cons_none hown] at hqueue
        simpa [hown] using hqueue
      · rw [List.filterMap_cons_some hown] at hqueue
        simpa [hown] using hqueue
    · simpa [hup] using hqueue
  · refine hσ.of_loop (s.onLoop l _) rfl (fun _ => rfl) (onLoop_ne hl) hσ.todo hσ.active hcount
      (fun hgone => ⟨hgone, rfl⟩) (fun hgone => ?_) rfl
    have hqueue := hσ.queue hgone
    rw [hq hgone] at hqueue
    simpa [hl, homeOf] using hqueue

theorem Hosting.square_removal (ha : s.Ready (.functor l k)) {rest : List (ServerFunctor υ)}
    (hrest : (s.loop l).rest = .removeConnectionInLoop c :: rest) :
    Square c s (.functor l k) σ [.inl .removeConnection] := by
  have hmem : .removeConnectionInLoop c ∈ (s.loop l).waiting := by simp [ServerLoop.waiting, hrest]
  have hfunctor := ServerLoop.mem_functors_of_waiting hmem
  obtain rfl : .base = l := (h.sound.placed l).owner _ hfunctor
  have hup : s.Up c := (h.sound.placed .base).early _ hfunctor rfl
  have hpos : 0 < σ.removals := by
    rw [hσ.removals, removalsOf]
    exact List.count_pos_iff.mpr hmem
  have hr : s.request (.functor .base k) = some (.loop .base, .base, .removeConnectionInLoop c) := by
    simp [request, hrest]
  refine .of_none hpos rfl (jobsOn_of_none ((job_of_request hr).trans (if_pos rfl))) rfl ?_
  have hafter : s.after (.functor .base k) =
      (s.book (.functor .base k)).removeConnectionInLoop c := by
    simp [after, branch, request, hrest, runInLoop, exec]
  have htake := hσ.take hrest (n := σ.removals - 1) (q := σ.conn.pendingFunctors_)
    (by simp [Nat.sub_add_cancel hpos]) fun _ => by simp [ServerFunctor.own]
  rw [hafter]
  exact htake.removeConnectionInLoop hup

omit h hσ in
omit [DecidableEq υ] in
/-- Who is held by a functor that is taken is held while it runs. -/
theorem strong_take (hs : s.Strong c) : (s.onLoop l fun L =>
    { L with ran := L.ran ++ L.rest.take 1, rest := L.rest.tail }).Strong c := by
  rcases hs with hmap | ⟨l', hl', hrefers⟩ | hheld
  · exact .inl hmap
  · refine strong_of_refers hl' ?_
    by_cases hl : l' = l
    · subst hl
      rw [onLoop_self]
      refine hrefers.imp_left fun ⟨f, hf, hraw⟩ => ⟨f, ?_, hraw⟩
      rcases hrest : (s.loop l').rest with _ | ⟨g, rest⟩ <;>
        simpa [ServerLoop.functors, hrest] using hf
    · rwa [onLoop_ne hl]
  · exact .inr (.inr hheld)

theorem Hosting.square_functor {g : PendingFunctor (Thread υ)} (ha : steps.enabled s (.functor l k))
    (hs : s.Strong c) {rest : List (ServerFunctor υ)} (hrest : (s.loop l).rest = .of c g :: rest) :
    Square c s (.functor l k) σ [.inl (.functor k)] := by
  obtain ⟨hhome, hup⟩ := h.up_of_next hrest
  subst hhome
  obtain ⟨hstage, htodo, hfree⟩ := ha.1.1
  have hgone : (s.homeOf c).stage.gone = false := by rw [homeOf, hstage]; rfl
  have hactive : (s.loop (s.conn c).home).activeChannels_ = [] := by
    by_contra hne
    have hd := (h.sound.staged (s.conn c).home).dispatching hne
    rw [hstage] at hd
    cases hd
  have hnil : σ.todo = [] := by simp [hσ.todo, homeOf, ServerLoop.todoOf, htodo]
  have hpending : σ.conn.pendingFunctors_ = g :: σ.conn.pendingFunctors_.tail := by
    rw [hσ.queue hgone, if_pos hup, homeOf, ServerLoop.queueOf, ServerLoop.waiting, hrest]
    simp [ServerFunctor.own]
  have hready : σ.Ready (.loop (s.conn c).home) (.functor k) := by
    refine ⟨by rw [hpending]; exact List.cons_ne_nil _ _, hnil, ?_, ?_⟩
    · rw [← Bool.not_eq_true, hσ.active, homeOf, hactive]
      exact List.not_mem_nil
    · rw [hσ.call]
      exact callOn_idle hfree.1
  have htake : Tracks c (s.book (.functor (s.conn c).home k)) { σ with
      conn := { σ.conn with pendingFunctors_ := σ.conn.pendingFunctors_.tail } } :=
    hσ.take hrest (n := σ.removals) (by simp)
      fun _ => by simpa [hup, ServerFunctor.own] using hpending
  have hr : s.request (.functor (s.conn c).home k) =
      some (.loop (s.conn c).home, (s.conn c).home, .of c g) := by simp [request, hrest]
  have hafter : s.after (.functor (s.conn c).home k) =
      (s.book (.functor (s.conn c).home k)).exec (s.conn c).home k (.of c g) := by
    simp only [after, branch, hr, runInLoop, if_true]
    rfl
  have hgone' : ((s.book (.functor (s.conn c).home k)).homeOf c).stage.gone = false := by
    rw [book, homeOf_onLoop rfl]
    exact hgone
  have hfirst : σ.conn.pendingFunctors_.head? = some g := by rw [hpending]; rfl
  rcases hm : g.method k with _ | m
  · -- a callback of the user is entered
    have hcallback : g.isCallback = true := by
      cases g <;> first | rfl | cases hm
    refine .of_none hready (by simp [Session.method, hfirst, hm]) (jobsOn_of_none ?_) rfl ?_
    · rw [job_of_request hr, if_pos rfl]
      exact congrArg (Option.map _) hm
    rw [hafter, exec, hm, Session.book, hfirst]
    refine htake.onLoop rfl rfl rfl rfl ?_ htake.active
    have hbook : ((s.book (.functor (s.conn c).home k)).homeOf c).todo = [] := by
      rw [book, homeOf_onLoop rfl]
      exact htodo
    rw [homeOf] at hbook
    simp [ServerLoop.todoOf, hbook, hcallback]
  · have hmethod : g.isCallback = false := by
      cases g <;> first | rfl | cases hm
    refine .of_some (m := m) (l := (s.conn c).home) hσ hready
      (by simp [Session.method, hfirst, hm]) ?_ rfl ?_ ?_
    · rw [job_of_request hr, if_pos rfl]
      exact congrArg (Option.map _) hm
    · have hanswer := allowed_of_request ha hr rfl hm
      rw [Session.book]
      exact (htake.allowed hgone').mpr hanswer
    · rw [hafter]
      simp only [exec, hm, if_pos (Or.inr (strong_take hs) :
        g.isRaw = false ∨ (s.book (.functor (s.conn c).home k)).Strong c)]
      have hrun := htake.perform (m := m) (l := (s.conn c).home) rfl hgone' hup
      simpa [Session.book, hfirst, hmethod, hnil] using hrun

omit h hσ in
/-- The destructor's calls, one after the other. -/
theorem run_destroys {t u : Thread υ} (hu : u ≠ t) (n : ℕ) :
    ∀ σ : Session ℕ (Thread υ), σ.established = true →
      (Session.marked t).Valid σ (List.replicate n (.inl (.destroy u))) ∧
      (Session.marked t).run σ (List.replicate n (.inl (.destroy u))) =
        { σ with conn := { σ.conn with
          pendingFunctors_ := σ.conn.pendingFunctors_ ++ List.replicate n .connectDestoryed } } ∧
      (Session.marked t).collect (Session.runs t) σ (List.replicate n (.inl (.destroy u))) = [] ∧
      (Session.marked t).collect Session.hands σ (List.replicate n (.inl (.destroy u))) = [] := by
  induction n with
  | zero =>
    intro σ hest
    exact ⟨trivial, by simp, rfl, rfl⟩
  | succ n ih =>
    intro σ hest
    have hmethod : σ.method t (.destroy u) = none := if_neg hu
    have hnext : (Session.marked t).next σ (.inl (.destroy u)) =
        { σ with conn := σ.conn.queueInLoop .connectDestoryed } := by
      change (Session.steps t).next σ (.destroy u) = _
      rw [Session.next_of_none hmethod, Session.book, if_neg hu]
    obtain ⟨hvalid, hrun, hruns, hhands⟩ :=
      ih { σ with conn := σ.conn.queueInLoop .connectDestoryed } hest
    rw [List.replicate_succ, Machine.run_cons, Machine.collect_cons, Machine.collect_cons, hnext,
      hruns, hhands]
    refine ⟨⟨⟨⟨hest, fun h => absurd h hu⟩, ?_⟩, ?_⟩, ?_, ?_, rfl⟩
    · rw [hmethod]
      rintro m ⟨⟩
    · rwa [hnext]
    · rw [hrun]
      simp [TcpConnection.queueInLoop, List.replicate_succ]
    · simp [Session.runs, hmethod]

theorem Hosting.square_establish (ha : steps.enabled s (.functor l k))
    {rest : List (ServerFunctor υ)} (hrest : (s.loop l).rest = .connectEstablished c :: rest) :
    Square c s (.functor l k) σ (.inl .connectEstablished ::
      List.replicate ((s.loop l).queueOf c).length (.inl (.destroy (.loop .base)))) := by
  have hmem : .connectEstablished c ∈ (s.loop l).waiting := by simp [ServerLoop.waiting, hrest]
  have hfunctor := ServerLoop.mem_functors_of_waiting hmem
  obtain rfl : (s.conn c).home = l := (h.sound.placed l).owner _ hfunctor
  obtain ⟨hup, hbase⟩ := (h.sound.placed (s.conn c).home).unannounced c hmem
  obtain ⟨hstage, htodo, hfree⟩ := ha.1.1
  have hgone : (s.homeOf c).stage.gone = false := by rw [homeOf, hstage]; rfl
  have htake : Tracks c (s.book (.functor (s.conn c).home k)) σ :=
    hσ.take hrest (n := σ.removals) (q := σ.conn.pendingFunctors_) (by simp)
      fun _ => by simp [ServerFunctor.own]
  have hgone' : ((s.book (.functor (s.conn c).home k)).homeOf c).stage.gone = false := by
    rw [book, homeOf_onLoop rfl]
    exact hgone
  -- what waits behind the announcement was queued by the destructor
  have hqueue : ((s.book (.functor (s.conn c).home k)).homeOf c).queueOf c =
      List.replicate ((s.loop (s.conn c).home).queueOf c).length .connectDestoryed := by
    have hsame : ((s.book (.functor (s.conn c).home k)).homeOf c).queueOf c =
        (s.loop (s.conn c).home).queueOf c := by
      rw [book, homeOf_onLoop rfl]
      simp [ServerLoop.queueOf, ServerLoop.waiting, hrest, List.filterMap_cons, ServerFunctor.own]
    rw [hsame]
    refine List.eq_replicate_of_mem fun g hg => ?_
    obtain ⟨f, hf, hown⟩ := List.mem_filterMap.mp hg
    rcases f with c' | c' | ⟨c', g'⟩
    · cases hown
    · cases hown
    · obtain ⟨rfl, rfl⟩ : c' = c ∧ g' = g := by simpa [ServerFunctor.own] using hown
      have hearly := mt ((h.sound.placed _).early _ (ServerLoop.mem_functors_of_waiting hf)) hup
      cases g' <;> first | rfl | exact absurd rfl hearly
  have hafter : s.after (.functor (s.conn c).home k) =
      (s.book (.functor (s.conn c).home k)).perform (s.conn c).home c .connectEstablished := by
    simp [after, branch, request, hrest, runInLoop, exec]
  have hnext : (Session.marked (.loop (s.conn c).home)).next σ (.inl .connectEstablished) =
      σ.perform .connectEstablished := rfl
  have hr : s.request (.functor (s.conn c).home k) =
      some (.loop (s.conn c).home, (s.conn c).home, .connectEstablished c) := by
    simp [request, hrest]
  have hjob : s.job (.functor (s.conn c).home k) =
      some ((s.conn c).home, c, .connectEstablished) := (job_of_request hr).trans (if_pos rfl)
  obtain ⟨hvalid, hrun, hruns, hhands⟩ := run_destroys (t := .loop (s.conn c).home) (u := .loop .base)
    (by simpa using Ne.symm hbase) ((s.loop (s.conn c).home).queueOf c).length
    (σ.perform .connectEstablished) (by simp [Session.perform, Method.isEstablish])
  refine ⟨⟨⟨⟨?_, ?_, ?_⟩, ?_⟩, ?_⟩, ?_, ?_, ?_⟩
  · rw [← Bool.not_eq_true, hσ.established]
    exact hup
  · simp [hσ.todo, homeOf, ServerLoop.todoOf, htodo]
  · rw [hσ.call]
    exact callOn_idle hfree.1
  · rintro m ⟨⟩
    trivial
  · rwa [hnext]
  · rw [hafter, Machine.run_cons, hnext, hrun, ← hqueue]
    exact htake.establish rfl hgone' hup
  · rw [Machine.collect_cons, hnext, hruns, jobsOn_of_some hjob, ← hσ.bare]
    rfl
  · rw [Machine.collect_cons, hnext, hhands]
    rfl

/-! ### The destructor -/

theorem Hosting.square_destroyNext (ha : steps.enabled s (.destroyNext c)) :
    Square c s (.destroyNext c) σ
      (if s.Up c ∧ (s.homeOf c).stage.gone = false then [.inl (.destroy (.loop .base))] else []) := by
  obtain ⟨hphase, hc, hmap⟩ := ha.1
  have herased : Tracks c (s.book (.destroyNext c)) σ := hσ.congr rfl rfl rfl rfl
  have hafter : s.after (.destroyNext c) = (s.book (.destroyNext c)).runInLoop (.loop .base)
      (s.conn c).home (Action.destroyNext c).answer (.of c .connectDestoryed) := rfl
  have hr : s.request (.destroyNext c) =
      some (.loop .base, (s.conn c).home, .of c .connectDestoryed) := rfl
  have hjob := job_of_request hr
  by_cases hlive : s.Up c ∧ (s.homeOf c).stage.gone = false
  · rw [if_pos hlive]
    obtain ⟨hup, hgone⟩ := hlive
    have hrun : Tracks c (s.after (.destroyNext c))
        (if (.loop .base : Thread υ) = .loop (s.conn c).home then σ.perform .connectDestoryed
          else { σ with conn := σ.conn.queueInLoop .connectDestoryed }) :=
      herased.runOwn hup rfl (.inl rfl) fun _ => hgone
    have hending : s.phase.inDestructor = true := by rw [hphase]; rfl
    have hready : σ.Ready (.loop (s.conn c).home) (.destroy (.loop .base)) := by
      refine ⟨hσ.established.mpr hup, fun ht => ?_⟩
      obtain hbase : .base = (s.conn c).home := by simpa using ht
      refine ⟨h.userCode hσ (hbase ▸ h.living.ending hending), ?_⟩
      rw [hσ.call, ← hbase]
      exact callOn_idle (h.sound.destructor hending)
    by_cases ht : (.loop .base : Thread υ) = .loop (s.conn c).home
    · refine .of_some (m := .connectDestoryed) hσ hready (if_pos ht) (by rw [hjob, if_pos ht]; rfl)
        rfl trivial ?_
      rw [Session.book, if_pos ht]
      rwa [if_pos ht] at hrun
    · refine .of_none hready (if_neg ht) (jobsOn_of_none (by rw [hjob, if_neg ht])) rfl ?_
      rw [Session.book, if_neg ht]
      rwa [if_neg ht] at hrun
  · rw [if_neg hlive]
    have ht : (.loop .base : Thread υ) ≠ .loop (s.conn c).home := by
      intro ht
      obtain hbase : .base = (s.conn c).home := by simpa using ht
      -- a connection of the base loop is announced where it is made
      have hgone : (s.homeOf c).stage.gone = false := by
        rw [homeOf, ← hbase]
        exact (h.sound.staged .base).base rfl
      have hwait := h.awaited c hc (fun hup => hlive ⟨hup, hgone⟩) hgone
      exact ((h.sound.placed _).unannounced c hwait).2 hbase.symm
    refine ⟨trivial, ?_, (jobsOn_of_none (by rw [hjob, if_neg ht])).symm, rfl⟩
    rw [hafter, runInLoop, if_neg ht]
    exact herased.queueEarly hlive

end

/-! ### Every action -/

/-- What is not about the connection runs nothing on it. -/
theorem jobsOn_of_about (ha : s.Ready a) (hc : c < s.made) (habout : s.about c a = none) :
    s.jobsOn c a = [] := by
  rcases hj : s.job a with _ | ⟨l, c', m⟩
  · exact jobsOn_of_none hj
  · rw [jobsOn, hj]
    refine if_neg ?_
    obtain hb | ⟨f, hr, -, rfl⟩ := job_cases hj
    · exact conn_of_branch habout hb
    · exact target_of_request ha hc habout hr

omit [DecidableEq υ] in
theorem handedOn_of_about (habout : s.about c a = none) : s.handedOn c a = [] := by
  cases a with
  | sendRun t k =>
    have hcallee : s.callee t ≠ c := by simpa [about] using habout
    simp [handedOn, callOn, hcallee]
  | _ => rfl

/-- What is not about the connection is to it what becomes of the poller. -/
theorem Hosting.square_others (h : s.Hosting) (hσ : Tracks c s σ) (ha : s.Ready a)
    (hc : c < s.made) (hs : s.Strong c) (habout : s.about c a = none) : Square c s a σ
      (if (s.homeOf c).stage.gone then []
        else [.inl (.others ((s.after a).loop (s.conn c).home).poller_)]) := by
  have huntouched := h.sound.untouched_after ha hc habout
  have hbase : ((s.after a).loop .base).stage.gone = false :=
    ((h.sound.next ha).staged .base).base rfl
  have hjobs := jobsOn_of_about ha hc habout
  have hhanded := handedOn_of_about habout
  by_cases hgone : (s.homeOf c).stage.gone = true
  · rw [if_pos hgone]
    refine ⟨trivial, huntouched.tracks hσ hbase (p := σ.conn.poller_) fun hpresent => ?_,
      hjobs.symm, hhanded.symm⟩
    rw [huntouched.home] at hpresent
    rw [homeOf, not_gone_before ha hpresent] at hgone
    cases hgone
  · rw [if_neg hgone]
    rw [Bool.not_eq_true] at hgone
    have hsame := h.living.poller_after ha hc hs hgone habout
    have hfd : σ.conn.channel_.fd_ = (s.conn c).tcp.channel_.fd_ := by rw [hσ.conn]
    refine .of_none ?_ rfl hjobs hhanded.symm (huntouched.tracks hσ hbase fun _ => ?_)
    · rw [← hfd, ← homeOf, ← hσ.poller hgone] at hsame
      exact ⟨hsame.interest, hsame.channels⟩
    · rw [huntouched.home]

/-- **The square holds at every action**, as long as something holds the connection. -/
theorem Hosting.square (h : s.Hosting) (hσ : Tracks c s σ) (ha : steps.enabled s a)
    (hdistinct : a.distinct) (hc : c < s.made) (hs : s.Strong c) :
    Square c s a σ (s.sessionActions c a) := by
  rw [sessionActions, if_pos hs]
  rcases habout : s.about c a with _ | labels
  · exact h.square_others hσ ha.1 hc hs habout
  · rw [Option.getD_some]
    cases a with
    | send t c' data =>
      obtain ⟨rfl, rfl⟩ : c' = c ∧ [.inl (.send t data)] = labels := by simpa [about] using habout
      exact h.square_send hσ ha.1
    | sendRun t k =>
      obtain ⟨rfl, rfl⟩ : s.callee t = c ∧ [.inl (.sendRun t k)] = labels := by
        simpa [about] using habout
      exact h.square_sendRun hσ ha hs rfl
    | shutdown t c' =>
      obtain ⟨rfl, rfl⟩ : c' = c ∧ [.inl (.shutdown t)] = labels := by simpa [about] using habout
      exact h.square_shutdown hσ ha.1
    | shutdownStore t =>
      obtain ⟨rfl, rfl⟩ : s.callee t = c ∧ [.inl (.shutdownStore t)] = labels := by
        simpa [about] using habout
      exact hσ.square_shutdownStore ha.1 rfl
    | shutdownRun t =>
      obtain ⟨rfl, rfl⟩ : s.callee t = c ∧ [.inl (.shutdownRun t)] = labels := by
        simpa [about] using habout
      exact h.square_shutdownRun hσ ha hs rfl
    | setHighWaterMarkCallback t c' mark =>
      obtain ⟨rfl, rfl⟩ : c' = c ∧ [.inr mark] = labels := by simpa [about] using habout
      exact hσ.square_mark
    | poll l reports =>
      obtain ⟨r, hfind, rfl⟩ := Option.map_eq_some_iff.mp habout
      have hmem := List.mem_of_find?_eq_some hfind
      obtain rfl : r.1 = c := by simpa using List.find?_some hfind
      exact h.square_poll hσ ha.1 hdistinct hc hmem
    | dispatch l =>
      obtain ⟨hhead, rfl⟩ : (s.loop l).activeChannels_.head? = some c ∧
        [.inl .dispatch] = labels := by simpa [about] using habout
      exact h.square_dispatch hσ ha.1 hs hhead
    | task l k =>
      simp only [about] at habout
      split at habout
      case h_1 c' task hhead =>
        obtain ⟨rfl, rfl⟩ := by simpa using habout
        exact h.square_task hσ ha hhead
      case h_2 => cases habout
    | ret l =>
      obtain ⟨hhead, rfl⟩ : (s.loop l).todo.head?.any (·.1 = c) = true ∧
        [.inl .ret] = labels := by simpa [about] using habout
      obtain ⟨⟨c', task⟩, hr, rfl⟩ : ∃ r, (s.loop l).todo.head? = some r ∧ r.1 = c := by
        simpa [Option.any_eq_true] using hhead
      exact h.square_ret hσ ha.1 hr
    | retrieve l len =>
      obtain ⟨hhead, rfl⟩ : (s.loop l).todo.head?.any (·.1 = c) = true ∧
        [.inl (.consume len)] = labels := by simpa [about] using habout
      obtain ⟨⟨c', task⟩, hr, rfl⟩ : ∃ r, (s.loop l).todo.head? = some r ∧ r.1 = c := by
        simpa [Option.any_eq_true] using hhead
      exact h.square_retrieve hσ ha.1 hr
    | functor l k =>
      rcases hrest : (s.loop l).rest with _ | ⟨f, rest⟩
      · simp [about, hrest] at habout
      · simp only [about, hrest, List.head?_cons] at habout
        rcases f with c' | c' | ⟨c', g⟩
        · obtain ⟨rfl, rfl⟩ := by simpa using habout
          exact h.square_establish hσ ha hrest
        · obtain ⟨rfl, rfl⟩ := by simpa using habout
          exact h.square_removal hσ ha.1 hrest
        · obtain ⟨rfl, rfl⟩ := by simpa using habout
          exact h.square_functor hσ ha hs hrest
    | destroyNext c' =>
      obtain ⟨rfl, rfl⟩ : c' = c ∧ _ = labels := by simpa [about] using habout
      exact h.square_destroyNext hσ ha
    | _ => cases habout

end TcpServer

end Mymuduo
