import Mymuduo.EchoServer.Answer
import Mymuduo.TcpServer.Streams

/-!
# EchoServer/Echo — the example server sends back the first message, and no more

The whole program: a server whose loops run `onMessage` for their connections, and nobody else.

    EchoServer  ──▸  TcpServer ──▸ Session        the library, connection by connection (`Square`)
                     onMessage ──▸ OnMessage      where a connection's callback is

An action of the server is, to a connection, an action of its session that goes by the callback
(`echo_square`), so that every connection lives through a session of the example server.  What that
comes to is `echoes_first`.
-/

namespace Mymuduo

open Machinery TcpConnection TcpServer

/-! ## What the library does not do here -/

namespace TcpServer

variable {υ : Type*} [DecidableEq υ] {s : TcpServer υ} {a : Action υ}

omit [DecidableEq υ] in
theorem exec_writeComplete (s : TcpServer υ) (l : LoopId) (k : Answer) (f : ServerFunctor υ) :
    (s.exec l k f).writeCompleteCallback_ = s.writeCompleteCallback_ := by
  rcases s.exec_cases l k f with ⟨c, -, hexec⟩ | ⟨m, -, -, hexec⟩ | ⟨-, -, hexec⟩ |
    ⟨c, cb, -, -, hexec⟩ <;> rw [hexec] <;> rfl

theorem book_writeComplete (s : TcpServer υ) (a : Action υ) :
    (s.book a).writeCompleteCallback_ = s.writeCompleteCallback_ := by
  cases a with
  | send t c data => rw [book]; split <;> rfl
  | shutdown t c => rw [book]; split <;> rfl
  | retrieve l len => rw [book]; split <;> rfl
  | stop =>
    rw [book, stopNext]
    cases s.phase with
    | stopping i => simp only; split <;> rfl
    | _ => rfl
  | _ => rfl

/-- The callback is set once, before the server starts. -/
theorem after_writeComplete (s : TcpServer υ) (a : Action υ) :
    (s.after a).writeCompleteCallback_ = s.writeCompleteCallback_ := by
  rw [← s.book_writeComplete a]
  rcases s.after_cases a with ⟨l, c, m, -, hafter⟩ | ⟨t, l, f, -, hafter⟩ | ⟨-, -, hafter⟩ <;>
    rw [hafter]
  · rfl
  · rw [runInLoop]
    split
    · exact exec_writeComplete ..
    · rfl

/-- Where the destructor does not run, a `connectDestoryed` is queued behind a removal, and only a
connection that has been announced is removed. -/
theorem announced_after (h : s.Sound) (ha : s.Ready a) (hrun : ∀ c, a ≠ .destroyNext c)
    (hold : ∀ l c, .of c .connectDestoryed ∈ (s.loop l).functors → s.Up c) (l : LoopId) (c : ℕ)
    (hf : .of c .connectDestoryed ∈ ((s.after a).loop l).functors) : (s.after a).Up c := by
  have hbook : .of c .connectDestoryed ∈ ((s.book a).loop l).functors → (s.after a).Up c := by
    intro hmem
    have hup := hold l c (functors_of_book ha hmem)
    exact up_after (h.made c hup) hup
  have hnot : ∀ c' m, .of c .connectDestoryed ∉ (s.book a).queued c' m := by
    intro c' m hmem
    obtain ⟨cb, heq, hcb⟩ := mem_queued hmem
    cases heq
    cases hcb
  rcases s.after_cases a with ⟨l', c', m, -, hafter⟩ | ⟨t, l', f, hr, hafter⟩ | ⟨-, -, hafter⟩ <;>
    rw [hafter] at hf
  · exact (mem_functors_perform hf).elim hbook fun hnew => absurd hnew.2 (hnot _ _)
  · have hasks := asks_of_request ha hr
    rw [runInLoop] at hf
    split at hf
    · rcases (s.book a).exec_cases l' a.answer f with ⟨c', rfl, hexec⟩ | ⟨m, -, -, hexec⟩ |
        ⟨-, -, hexec⟩ | ⟨c', cb, -, -, hexec⟩ <;> rw [hexec] at hf
      · obtain hmem | ⟨-, heq⟩ := mem_functors_queueInLoop hf
        · exact hbook hmem
        · obtain rfl : c = c' := by simpa using heq
          have hup : s.Up c := by
            cases hasks with
            | functor _ k _ rest hrest =>
              have hmem : .removeConnectionInLoop c ∈ (s.loop l').waiting := by
                simp [ServerLoop.waiting, hrest]
              exact (h.placed l').early _ (ServerLoop.mem_functors_of_waiting hmem) rfl
            | removal l k _ hhead => exact ((h.placed l).todo _ (List.mem_of_mem_head? hhead)).2
          exact up_after (h.made c hup) hup
      · exact (mem_functors_perform hf).elim hbook fun hnew => absurd hnew.2 (hnot _ _)
      · exact hbook hf
      · refine hbook ?_
        by_cases hl : l = l'
        · subst hl
          rwa [enterCallback, onLoop_self] at hf
        · rwa [enterCallback, onLoop_ne hl] at hf
    · obtain hmem | ⟨rfl, rfl⟩ := mem_functors_queueInLoop hf
      · exact hbook hmem
      · cases hasks with
        | functor => contradiction
        | destroy c hc => exact absurd rfl (hrun c)
  · exact hbook hf

end TcpServer

namespace EchoServer

variable {υ : Type*} [DecidableEq υ] {s : TcpServer υ} {a : Action υ} {l : LoopId} {c : ℕ}
  {m : Method (Thread υ)} {f : ServerFunctor υ} {pcs : ℕ → OnMessage} {σ : Session ℕ (Thread υ)}

/-! ## The program -/

/-- The messages an action calls `onMessage` of `c` for. -/
def heardOn (c : ℕ) (s : TcpServer υ) (a : Action υ) : List (List Byte) :=
  (s.runsOn c a).flatMap (·.2.heard)

/-- A loop's thread does what is next in the `onMessage` it runs, and the user does nothing else. -/
def Follows (s : TcpServer υ) (pcs : ℕ → OnMessage) : Action υ → Prop
  | .retrieve l len => ∃ r ∈ (s.loop l).todo.head?,
      pcs r.1 = .retrieve ∧ len = (s.conn r.1).tcp.inputBuffer_.content.length
  | .send t c data => t = .loop (s.conn c).home ∧ pcs c = .send data
  | .sendRun t _ => t = .loop (s.conn (s.callee t)).home ∧ pcs (s.callee t) = .sendInLoop
  | .shutdown t c => t = .loop (s.conn c).home ∧ pcs c = .shutdown
  | .shutdownStore t => t = .loop (s.conn (s.callee t)).home ∧ pcs (s.callee t) = .shutdownStore
  | .shutdownRun t => t = .loop (s.conn (s.callee t)).home ∧ pcs (s.callee t) = .shutdownInLoop
  | .ret l => ∃ r ∈ (s.loop l).todo.head?, pcs r.1 = .idle ∨ pcs r.1 = .ret
  | .endLoop _ | .quit _ _ | .setHighWaterMarkCallback _ _ _ | .share _ _ _ | .release _ _
  | .destroy | .destroyNext _ | .stop => False
  | .enter _ | .test _ | .poll _ _ | .dispatch _ | .task _ _ | .doPendingFunctors _ | .functor _ _
  | .donePendingFunctors _ | .newConncetion _ => True

/-- Whose `onMessage` an action takes where. -/
def goes (s : TcpServer υ) : Action υ → Option (ℕ × OnMessage)
  | .retrieve l _ =>
      (s.loop l).todo.head?.map fun r => (r.1, .send (s.conn r.1).tcp.inputBuffer_.content)
  | .send _ c _ => some (c, if (s.conn c).tcp.state_ = .kConnected then .sendInLoop else .shutdown)
  | .sendRun t _ => some (s.callee t, .shutdown)
  | .shutdown _ c =>
      some (c, if (s.conn c).tcp.state_ = .kDisconnected then .shutdownStore else .ret)
  | .shutdownStore t => some (s.callee t, .shutdownInLoop)
  | .shutdownRun t => some (s.callee t, .ret)
  | .ret l => (s.loop l).todo.head?.map fun r => (r.1, .idle)
  | .task l k => (s.branch (.task l k)).bind fun j =>
      if j.2.2.heard = [] then none else some (j.2.1, .retrieve)
  | _ => none

/-- Where all of them are after it. -/
def goesOn (s : TcpServer υ) (pcs : ℕ → OnMessage) (a : Action υ) : ℕ → OnMessage :=
  (goes s a).elim pcs fun r => Function.update pcs r.1 r.2

instance (s : TcpServer υ) (pcs : ℕ → OnMessage) : ∀ a : Action υ, Decidable (Follows s pcs a)
  | .retrieve l _ | .ret l => inferInstanceAs (Decidable (∃ r ∈ (s.loop l).todo.head?, _))
  | .send _ _ _ | .sendRun _ _ | .shutdown _ _ | .shutdownStore _ | .shutdownRun _ =>
      inferInstanceAs (Decidable (_ ∧ _))
  | .endLoop _ | .quit _ _ | .setHighWaterMarkCallback _ _ _ | .share _ _ _ | .release _ _
  | .destroy | .destroyNext _ | .stop => isFalse id
  | .enter _ | .test _ | .poll _ _ | .dispatch _ | .task _ _ | .doPendingFunctors _ | .functor _ _
  | .donePendingFunctors _ | .newConncetion _ => isTrue trivial

/-- **The example server**: a `TcpServer`, with where each connection's `onMessage` is. -/
def steps : Machine (TcpServer υ × (ℕ → OnMessage)) (Action υ) :=
  TcpServer.steps.controlled Follows goesOn

instance (p : TcpServer υ × (ℕ → OnMessage)) (a : Action υ) : Decidable (steps.enabled p a) :=
  inferInstanceAs (Decidable (TcpServer.steps.enabled p.1 a ∧ Follows p.1 p.2 a))

/-- `start()`; the threads are three in the example. -/
def start (numThreads : ℕ) : TcpServer υ × (ℕ → OnMessage) :=
  (.start numThreads false, fun _ => .idle)

/-! ## Under the library -/

/-- **What holds of the library under the example server.** -/
structure Undisturbed (s : TcpServer υ) (pcs : ℕ → OnMessage) : Prop where
  hosting : s.Hosting
  quiet : s.writeCompleteCallback_ = false
  announced : ∀ l c, .of c .connectDestoryed ∈ (s.loop l).functors → s.Up c
  idle : ∀ c, s.made ≤ c → pcs c = .idle

omit [DecidableEq υ] in
theorem start_undisturbed (n : ℕ) : Undisturbed (.start n false : TcpServer υ) fun _ => .idle := by
  refine ⟨start_hosting n false, rfl, fun l c hf => ?_, fun _ _ => rfl⟩
  cases l <;> cases hf

omit [DecidableEq υ] in
theorem goesOn_of_goes {pc : OnMessage} (h : goes s a = some (c, pc)) :
    goesOn s pcs a c = pc := by
  rw [goesOn, h]
  exact Function.update_self ..

omit [DecidableEq υ] in
theorem goesOn_of_forall_ne (h : ∀ r ∈ goes s a, r.1 ≠ c) : goesOn s pcs a c = pcs c := by
  rcases hgoes : goes s a with _ | r
  · rw [goesOn, hgoes]
    rfl
  · rw [goesOn, hgoes]
    exact Function.update_of_ne (h r hgoes).symm ..

omit [DecidableEq υ] in
/-- An action that is not about a connection leaves its callback where it is. -/
theorem goesOn_of_about (habout : s.about c a = none) : goesOn s pcs a c = pcs c := by
  refine goesOn_of_forall_ne ?_
  rintro ⟨c', pc⟩ hgoes rfl
  cases a with
  | retrieve l len =>
    obtain ⟨r, hr, heq⟩ := Option.map_eq_some_iff.mp hgoes
    cases heq
    simp [about, hr] at habout
  | ret l =>
    obtain ⟨r, hr, heq⟩ := Option.map_eq_some_iff.mp hgoes
    cases heq
    simp [about, hr] at habout
  | task l k =>
    obtain ⟨⟨l', c'', m⟩, hb, heq⟩ := Option.bind_eq_some_iff.mp hgoes
    by_cases hm : m.heard = []
    · simp [hm] at heq
    · obtain ⟨rfl, -⟩ : c'' = c' ∧ .retrieve = pc := by simpa [hm] using heq
      exact conn_of_branch habout hb rfl
  | send t c'' data =>
    cases hgoes
    simp [about] at habout
  | shutdown t c'' =>
    cases hgoes
    simp [about] at habout
  | sendRun t k =>
    cases hgoes
    simp [about] at habout
  | shutdownStore t =>
    cases hgoes
    simp [about] at habout
  | shutdownRun t =>
    cases hgoes
    simp [about] at habout
  | _ => cases hgoes

/-! ### The square -/

/-- One action of the session goes by the callback. -/
theorem echo_single {b : Session.Action ℕ (Thread υ) ⊕ ℕ} {pc pc' : OnMessage}
    (h : (Session.marked (.loop l)).Valid σ [b]) (hfollows : σ.Follows (.loop l) pc b)
    (hpc : σ.goesOn (.loop l) pc b = pc') :
    (Session.echo (.loop l)).Valid (σ, pc) [b] ∧
      ((Session.echo (.loop l)).run (σ, pc) [b]).2 = pc' :=
  ⟨⟨⟨h.1, hfollows⟩, trivial⟩, hpc⟩

omit [DecidableEq υ] in
/-- A connection that is still to be announced has nothing else queued. -/
theorem Undisturbed.queueOf_eq_nil {rest : List (ServerFunctor υ)} (h : Undisturbed s pcs)
    (hrest : (s.loop l).rest = .connectEstablished c :: rest) : (s.loop l).queueOf c = [] := by
  have hplaced := h.hosting.sound.placed l
  have hup := (hplaced.unannounced c (by simp [ServerLoop.waiting, hrest])).1
  refine List.filterMap_eq_nil_iff.mpr fun f hf => ?_
  have hmem := ServerLoop.mem_functors_of_waiting hf
  rcases f with c' | c' | ⟨c', g⟩
  · rfl
  · rfl
  · refine if_neg ?_
    rintro rfl
    have hearly := mt (hplaced.early _ hmem) hup
    cases g with
    | connectDestoryed => exact hup (h.announced l c' hmem)
    | _ => exact hearly rfl

/-- A branch of an event of the connection, with the server's removal behind it. -/
theorem echo_task {k : Answer} {task : Task} (h : Undisturbed s pcs) (hσ : Tracks c s σ)
    (hvalid : (Session.marked (.loop (s.conn c).home)).Valid σ (.inl (.task k) ::
      if task = .removeConnection ∧ l = .base then [.inl .removeConnection] else []))
    (hhead : (s.loop l).todo.head? = some (c, task)) :
    (Session.echo (.loop (s.conn c).home)).Valid (σ, pcs c) (.inl (.task k) ::
        if task = .removeConnection ∧ l = .base then [.inl .removeConnection] else []) ∧
      ((Session.echo (.loop (s.conn c).home)).run (σ, pcs c) (.inl (.task k) ::
        if task = .removeConnection ∧ l = .base then [.inl .removeConnection] else [])).2 =
        goesOn s pcs (.task l k) c := by
  obtain rfl : (s.conn c).home = l :=
    ((h.hosting.sound.placed l).todo _ (List.mem_of_mem_head? hhead)).1
  have hpc : σ.goesOn (.loop (s.conn c).home) (pcs c) (.inl (.task k)) =
      goesOn s pcs (.task (s.conn c).home k) c := by
    have hmethod : σ.method (.loop (s.conn c).home) (.task k) = task.method k := by
      simp [Session.method, (hσ.head_todo rfl hhead).1]
    rw [Session.goesOn]
    rcases hm : task.method k with _ | m
    · rw [Session.hears_of_none (hmethod.trans hm), if_pos rfl, goesOn, goes]
      simp [branch, hhead, hm]
    · rw [Session.hears_of_some (hmethod.trans hm)]
      by_cases hheard : m.heard = []
      · rw [if_pos hheard, goesOn, goes]
        simp [branch, hhead, hm, hheard]
      · rw [if_neg hheard]
        refine (goesOn_of_goes ?_).symm
        simp [goes, branch, hhead, hm, hheard]
  split at hvalid <;> rename_i hlast
  · rw [if_pos hlast]
    exact ⟨⟨⟨hvalid.1, trivial⟩, ⟨hvalid.2.1, trivial⟩, trivial⟩, hpc⟩
  · rw [if_neg hlast]
    exact echo_single hvalid trivial hpc

/-- **An action of the example server is an action of its sessions**, which goes by the callback. -/
theorem echo_square (h : Undisturbed s pcs) (hσ : Tracks c s σ) (ha : TcpServer.steps.enabled s a)
    (hdistinct : a.distinct) (hfollows : Follows s pcs a) (hc : c < s.made) (hs : s.Strong c) :
    (Session.echo (.loop (s.conn c).home)).Valid (σ, pcs c) (s.sessionActions c a) ∧
      ((Session.echo (.loop (s.conn c).home)).run (σ, pcs c) (s.sessionActions c a)).2 =
        goesOn s pcs a c := by
  have hvalid := (h.hosting.square hσ ha hdistinct hc hs).valid
  rw [sessionActions, if_pos hs] at hvalid ⊢
  have hinput : σ.conn.inputBuffer_ = (s.conn c).tcp.inputBuffer_ := by rw [hσ.conn]
  have hstate : σ.conn.state_ = (s.conn c).tcp.state_ := by rw [hσ.conn]
  rcases habout : s.about c a with _ | labels
  · rw [habout, Option.getD_none] at hvalid
    rw [Option.getD_none, goesOn_of_about habout]
    split
    · exact ⟨trivial, rfl⟩
    case isFalse hgone =>
      rw [if_neg hgone] at hvalid
      exact echo_single hvalid trivial rfl
  · rw [habout, Option.getD_some] at hvalid
    rw [Option.getD_some]
    cases a with
    | send t c' data =>
      obtain ⟨rfl, rfl⟩ : c' = c ∧ [.inl (.send t data)] = labels := by simpa [about] using habout
      refine echo_single hvalid hfollows ?_
      rw [Session.goesOn, hstate]
      exact (goesOn_of_goes rfl).symm
    | sendRun t k =>
      obtain ⟨rfl, rfl⟩ : s.callee t = c ∧ [.inl (.sendRun t k)] = labels := by
        simpa [about] using habout
      exact echo_single hvalid hfollows (goesOn_of_goes rfl).symm
    | shutdown t c' =>
      obtain ⟨rfl, rfl⟩ : c' = c ∧ [.inl (.shutdown t)] = labels := by simpa [about] using habout
      refine echo_single hvalid hfollows ?_
      rw [Session.goesOn, hstate]
      exact (goesOn_of_goes rfl).symm
    | shutdownStore t =>
      obtain ⟨rfl, rfl⟩ : s.callee t = c ∧ [.inl (.shutdownStore t)] = labels := by
        simpa [about] using habout
      exact echo_single hvalid hfollows (goesOn_of_goes rfl).symm
    | shutdownRun t =>
      obtain ⟨rfl, rfl⟩ : s.callee t = c ∧ [.inl (.shutdownRun t)] = labels := by
        simpa [about] using habout
      exact echo_single hvalid hfollows (goesOn_of_goes rfl).symm
    | poll l reports =>
      obtain ⟨r, hfind, rfl⟩ := Option.map_eq_some_iff.mp habout
      exact echo_single hvalid trivial rfl
    | dispatch l =>
      obtain ⟨hhead, rfl⟩ : (s.loop l).activeChannels_.head? = some c ∧
        [.inl .dispatch] = labels := by simpa [about] using habout
      exact echo_single hvalid trivial rfl
    | ret l =>
      obtain ⟨hany, rfl⟩ : (s.loop l).todo.head?.any (·.1 = c) = true ∧
        [.inl .ret] = labels := by simpa [about] using habout
      obtain ⟨r, hr, hpc⟩ := hfollows
      obtain rfl : r.1 = c := by simpa [Option.mem_def.mp hr] using hany
      refine echo_single hvalid hpc (goesOn_of_goes ?_).symm
      rw [goes, hr]
      rfl
    | retrieve l len =>
      obtain ⟨hany, rfl⟩ : (s.loop l).todo.head?.any (·.1 = c) = true ∧
        [.inl (.consume len)] = labels := by simpa [about] using habout
      obtain ⟨r, hr, hpc, hlen⟩ := hfollows
      obtain rfl : r.1 = c := by simpa [Option.mem_def.mp hr] using hany
      refine echo_single hvalid ⟨hpc, by rw [hinput]; exact hlen⟩ (goesOn_of_goes ?_).symm
      rw [goes, hr, Session.goesOn, hinput]
      rfl
    | task l k =>
      simp only [about] at habout
      split at habout
      case h_1 c' task hhead =>
        obtain ⟨rfl, rfl⟩ := by simpa using habout
        exact echo_task h hσ hvalid hhead
      case h_2 => cases habout
    | functor l k =>
      rcases hrest : (s.loop l).rest with _ | ⟨f, rest⟩
      · simp [about, hrest] at habout
      · simp only [about, hrest, List.head?_cons] at habout
        rcases f with c' | c' | ⟨c', g⟩
        · obtain ⟨rfl, rfl⟩ := by simpa using habout
          rw [h.queueOf_eq_nil hrest] at hvalid ⊢
          exact echo_single hvalid trivial rfl
        · obtain ⟨rfl, rfl⟩ := by simpa using habout
          exact echo_single hvalid trivial rfl
        · obtain ⟨rfl, rfl⟩ := by simpa using habout
          exact echo_single hvalid trivial rfl
    | _ => first | cases habout | cases hfollows

omit [DecidableEq υ] in
/-- A callback is of a connection that has been announced. -/
theorem up_of_goes {pc : OnMessage} (h : s.Sound) (ha : s.Ready a)
    (hgoes : goes s a = some (c, pc)) : s.Up c := by
  have hhead : ∀ l r, (s.loop l).todo.head? = some r → s.Up r.1 := fun l r hr =>
    ((h.placed l).todo r (List.mem_of_mem_head? hr)).2
  cases a with
  | retrieve l len =>
    obtain ⟨r, hr, heq⟩ := Option.map_eq_some_iff.mp hgoes
    cases heq
    exact hhead l r hr
  | ret l =>
    obtain ⟨r, hr, heq⟩ := Option.map_eq_some_iff.mp hgoes
    cases heq
    exact hhead l r hr
  | task l k =>
    obtain ⟨⟨l', c', m⟩, hb, heq⟩ := Option.bind_eq_some_iff.mp hgoes
    obtain ⟨r, hr, hmap⟩ := Option.bind_eq_some_iff.mp hb
    obtain ⟨m', -, hjob⟩ := Option.map_eq_some_iff.mp hmap
    obtain ⟨-, rfl, -⟩ : l = l' ∧ r.1 = c' ∧ m' = m := by simpa using hjob
    by_cases hm : m.heard = []
    · simp [hm] at heq
    · obtain ⟨rfl, -⟩ : r.1 = c ∧ .retrieve = pc := by simpa [hm] using heq
      exact hhead l r hr
  | send t c' data =>
    cases hgoes
    exact h.up_of_has ha.2
  | shutdown t c' =>
    cases hgoes
    exact h.up_of_has ha.2
  | sendRun t k =>
    cases hgoes
    refine h.up_callee fun hidle => ?_
    have hsending : (s.call t).isSending = true := ha
    rw [hidle] at hsending
    cases hsending
  | shutdownStore t =>
    cases hgoes
    refine h.up_callee fun hidle => ?_
    have htested : s.call t = .shutTested := ha
    rw [hidle] at htested
    cases htested
  | shutdownRun t =>
    cases hgoes
    refine h.up_callee fun hidle => ?_
    have hstored : s.call t = .shutStored := ha
    rw [hidle] at hstored
    cases hstored
  | _ => cases hgoes

theorem Undisturbed.next (h : Undisturbed s pcs) (ha : TcpServer.steps.enabled s a)
    (hdistinct : a.distinct) (hfollows : Follows s pcs a) :
    Undisturbed (s.after a) (goesOn s pcs a) where
  hosting := h.hosting.next ha.1 hdistinct
  quiet := (s.after_writeComplete a).trans h.quiet
  announced := announced_after h.hosting.sound ha.1 (by rintro c rfl; exact hfollows) h.announced
  idle c hc := by
    have hmade : s.made ≤ c := by
      by_contra hlt
      exact absurd (lt_made_after (a := a) (Nat.lt_of_not_le hlt)) (Nat.not_lt.mpr hc)
    refine (goesOn_of_forall_ne ?_).trans (h.idle c hmade)
    rintro ⟨c', pc⟩ hgoes rfl
    have hlt := h.hosting.sound.made c' (up_of_goes h.hosting.sound ha.1 hgoes)
    exact absurd hlt (Nat.not_lt.mpr hmade)

/-! ## Every run -/

/-- What a run of the server asks of the kernel beside its answers. -/
def Fair (p : TcpServer υ × (ℕ → OnMessage)) (a : Action υ) : Prop :=
  steps.enabled p a ∧ a.distinct

/-- **The example server is, to each of its connections, a session of the example server.** -/
def session (c : ℕ) (l : LoopId) :
    Tracking (steps (υ := υ)) (Session.echo (κ := ℕ) (Thread.loop l : Thread υ)) Fair
    (fun p => Undisturbed p.1 p.2 ∧ c < p.1.made ∧ (p.1.conn c).home = l) where
  rel p q := p.1.Strong c → Tracks c p.1 q.1 ∧ q.2 = p.2 c
  label p a := sessionActions c p.1 a
  keeps := fun p a ⟨h, hc, hl⟩ ⟨ha, hdistinct⟩ =>
    ⟨h.next ha.1 hdistinct ha.2, lt_made_after hc, (p.1.after_home_of_lt a hc).trans hl⟩
  follows := by
    rintro ⟨s, pcs⟩ ⟨σ, pc⟩ a ⟨h, hc, rfl⟩ ⟨⟨ha, hfollows⟩, hdistinct⟩ hrel
    by_cases hs : s.Strong c
    · obtain ⟨hσ, rfl⟩ := hrel hs
      obtain ⟨hvalid, hpc⟩ := echo_square h hσ ha hdistinct hfollows hc hs
      refine ⟨hvalid, fun _ => ⟨?_, hpc⟩⟩
      rw [Session.echo, Machine.controlled_run_fst]
      exact (h.hosting.square hσ ha hdistinct hc hs).tracks
    · rw [sessionActions, if_neg hs]
      exact ⟨trivial, fun hs' => absurd (h.hosting.sound.strong_before ha.1 hc hs') hs⟩

/-- The session hears what the connection hears. -/
theorem collect_hears {as : List (Action υ)} (hs : s.Hosting ∧ c < s.made ∧ (s.conn c).home = l)
    (hrun : TcpServer.steps.Along (fun s a => TcpServer.steps.enabled s a ∧ a.distinct) s as)
    (hrel : s.Strong c → Tracks c s σ) :
    (Session.marked (.loop l)).collect (Session.hears (.loop l)) σ
        (TcpServer.steps.collect (sessionActions c) s as) =
      TcpServer.steps.collect (heardOn c) s as := by
  have hruns := congrArg (List.flatMap fun r => r.2.heard) (collect_session hs hrun hrel).1
  rwa [Machine.collect_flatMap, Machine.collect_flatMap] at hruns

theorem Undisturbed.echoing_birth (h : Undisturbed s pcs) (sockfd : ℤ) :
    Session.Echoing (.loop s.threadPool_.getNextLoop.1) []
      ((Session.marked (.loop s.threadPool_.getNextLoop.1)).run (s.newborn sockfd) s.birth) .idle := by
  have hnew : Session.Echoing (.loop s.threadPool_.getNextLoop.1) [] (s.newborn sockfd) .idle :=
    (h.hosting.sound.newborn_initial sockfd).echoing h.quiet rfl rfl
  obtain ⟨hbirth, -⟩ := h.hosting.sound.born sockfd
  by_cases hbase : s.threadPool_.getNextLoop.1 = .base
  · rw [birth, if_pos hbase] at hbirth ⊢
    exact hnew.next ⟨hbirth.1, trivial⟩
  · rwa [birth, if_neg hbase]

/-- **A connection comes to what its session of the example server comes to.** -/
theorem Undisturbed.echoing {sockfd : ℤ} {as : List (Action υ)} (h : Undisturbed s pcs)
    (hrun : steps.Along Fair (s, pcs) (.newConncetion sockfd :: as))
    (hs : (TcpServer.steps.run s (.newConncetion sockfd :: as)).Strong s.made) :
    Session.Echoing (.loop s.threadPool_.getNextLoop.1)
      (TcpServer.steps.collect (heardOn s.made) (s.after (.newConncetion sockfd)) as)
      ((Session.marked (.loop s.threadPool_.getNextLoop.1)).run (s.newborn sockfd)
        (s.sessionRun sockfd as))
      ((steps.run (s, pcs) (.newConncetion sockfd :: as)).2 s.made) := by
  obtain ⟨⟨⟨hnew, -⟩, -⟩, hafter⟩ := hrun
  obtain ⟨-, htracks⟩ := h.hosting.sound.born sockfd
  obtain ⟨hhosting, hmade, hhome⟩ := h.hosting.hosts hnew
  have hnext := h.next (a := .newConncetion sockfd) hnew trivial trivial
  have hidle : goesOn s pcs (.newConncetion sockfd : Action υ) s.made = .idle :=
    h.idle s.made le_rfl
  obtain ⟨hvalid, hend⟩ := (session s.made s.threadPool_.getNextLoop.1).run
    (s := (s.after (.newConncetion sockfd), goesOn s pcs (.newConncetion sockfd)))
    (t := ((Session.marked (.loop s.threadPool_.getNextLoop.1)).run (s.newborn sockfd) s.birth, .idle))
    ⟨hnext, hmade, hhome⟩ hafter fun _ => ⟨htracks, hidle.symm⟩
  have hbegun := h.echoing_birth sockfd
  have hlabels : steps.collect (session s.made s.threadPool_.getNextLoop.1).label
      (s.after (.newConncetion sockfd), goesOn s pcs (.newConncetion sockfd)) as =
      TcpServer.steps.collect (sessionActions s.made) (s.after (.newConncetion sockfd)) as :=
    Machine.controlled_collect (f := sessionActions s.made)
  have hunder : TcpServer.steps.Along (fun s a => TcpServer.steps.enabled s a ∧ a.distinct)
      (s.after (.newConncetion sockfd)) as :=
    Machine.controlled_along.mp (hafter.mono fun _ _ ha => ⟨ha.1.1, ha.2⟩)
  have hpc := (hend (by rw [steps, Machine.controlled_run_fst]; exact hs)).2
  have hdone := hbegun.run hvalid
  rw [hlabels] at hdone hpc
  rw [collect_hears ⟨hhosting, hmade, hhome⟩ hunder fun _ => htracks, List.nil_append, hpc,
    Session.echo, Machine.controlled_run_fst] at hdone
  rw [sessionRun, Machine.run_append]
  exact hdone

/-- Whatever the example server does, the library is undisturbed. -/
theorem along_undisturbed {n : ℕ} {as : List (Action υ)}
    (h : steps.Along Fair (start n) as) :
    Undisturbed (steps.run (start n) as).1 (steps.run (start n) as).2 :=
  h.invariant (I := fun p => Undisturbed p.1 p.2)
    (fun _ _ hp ha => hp.next ha.1.1 ha.2 ha.1.2) (start_undisturbed n)

/-- **The example server sends back the first message, and no more**: what has been written on a
connection, with what waits in its output buffer, is nothing or the first message read from it; no
`write` follows a `shutdownWrite`.  While the connection is open nothing waits behind the half-close,
and once the first `onMessage` has returned, the first message, and no other, has been sent, and the
half-close is done or the poller asks for writing until it is. -/
theorem echoes_first (n : ℕ) (as bs : List (Action υ)) (sockfd : ℤ)
    (h : steps.Valid (start n) (as ++ .newConncetion sockfd :: bs))
    (hdistinct : steps.Along (fun _ a => a.distinct) (start n) (as ++ .newConncetion sockfd :: bs)) :
    let p := steps.run (start n) (as ++ .newConncetion sockfd :: bs)
    let c := (steps.run (start n) as).1.made
    let born := (steps.run (start n) as).1.after (.newConncetion sockfd)
    let heard := TcpServer.steps.collect (heardOn c) born bs
    let tcp := (p.1.conn c).tcp
    p.1.Strong c →
      (tcp.output = [] ∨ heard.head? = some tcp.output) ∧ tcp.WritesLast ∧
      (TcpServer.steps.Along (Spares c) born bs →
        (tcp.WriteShut → tcp.outputBuffer_.content = []) ∧
        (heard ≠ [] → p.2 c = .idle →
          ∃ msg, heard.head? = some msg ∧
            TcpServer.steps.collect (ranOn c) born bs = [(.loop (p.1.conn c).home, msg)] ∧
            tcp.state_ = .kDisconnecting ∧
              (tcp.WriteShut ∨ tcp.outputBuffer_.content ≠ [] ∧ tcp.channel_.isWriting = true))) := by
  obtain ⟨hbefore, hafter⟩ := Machine.along_append.mp (Machine.along_and.mpr ⟨h, hdistinct⟩)
  have hundisturbed := along_undisturbed hbefore
  rw [Machine.run_append]
  intro p c born heard tcp hs
  have hrun : p.1 = TcpServer.steps.run (steps.run (start n) as).1 (.newConncetion sockfd :: bs) :=
    Machine.controlled_run_fst
  have hunder : TcpServer.steps.Along (fun s a => TcpServer.steps.enabled s a ∧ a.distinct)
      (steps.run (start n) as).1 (.newConncetion sockfd :: bs) :=
    Machine.controlled_along.mp (hafter.mono fun _ _ ha => ⟨ha.1.1, ha.2⟩)
  have hechoing := hundisturbed.echoing hafter (hrun ▸ hs)
  obtain ⟨-, htracks, hsums⟩ := hundisturbed.hosting.comes_to hunder (hrun ▸ hs)
  rw [← hrun] at htracks
  have hhome : (p.1.conn c).home = (steps.run (start n) as).1.threadPool_.getNextLoop.1 := by
    rw [hrun]
    exact (hunder.2.invariant (TcpServer.session c _).keeps
      (hundisturbed.hosting.hosts hunder.1.1)).2.2
  have houtput := htracks.output
  have hlast := hechoing.halfShut.last
  rw [WritesLast, htracks.conn] at hlast
  refine ⟨?_, hlast, fun hspares => ?_⟩
  · rw [← houtput]
    exact hechoing.answering.output hsums
  · have hopen := closed_of_spares hsums hspares
    refine ⟨fun hshut => ?_, fun hheard hidle => ?_⟩
    · have hempty := hechoing.emptied hopen
      rw [WriteShut, htracks.conn] at hempty
      exact hempty hshut
    · have hsettled := hechoing
      rw [hidle] at hsettled
      obtain ⟨msg, hhead, hran, hstate, hshut⟩ := hsettled.settled hheard hopen
      rw [WriteShut, htracks.conn] at hshut
      rw [htracks.conn] at hstate
      refine ⟨msg, hhead, ?_, hstate, hshut⟩
      rw [hhome, ← hran, hsums.ran, Machine.collect_flatMap]
      rfl

/-- A peer sends a second message while the last byte of the first still waits. -/
theorem echoes_first_second :
    let as : List (Action Empty) := [.enter .base, .test .base, .poll .base []]
    let bs : List (Action Empty) := [.ret .base, .doPendingFunctors .base, .donePendingFunctors .base,
      .test .base, .poll .base [(0, EPOLLIN)], .dispatch .base,
      .task .base ⟨⟨0, 0, 0⟩, .data [1, 2, 3]⟩, .retrieve .base 3, .send (.loop .base) 0 [1, 2, 3],
      .sendRun (.loop .base) ⟨⟨2, 0, 0⟩, .data []⟩, .shutdown (.loop .base) 0,
      .shutdownStore (.loop .base), .shutdownRun (.loop .base), .ret .base,
      .doPendingFunctors .base, .donePendingFunctors .base, .test .base,
      .poll .base [(0, EPOLLIN)], .dispatch .base, .task .base ⟨⟨0, 0, 0⟩, .data [4]⟩,
      .retrieve .base 1, .send (.loop .base) 0 [4], .shutdown (.loop .base) 0, .ret .base]
    let p := steps.run (start 0) (as ++ .newConncetion 7 :: bs)
    let c := (steps.run (start 0) as).1.made
    let born := (steps.run (start 0) as).1.after (.newConncetion 7)
    let heard := TcpServer.steps.collect (heardOn c) born bs
    let tcp := (p.1.conn c).tcp
    heard = [[1, 2, 3], [4]] ∧ heard.head? = some tcp.output ∧ tcp.WritesLast ∧
      ∃ msg, TcpServer.steps.collect (ranOn c) born bs = [(.loop (p.1.conn c).home, msg)] := by
  intro as bs p c born heard tcp
  obtain ⟨hstrong, hheard, hsome, hspares, hidle⟩ : p.1.Strong c ∧ heard = [[1, 2, 3], [4]] ∧
      tcp.output ≠ [] ∧ TcpServer.steps.Along (Spares c) born bs ∧ p.2 c = .idle := by
    decide +kernel
  obtain ⟨houtput, hlast, hopen⟩ := echoes_first 0 as bs 7 (by decide +kernel) (by decide +kernel)
    hstrong
  have hne : heard ≠ [] := by simp [hheard]
  obtain ⟨msg, -, hran, -⟩ := (hopen hspares).2 hne hidle
  exact ⟨hheard, houtput.resolve_left hsome, hlast, msg, hran⟩

end EchoServer

end Mymuduo
