import Mymuduo.TcpServer.BareThis

/-!
# TcpServer/Living — what the connections that are alive do not share

A strong reference is copied from a strong reference: whatever an action leaves behind that holds a
connection, something held it before (`Sound.strong_before`).  So a connection nothing holds is gone
for good, and those alive keep what `newConncetion` found them to have: a descriptor none of the
others has.  A thread is at one connection at a time, and a poll that reports a channel once has it
dispatched once.
-/

namespace Mymuduo

open Machinery TcpConnection

namespace TcpServer

variable {υ : Type*} {s : TcpServer υ} {l l' : LoopId} {c c' : ℕ} {m : Method (Thread υ)}
  {f : ServerFunctor υ} {k : Answer} {t : Thread υ}

/-! ## Where references come from -/

/-- A reference in a loop comes from one of its functors, or from what its thread is at. -/
theorem strong_of_refers (hl : l ∈ s.loops) (h : (s.loop l).Refers c) : s.Strong c :=
  .inr (.inl ⟨l, hl, h⟩)

/-- **A method holds no one but its own connection.** -/
theorem strong_perform (h : (s.perform l c m).Strong c') : s.Strong c' ∨ c' = c := by
  rcases h with hmap | ⟨l', hl', ⟨f, hf, hraw, htarget⟩ | htodo⟩ | hheld
  · rw [InMap, perform_name] at hmap
    exact .inl (.inl hmap)
  · rw [perform_loop] at hf
    simp only [ServerLoop.functors, List.mem_append] at hf
    by_cases hq : f ∈ s.queued c m
    · obtain ⟨cb, rfl, -⟩ := mem_queued hq
      exact .inr htarget.symm
    · refine .inl (strong_of_refers hl' (.inl ⟨f, ?_, hraw, htarget⟩))
      simp only [ServerLoop.functors, List.mem_append]
      split at hf <;> simp_all
  · rw [perform_loop] at htodo
    simp only [List.map_append, List.mem_append] at htodo
    obtain hnew | hold := htodo
    · split at hnew
      · simp only [List.map_map, List.mem_map, Function.comp_apply] at hnew
        obtain ⟨task, -, rfl⟩ := hnew
        exact .inr rfl
      · cases hnew
    · exact .inl (strong_of_refers hl' (.inr hold))
  · exact .inl (.inr (.inr hheld))

/-- Nor does a push. -/
theorem strong_queueInLoop (h : (s.queueInLoop l f).Strong c) :
    s.Strong c ∨ f.isRaw = false ∧ f.target = c := by
  rcases h with hmap | ⟨l', hl', ⟨g, hg, hraw, htarget⟩ | htodo⟩ | hheld
  · exact .inl (.inl hmap)
  · rw [queueInLoop_loop] at hg
    simp only [ServerLoop.functors, List.mem_append] at hg
    by_cases hgf : g = f
    · exact .inr (hgf ▸ ⟨hraw, htarget⟩)
    · refine .inl (strong_of_refers hl' (.inl ⟨g, ?_, hraw, htarget⟩))
      simp only [ServerLoop.functors, List.mem_append]
      split at hg <;> simp_all
  · rw [queueInLoop_loop] at htodo
    exact .inl (strong_of_refers hl' (.inr htodo))
  · exact .inl (.inr (.inr hheld))

theorem strong_enterCallback (h : (s.enterCallback l c).Strong c') : s.Strong c' ∨ c' = c := by
  rcases h with hmap | ⟨l', hl', hrefers⟩ | hheld
  · exact .inl (.inl hmap)
  · by_cases hl : l' = l
    · subst hl
      rw [enterCallback, onLoop_self] at hrefers
      obtain hf | htodo := hrefers
      · exact .inl (strong_of_refers hl' (.inl hf))
      · obtain rfl | htodo := List.mem_cons.mp htodo
        · exact .inr rfl
        · exact .inl (strong_of_refers hl' (.inr htodo))
    · rw [enterCallback, onLoop_ne hl] at hrefers
      exact .inl (strong_of_refers hl' hrefers)
  · exact .inl (.inr (.inr hheld))

/-- A functor holds its target, or finds it held. -/
theorem strong_exec (h : (s.exec l k f).Strong c) : s.Strong c ∨ f.isRaw = false ∧ f.target = c := by
  rcases s.exec_cases l k f with ⟨c', rfl, hexec⟩ | ⟨m, -, hraw, hexec⟩ | ⟨-, -, hexec⟩ |
    ⟨c', cb, rfl, hcb, hexec⟩ <;> rw [hexec] at h
  · obtain hs | ⟨-, rfl⟩ := strong_queueInLoop h
    · rcases hs with hmap | hrest
      · refine .inl (.inl ?_)
        change Function.update s.conncetions_ (s.conn c').name none (s.conn c).name = some c at hmap
        by_cases hname : (s.conn c).name = (s.conn c').name
        · rw [hname, Function.update_self] at hmap
          cases hmap
        · rwa [Function.update_of_ne hname] at hmap
      · exact .inl (.inr hrest)
    · exact .inr ⟨rfl, rfl⟩
  · obtain hs | rfl := strong_perform h
    · exact .inl hs
    · cases hf : f.isRaw with
      | true => exact .inl (hraw hf)
      | false => exact .inr ⟨rfl, rfl⟩
  · exact .inl h
  · obtain hs | rfl := strong_enterCallback h
    · exact .inl hs
    · exact .inr ⟨Follows.isRaw ⟨_, cb, rfl, .inl hcb⟩, rfl⟩

section

variable [DecidableEq υ] {a : Action υ}

theorem strong_runInLoop (h : (s.runInLoop t l k f).Strong c) :
    s.Strong c ∨ f.isRaw = false ∧ f.target = c := by
  unfold runInLoop at h
  split at h
  · exact strong_exec h
  · exact strong_queueInLoop h

theorem book_loops (s : TcpServer υ) (a : Action υ) : (s.book a).loops = s.loops := by
  cases a with
  | newConncetion sockfd => exact accept_loops s sockfd
  | send t c data => rw [book]; split <;> rfl
  | shutdown t c => rw [book]; split <;> rfl
  | retrieve l len => rw [book]; split <;> rfl
  | stop =>
    rw [book, stopNext]
    cases s.phase with
    | stopping i => simp only; split <;> rfl
    | _ => rfl
  | _ => rfl

/-- An entry that is there now was there before. -/
theorem inMap_of_book (hc : c < s.made) (hmap : (s.book a).InMap c) : s.InMap c := by
  have hname : ((s.book a).conn c).name = (s.conn c).name := by
    obtain ⟨tcp, revt, heq, -⟩ := s.book_conn a hc
    rw [heq]
  rw [InMap, hname] at hmap
  have hstep := s.book_server a
  generalize s.book a = s' at hstep hmap
  cases hstep with
  | accept sockfd =>
    by_cases hk : (s.conn c).name = s.nextConnId_
    · simp only [accept, hk, Function.update_self, Option.some.injEq] at hmap
      exact absurd hmap (Nat.ne_of_gt hc)
    · exact (Function.update_of_ne hk ..).symm.trans hmap
  | destroyNext c' =>
    by_cases hk : (s.conn c).name = (s.conn c').name
    · simp [hk] at hmap
    · exact (Function.update_of_ne hk ..).symm.trans hmap
  | stop _ _ hsame => rwa [hsame] at hmap
  | other _ _ _ hsame => rwa [hsame] at hmap
  | _ => exact hmap

/-- A functor a loop has was there before. -/
theorem functors_of_book (ha : s.Ready a) (hf : f ∈ ((s.book a).loop l).functors) :
    f ∈ (s.loop l).functors := by
  have hstep := book_loop ha l
  generalize (s.book a).loop l = L at hstep hf
  cases hstep with
  | test hat =>
    obtain ⟨stage, heq, -⟩ := (s.loop l).testQuit_eq l
    rw [heq] at hf
    exact hf
  | discard i hl hstage => exact List.mem_append_right _ hf
  | swap hat hactive =>
    simp only [ServerLoop.functors, List.nil_append, List.mem_append] at hf ⊢
    tauto
  | take k hat hrest =>
    simp only [ServerLoop.functors, List.mem_append] at hf ⊢
    rcases hf with hf | (hf | hf) | hf
    · exact .inl hf
    · exact .inr (.inl hf)
    · exact .inr (.inr (List.mem_of_mem_take hf))
    · exact .inr (.inr (List.mem_of_mem_tail hf))
  | done hat hrest =>
    simp only [ServerLoop.functors, List.nil_append, List.mem_append] at hf ⊢
    tauto
  | _ => exact hf

omit [DecidableEq υ] in
/-- An event is handled under a reference taken from what is there. -/
theorem strong_of_handleEvent {r : ℕ × Task} (hr : r ∈ s.handleEvent c) : s.Strong r.1 := by
  unfold handleEvent at hr
  split at hr
  case isTrue hstrong =>
    obtain ⟨task, -, rfl⟩ := List.mem_map.mp hr
    exact hstrong
  case isFalse => cases hr

/-- What a thread is at it was at before, or it takes up an event. -/
theorem strong_of_todo_book (ha : s.Ready a) (hl : l ∈ s.loops)
    (htodo : c ∈ ((s.book a).loop l).todo.map Prod.fst) : s.Strong c := by
  have hold : c ∈ (s.loop l).todo.map Prod.fst → s.Strong c := fun h =>
    strong_of_refers hl (.inr h)
  have hstep := book_loop ha l
  generalize (s.book a).loop l = L at hstep htodo
  cases hstep with
  | test hat =>
    obtain ⟨stage, heq, -⟩ := (s.loop l).testQuit_eq l
    rw [heq] at htodo
    exact hold htodo
  | dispatch hat =>
    obtain ⟨r, hr, rfl⟩ := List.mem_map.mp htodo
    obtain ⟨c', -, hr⟩ := List.mem_flatMap.mp hr
    exact strong_of_handleEvent hr
  | tail _ hfree =>
    rw [List.map_tail] at htodo
    exact hold (List.mem_of_mem_tail htodo)
  | _ => exact hold htodo

/-- A pointer of a thread was one before, or is a copy of one. -/
theorem Sound.strong_of_held_book (h : s.Sound) (ha : s.Ready a) {r : Thread υ × ℕ}
    (hr : r ∈ (s.book a).held) : s.Strong r.2 := by
  have hold : ∀ r ∈ s.held, s.Strong r.2 := fun r hr => .inr (.inr (List.mem_map_of_mem hr))
  have hstep := s.book_server a
  generalize s.book a = s' at hstep hr
  cases hstep with
  | share t t' c =>
    obtain rfl | hr := List.mem_cons.mp hr
    · exact h.strong_of_has ha.2
    · exact hold r hr
  | release t c => exact hold r (List.mem_of_mem_erase hr)
  | stop _ _ _ hsame => exact hold r (hsame ▸ hr)
  | other _ _ _ _ hsame => exact hold r (hsame ▸ hr)
  | _ => exact hold r hr

/-- **What an action does by itself holds no one anew**, but the connection it accepts. -/
theorem Sound.strong_book (h : s.Sound) (ha : s.Ready a) (hc : c < s.made)
    (hs : (s.book a).Strong c) : s.Strong c := by
  rcases hs with hmap | ⟨l, hl, ⟨f, hf, hraw, htarget⟩ | htodo⟩ | hheld
  · exact .inl (inMap_of_book hc hmap)
  · rw [book_loops] at hl
    exact strong_of_refers hl (.inl ⟨f, functors_of_book ha hf, hraw, htarget⟩)
  · rw [book_loops] at hl
    exact strong_of_todo_book ha hl htodo
  · obtain ⟨r, hr, rfl⟩ := List.mem_map.mp hheld
    exact h.strong_of_held_book ha hr

omit [DecidableEq υ] in
/-- What is run or pushed under a reference finds one. -/
theorem Sound.strong_of_request (h : s.Sound) (ha : s.Ready a) (hr : s.request a = some (t, l, f))
    (hraw : f.isRaw = false) (hc : f.target < s.made) : s.Strong f.target := by
  cases asks_of_request ha hr with
  | functor _ k _ rest hrest =>
    have hmem : f ∈ (s.loop l).functors :=
      ServerLoop.mem_functors_of_waiting (by simp [ServerLoop.waiting, hrest])
    have hl : l ∈ s.loops := by
      have howner := (h.placed l).owner f hmem
      rcases f with c | c | ⟨c, g⟩
      · exact howner ▸ h.home c
      · exact howner ▸ List.mem_cons_self
      · exact howner ▸ h.home c
    exact strong_of_refers hl (.inl ⟨f, hmem, hraw, rfl⟩)
  | removal l' k c hhead =>
    have hmem := List.mem_of_mem_head? hhead
    obtain ⟨rfl, -⟩ := (h.placed l').todo _ hmem
    exact strong_of_refers (h.home c) (.inr (List.mem_map_of_mem hmem))
  | accept sockfd => exact absurd hc (Nat.lt_irrefl _)
  | send _ k data hcall => cases hraw
  | shutdown _ hcall => cases hraw
  | destroy c hc => exact .inl ha.2.2

/-- **A connection that nothing holds is held by nothing again.** -/
theorem Sound.strong_before (h : s.Sound) (ha : s.Ready a) (hc : c < s.made)
    (hs : (s.after a).Strong c) : s.Strong c := by
  rcases s.after_cases a with ⟨l, c', m, hb, hafter⟩ | ⟨t, l, f, hr, hafter⟩ | ⟨-, -, hafter⟩ <;>
    rw [hafter] at hs
  · obtain hs | rfl := strong_perform hs
    · exact h.strong_book ha hc hs
    · cases a with
      | task l' k =>
        obtain ⟨r, hhead, hm⟩ := Option.bind_eq_some_iff.mp hb
        obtain ⟨m', -, heq⟩ := Option.map_eq_some_iff.mp hm
        obtain ⟨-, rfl, -⟩ : l' = l ∧ r.1 = c ∧ m' = m := by simpa using heq
        have hmem := List.mem_of_mem_head? hhead
        obtain ⟨hhome, -⟩ := (h.placed l').todo r hmem
        exact strong_of_refers (hhome ▸ h.home r.1) (.inr (List.mem_map_of_mem hmem))
      | _ => cases hb
  · obtain hs | ⟨hraw, rfl⟩ := strong_runInLoop hs
    · exact h.strong_book ha hc hs
    · exact h.strong_of_request ha hr hraw hc
  · exact h.strong_book ha hc hs

omit [DecidableEq υ] in
/-- What is held has been made. -/
theorem Sound.made_of_strong (h : s.Sound) (hs : s.Strong c) : c < s.made := by
  rcases hs with hmap | ⟨l, -, ⟨f, hf, -, rfl⟩ | htodo⟩ | hheld
  · exact (h.map _ _ hmap).1
  · exact (h.placed l).target f hf
  · obtain ⟨r, hr, rfl⟩ := List.mem_map.mp htodo
    exact h.made _ ((h.placed l).todo r hr).2
  · obtain ⟨r, hr, rfl⟩ := List.mem_map.mp hheld
    exact h.made _ (h.held r hr)

/-! ## What stays -/

/-- A connection keeps its descriptor. -/
theorem fd_after (s : TcpServer υ) (a : Action υ) (hc : c < s.made) :
    ((s.after a).conn c).tcp.channel_.fd_ = (s.conn c).tcp.channel_.fd_ := by
  have hbook : ((s.book a).conn c).tcp.channel_.fd_ = (s.conn c).tcp.channel_.fd_ := by
    obtain ⟨tcp, revt, heq, hchannel⟩ := s.book_conn a hc
    rw [heq, hchannel]
    rfl
  rcases s.after_conn a with ⟨l, c', m, -, hconn⟩ | ⟨hconn, -⟩ <;> rw [hconn]
  · by_cases hself : c = c'
    · subst hself
      rw [perform_tcp, (m.run_does _).fd]
      exact hbook
    · rw [perform_conn_ne hself]
      exact hbook
  · exact hbook

/-- A poll reports each channel once. -/
def Action.distinct : Action υ → Prop
  | .poll _ reports => (reports.map Prod.fst).Nodup
  | _ => True

instance : ∀ a : Action υ, Decidable a.distinct
  | .poll _ reports => inferInstanceAs (Decidable (reports.map Prod.fst).Nodup)
  | .enter _ | .test _ | .dispatch _ | .task _ _ | .ret _ | .doPendingFunctors _ | .functor _ _
  | .donePendingFunctors _ | .endLoop _ | .quit _ _ | .newConncetion _ | .send _ _ _ | .sendRun _ _
  | .shutdown _ _ | .shutdownStore _ | .shutdownRun _ | .setHighWaterMarkCallback _ _ _
  | .retrieve _ _ | .share _ _ _ | .release _ _ | .destroy | .destroyNext _ | .stop => isTrue trivial

/-- **What the connections that are alive do not share**: a descriptor, a thread's attention, a turn
in the loop.  And `~TcpServer` is called from code of the user. -/
structure Living (s : TcpServer υ) : Prop where
  sound : s.Sound
  descriptors : ∀ c c', s.Strong c → s.Strong c' →
    (s.conn c).tcp.channel_.fd_ = (s.conn c').tcp.channel_.fd_ → c = c'
  single : ∀ l, ∀ r ∈ (s.loop l).todo, ∀ r' ∈ (s.loop l).todo, r.1 = r'.1
  once : ∀ l, (s.loop l).activeChannels_.Nodup
  ending : s.phase.inDestructor = true → ∀ r ∈ (s.loop .base).todo.head?, r.2 = .user

omit [DecidableEq υ] in
theorem start_living (n : ℕ) (b : Bool) : (start n b : TcpServer υ).Living where
  sound := start_sound n b
  descriptors c c' hc := absurd ((start_sound n b).made_of_strong hc) (Nat.not_lt_zero c)
  single l := by cases l <;> nofun
  once l := by cases l <;> exact List.nodup_nil
  ending := nofun

omit [DecidableEq υ] in
/-- A functor whose method calls back calls back. -/
theorem callsBack_of_method (hm : f.method k = some m) (hcb : m.callbacks ≠ []) :
    f.callsBack = true := by
  rcases f with c | c | ⟨c, g⟩
  · rfl
  · cases hm
  · cases g <;> cases hm <;> exact absurd rfl hcb

/-- The thread that runs a functor which calls back has nothing else begun. -/
theorem at_of_callsBack (ha : s.Ready a) (hr : s.request a = some (t, l, f)) (ht : t = .loop l)
    (hf : f.callsBack = true) :
    ((s.book a).loop l).todo = [] ∧ (l = .base → s.phase.inDestructor = false) := by
  cases asks_of_request ha hr with
  | functor _ k _ rest hrest =>
    refine ⟨?_, ha.1.2.2.2⟩
    rw [book, onLoop_self]
    exact ha.1.2.1
  | removal l' k c hhead => cases hf
  | accept sockfd =>
    obtain hbase : .base = s.threadPool_.getNextLoop.1 := by simpa using ht
    rw [← hbase]
    exact ⟨ha.1.2.1, ha.1.2.2.2⟩
  | send _ k data hcall => cases hf
  | shutdown _ hcall => cases hf
  | destroy c hc => cases hf

/-- **What an action leaves a thread to do**: what it had, behind the callbacks of a connection that
it was at, or of one it takes up with nothing else begun. -/
theorem todo_after (ha : s.Ready a) (l : LoopId) : ∃ c, ∃ tasks : List Task,
    ((s.after a).loop l).todo = tasks.map (c, ·) ++ ((s.book a).loop l).todo ∧
      (tasks ≠ [] → (l = .base → s.phase.inDestructor = false) ∧
        ∀ r ∈ ((s.book a).loop l).todo, ∃ r' ∈ (s.loop l).todo, r'.1 = c ∧ r ∈ (s.loop l).todo) := by
  have hsame : ((s.after a).loop l).todo = ((s.book a).loop l).todo → ∃ c, ∃ tasks : List Task,
      ((s.after a).loop l).todo = tasks.map (c, ·) ++ ((s.book a).loop l).todo ∧
        (tasks ≠ [] → (l = .base → s.phase.inDestructor = false) ∧ ∀ r ∈ ((s.book a).loop l).todo,
          ∃ r' ∈ (s.loop l).todo, r'.1 = c ∧ r ∈ (s.loop l).todo) :=
    fun heq => ⟨0, [], heq, absurd rfl⟩
  rcases s.after_cases a with ⟨l', c, m, hb, hafter⟩ | ⟨t, l', f, hr, hafter⟩ | ⟨-, -, hafter⟩
  · by_cases hl : l = l'
    · subst hl
      refine ⟨c, m.callbacks, by rw [hafter, perform_loop, if_pos rfl], fun _ => ?_⟩
      cases a with
      | task l' k =>
        obtain ⟨r, hhead, hm⟩ := Option.bind_eq_some_iff.mp hb
        obtain ⟨m', -, heq⟩ := Option.map_eq_some_iff.mp hm
        obtain ⟨rfl, rfl, -⟩ : l' = l ∧ r.1 = c ∧ m' = m := by simpa using heq
        refine ⟨ha.1.2, fun r' hr' => ⟨r, List.mem_of_mem_head? hhead, rfl, ?_⟩⟩
        rw [book, onLoop_self] at hr'
        exact List.mem_of_mem_tail hr'
      | _ => cases hb
    · exact hsame (by rw [hafter, perform_loop, if_neg hl, List.nil_append])
  · by_cases ht : t = .loop l'
    case neg =>
      refine hsame ?_
      rw [hafter, runInLoop, if_neg ht, queueInLoop_loop]
    rw [runInLoop, if_pos ht] at hafter
    rcases (s.book a).exec_cases l' a.answer f with ⟨c, rfl, hexec⟩ | ⟨m, hm, -, hexec⟩ |
      ⟨-, -, hexec⟩ | ⟨c, cb, rfl, hcb, hexec⟩
    · refine hsame ?_
      rw [hafter, hexec, removeConnectionInLoop, queueInLoop_loop]
    · by_cases hl : l = l'
      · subst hl
        refine ⟨f.target, m.callbacks, by rw [hafter, hexec, perform_loop, if_pos rfl],
          fun hcb => ?_⟩
        obtain ⟨htodo, hbase⟩ := at_of_callsBack ha hr ht (callsBack_of_method hm hcb)
        exact ⟨hbase, by simp [htodo]⟩
      · refine hsame ?_
        rw [hafter, hexec, perform_loop, if_neg hl, List.nil_append]
    · exact hsame (by rw [hafter, hexec])
    · by_cases hl : l = l'
      · subst hl
        refine ⟨c, [.user], by rw [hafter, hexec, enterCallback, onLoop_self]; rfl, fun _ => ?_⟩
        obtain ⟨htodo, hbase⟩ := at_of_callsBack ha hr ht hcb
        exact ⟨hbase, by simp [htodo]⟩
      · refine hsame ?_
        rw [hafter, hexec, enterCallback, onLoop_ne hl]
  · exact hsame (by rw [hafter])

/-- What a thread is at after an action's own change: some of what it was at, or one event. -/
theorem todo_book (ha : s.Ready a) (l : LoopId) :
    ((s.book a).loop l).todo = (s.loop l).todo ∨
    (l = .base → s.phase.inDestructor = false) ∧
      (((s.book a).loop l).todo = (s.loop l).todo.tail ∨
        ∃ c, ∀ r ∈ ((s.book a).loop l).todo, r ∈ s.handleEvent c) := by
  have hstep := book_loop ha l
  generalize (s.book a).loop l = L at hstep ⊢
  cases hstep with
  | test hat =>
    obtain ⟨stage, heq, -⟩ := (s.loop l).testQuit_eq l
    exact .inl (by rw [heq])
  | dispatch hat =>
    refine .inr ⟨hat.2.2.2, .inr ?_⟩
    rcases (s.loop l).activeChannels_ with _ | ⟨c, cs⟩
    · exact ⟨0, by simp⟩
    · exact ⟨c, by simp⟩
  | tail _ hfree => exact .inr ⟨hfree.2, .inl rfl⟩
  | _ => exact .inl rfl

omit [DecidableEq υ] in
theorem fst_of_handleEvent {r : ℕ × Task} (hr : r ∈ s.handleEvent c) : r.1 = c := by
  unfold handleEvent at hr
  split at hr
  · obtain ⟨task, -, rfl⟩ := List.mem_map.mp hr
    rfl
  · cases hr

/-! ## Every run -/

theorem Living.single_book (h : s.Living) (ha : s.Ready a) (l : LoopId) :
    ∀ r ∈ ((s.book a).loop l).todo, ∀ r' ∈ ((s.book a).loop l).todo, r.1 = r'.1 := by
  intro r hr r' hr'
  obtain heq | ⟨-, heq | ⟨c, hc⟩⟩ := todo_book ha l
  · rw [heq] at hr hr'
    exact h.single l r hr r' hr'
  · rw [heq] at hr hr'
    exact h.single l r (List.mem_of_mem_tail hr) r' (List.mem_of_mem_tail hr')
  · rw [fst_of_handleEvent (hc r hr), fst_of_handleEvent (hc r' hr')]

/-- A thread stays at one connection. -/
theorem Living.single_after (h : s.Living) (ha : s.Ready a) (l : LoopId) :
    ∀ r ∈ ((s.after a).loop l).todo, ∀ r' ∈ ((s.after a).loop l).todo, r.1 = r'.1 := by
  obtain ⟨c, tasks, htodo, hnew⟩ := todo_after ha l
  have hbook := h.single_book ha l
  have hall : tasks ≠ [] → ∀ r ∈ ((s.book a).loop l).todo, r.1 = c := by
    intro htasks r hr
    obtain ⟨r', hr', rfl, hold⟩ := (hnew htasks).2 r hr
    exact h.single l r hold r' hr'
  have hmem : ∀ r ∈ tasks.map (c, ·), r.1 = c := by
    intro r hr
    obtain ⟨task, -, rfl⟩ := List.mem_map.mp hr
    rfl
  intro r hr r' hr'
  rw [htodo] at hr hr'
  obtain hr | hr := List.mem_append.mp hr
  · have htasks : tasks ≠ [] := by
      rintro rfl
      cases hr
    rw [hmem r hr]
    obtain hr' | hr' := List.mem_append.mp hr'
    · exact (hmem r' hr').symm
    · exact (hall htasks r' hr').symm
  · obtain hr' | hr' := List.mem_append.mp hr'
    · have htasks : tasks ≠ [] := by
        rintro rfl
        cases hr'
      rw [hmem r' hr']
      exact hall htasks r hr
    · exact hbook r hr r' hr'

/-- No one but the loop's own thread, outside the destructor, touches what a loop is at. -/
theorem Living.ending_after (h : s.Living) (ha : s.Ready a)
    (hend : (s.after a).phase.inDestructor = true) :
    ∀ r ∈ ((s.after a).loop .base).todo.head?, r.2 = .user := by
  rw [(s.after_frame a).phase] at hend
  obtain ⟨c, tasks, htodo, hnew⟩ := todo_after ha .base
  by_cases hold : s.phase.inDestructor = true
  · have htasks : tasks = [] := by
      by_contra hne
      rw [(hnew hne).1 rfl] at hold
      cases hold
    rw [htodo, htasks, List.map_nil, List.nil_append]
    obtain heq | ⟨hno, -⟩ := todo_book ha .base
    · rw [heq]
      exact h.ending hold
    · rw [hno rfl] at hold
      cases hold
  · -- the destructor is called here
    have hdestroy : a = .destroy := by
      have hstep := s.book_server a
      generalize s.book a = s' at hstep hend
      cases hstep with
      | destroy => rfl
      | stop =>
        have hstop : s.MayStop := ha
        unfold MayStop at hstop
        cases hphase : s.phase <;> simp_all [Phase.inDestructor]
      | other _ _ _ _ _ hphase => exact absurd (hphase ▸ hend) hold
      | _ => exact absurd hend hold
    subst hdestroy
    exact ha.1.2.2.2

theorem Living.once_after (h : s.Living) (ha : s.Ready a) (hdistinct : a.distinct) (l : LoopId) :
    ((s.after a).loop l).activeChannels_.Nodup := by
  rw [(s.after_frame a).activeChannels_]
  have hstep := book_loop ha l
  generalize (s.book a).loop l = L at hstep ⊢
  cases hstep with
  | test hat =>
    obtain ⟨stage, heq, -⟩ := (s.loop l).testQuit_eq l
    rw [heq]
    exact h.once l
  | poll reports hat hr => exact hdistinct
  | dispatch hat => exact (h.once l).tail
  | _ => exact h.once l

/-- The connection just accepted has the descriptor of `accept`. -/
theorem fd_accept (s : TcpServer υ) (sockfd : ℤ) :
    ((s.after (.newConncetion sockfd)).conn s.made).tcp.channel_.fd_ = sockfd := by
  have hbook : ((s.book (.newConncetion sockfd)).conn s.made).tcp.channel_.fd_ = sockfd := by
    simp [book, accept, TcpConnection.new, Channel.new]
  rcases s.after_conn (.newConncetion sockfd) with ⟨l, c, m, hj, hconn⟩ | ⟨hconn, -⟩ <;> rw [hconn]
  · by_cases hself : s.made = c
    · subst hself
      rw [perform_tcp, (m.run_does _).fd]
      exact hbook
    · rw [perform_conn_ne hself]
      exact hbook
  · exact hbook

/-- **Those alive keep descriptors of their own.** -/
theorem Living.descriptors_after (h : s.Living) (ha : s.Ready a) (hc : (s.after a).Strong c)
    (hc' : (s.after a).Strong c')
    (hfd : ((s.after a).conn c).tcp.channel_.fd_ = ((s.after a).conn c').tcp.channel_.fd_) :
    c = c' := by
  have hsound : (s.after a).Sound := h.sound.next ha
  have hmade : ∀ c, (s.after a).Strong c →
      (s.Strong c ∧ c < s.made) ∨ ∃ sockfd, a = .newConncetion sockfd ∧ c = s.made := by
    intro c hc
    have hlt := hsound.made_of_strong hc
    rw [(s.after_frame a).made] at hlt
    obtain hlt | hnew := lt_book_made hlt
    · exact .inl ⟨h.sound.strong_before ha hlt hc, hlt⟩
    · exact .inr hnew
  obtain ⟨hs, hlt⟩ | ⟨sockfd, rfl, rfl⟩ := hmade c hc
  · rw [fd_after s a hlt] at hfd
    obtain ⟨hs', hlt'⟩ | ⟨sockfd, rfl, rfl⟩ := hmade c' hc'
    · rw [fd_after s a hlt'] at hfd
      exact h.descriptors c c' hs hs' hfd
    · rw [fd_accept] at hfd
      exact absurd hfd (ha.2.2.2 c hlt hs)
  · rw [fd_accept] at hfd
    obtain ⟨hs', hlt'⟩ | ⟨-, -, rfl⟩ := hmade c' hc'
    · rw [fd_after s _ hlt'] at hfd
      exact absurd hfd.symm (ha.2.2.2 c' hlt' hs')
    · rfl

theorem Living.next (h : s.Living) (ha : s.Ready a) (hdistinct : a.distinct) :
    (steps.next s a).Living where
  sound := h.sound.next ha
  descriptors _ _ hc hc' hfd := h.descriptors_after ha hc hc' hfd
  single := h.single_after ha
  once := h.once_after ha hdistinct
  ending := h.ending_after ha

end

end TcpServer

end Mymuduo
