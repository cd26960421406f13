import Mymuduo.Machinery.Simulation
import Mymuduo.TcpServer.ConnectionMap
import Mymuduo.TcpServer.Lifetime

/-!
# TcpServer/Table — the server's map is such a table

A server keeps its entries under the number a name ends in, which tells names apart
(`connName_injective`).  Seen as a table it accepts when it accepts, and removes when it runs
`removeConnectionInLoop` or its destructor takes an entry out; nothing else it does, in any of its
threads, is seen (`tableSimulation`).  So its map is exact as long as no number comes round.
-/

namespace Mymuduo

open Machinery

namespace TcpServer

variable {υ : Type*} [DecidableEq υ] {s : TcpServer υ} {a : Action υ} {as : List (Action υ)}
  {c : ℕ}

/-! ## What an action does to the map -/

/-- A removal takes an entry out, and nothing else an action runs or queues does. -/
theorem after_map (s : TcpServer υ) (a : Action υ) :
    (s.after a).conncetions_ = (s.removes a).elim (s.book a).conncetions_ fun c =>
      Function.update (s.book a).conncetions_ ((s.book a).conn c).name none := by
  have hnone : (∀ l c, s.request a ≠ some (.loop l, l, .removeConnectionInLoop c)) →
      s.removes a = none := by
    intro hnot
    rw [Option.eq_none_iff_forall_ne_some]
    intro c hc
    obtain ⟨l, hr⟩ := removes_iff.mp hc
    exact hnot l c hr
  rcases s.after_cases a with ⟨l, c, m, hb, hafter⟩ | ⟨t, l, f, hr, hafter⟩ | ⟨-, hr, hafter⟩
  · rw [hafter, hnone (by simp [request_of_branch hb])]
    rfl
  · have hother : (t = .loop l → ∀ c, f ≠ .removeConnectionInLoop c) → s.removes a = none := by
      refine fun hnot => hnone fun l' c hreq => ?_
      obtain ⟨rfl, rfl, rfl⟩ : t = .loop l' ∧ l = l' ∧ f = .removeConnectionInLoop c := by
        simpa using hr.symm.trans hreq
      exact hnot rfl c rfl
    rw [hafter, runInLoop]
    split
    case isFalse ht =>
      rw [hother fun hl => absurd hl ht]
      rfl
    case isTrue ht =>
      rcases (s.book a).exec_cases l a.answer f with ⟨c, rfl, hexec⟩ | ⟨m, hm, -, hexec⟩ |
        ⟨hraw, -, hexec⟩ | ⟨c, cb, rfl, -, hexec⟩ <;> rw [hexec]
      · subst ht
        rw [removes_iff.mpr ⟨l, hr⟩]
        rfl
      · rw [hother (by rintro - c rfl; cases hm)]
        rfl
      · rw [hother (by rintro - c rfl; cases hraw)]
        rfl
      · rw [hother (by rintro - c ⟨⟩)]
        rfl
  · rw [hafter, hnone (by simp [hr])]
    rfl

theorem after_nextConnId (s : TcpServer υ) (a : Action υ) :
    (s.after a).nextConnId_ = (s.book a).nextConnId_ := by
  rcases s.after_cases a with ⟨l, c, m, -, hafter⟩ | ⟨t, l, f, -, hafter⟩ | ⟨-, -, hafter⟩ <;>
    rw [hafter]
  · rfl
  · rw [runInLoop]
    split
    case isFalse => rfl
    case isTrue =>
      rcases (s.book a).exec_cases l a.answer f with ⟨c, -, hexec⟩ | ⟨m, -, -, hexec⟩ |
        ⟨-, -, hexec⟩ | ⟨c, cb, -, -, hexec⟩ <;> rw [hexec] <;> rfl

/-- Only `newConncetion` counts. -/
theorem book_counters (s : TcpServer υ) (hne : ∀ sockfd, a ≠ .newConncetion sockfd) :
    (s.book a).nextConnId_ = s.nextConnId_ ∧ (s.book a).threadPool_ = s.threadPool_ := by
  cases a with
  | newConncetion sockfd => exact absurd rfl (hne sockfd)
  | send t c data => rw [book]; split <;> exact ⟨rfl, rfl⟩
  | shutdown t c => rw [book]; split <;> exact ⟨rfl, rfl⟩
  | retrieve l len => rw [book]; split <;> exact ⟨rfl, rfl⟩
  | stop =>
    rw [book, stopNext]
    cases s.phase with
    | stopping i => simp only; split <;> exact ⟨rfl, rfl⟩
    | _ => exact ⟨rfl, rfl⟩
  | _ => exact ⟨rfl, rfl⟩

theorem after_made (s : TcpServer υ) (hne : ∀ sockfd, a ≠ .newConncetion sockfd) :
    (s.after a).made = s.made := by
  rw [(s.after_frame a).made]
  have hstep := s.book_server a
  generalize s.book a = s' at hstep
  cases hstep with
  | accept sockfd => exact absurd rfl (hne sockfd)
  | stop _ hmade => exact hmade
  | other _ _ hmade => exact hmade
  | _ => rfl

theorem lt_made_after (hc : c < s.made) : c < (s.after a).made := by
  by_cases hne : ∀ sockfd, a ≠ .newConncetion sockfd
  · rwa [after_made s hne]
  · obtain ⟨sockfd, rfl⟩ : ∃ sockfd, a = .newConncetion sockfd := by
      simpa using hne
    rw [(s.after_frame _).made]
    exact Nat.lt_succ_of_lt hc

/-! ## The table -/

/-- The table a server keeps, with the removals so far. -/
def table (s : TcpServer υ) (removed : List ℕ) : ConnectionTable (BitVec 32) where
  nextConnId_ := s.nextConnId_
  conncetions_ := s.conncetions_
  names := (List.range s.made).map fun c => (s.conn c).name
  removed := removed.reverse

/-- The removal an action is. -/
def removal (s : TcpServer υ) (a : Action υ) : List ℕ := (s.passesOn a).toList

/-- What an action is to the table. -/
def tableActions (s : TcpServer υ) : Action υ → List ConnectionTable.Action
  | .newConncetion _ => [.newConncetion]
  | a => (s.removal a).map .removeConnectionInLoop

omit [DecidableEq υ] in
theorem length_names_table (s : TcpServer υ) (removed : List ℕ) :
    (s.table removed).names.length = s.made := by
  rw [table, List.length_map, List.length_range]

omit [DecidableEq υ] in
theorem names_table (hc : c < s.made) (removed : List ℕ) :
    (s.table removed).names[c]? = some (s.conn c).name := by
  rw [table, List.getElem?_map, List.getElem?_range hc]
  rfl

theorem removes_newConncetion (s : TcpServer υ) (sockfd : ℤ) :
    s.removes (.newConncetion sockfd) = none := by
  rw [Option.eq_none_iff_forall_ne_some]
  intro c hc
  obtain ⟨l, hr⟩ := removes_iff.mp hc
  simp [request] at hr

/-- **Acceptance is acceptance.** -/
theorem table_accept (s : TcpServer υ) (sockfd : ℤ) (removed : List ℕ) :
    (s.after (.newConncetion sockfd)).table removed = (s.table removed).newConncetion id := by
  have hmade : (s.after (.newConncetion sockfd)).made = s.made + 1 :=
    (s.after_frame (.newConncetion sockfd)).made
  have hname : ((s.after (.newConncetion sockfd)).conn s.made).name = s.nextConnId_ := by
    rw [after_name_book]
    change ((s.accept sockfd).conn s.made).name = s.nextConnId_
    simp [accept]
  rw [table, ConnectionTable.newConncetion, after_nextConnId, after_map, removes_newConncetion,
    length_names_table, hmade, List.range_succ, List.map_append, List.map_singleton, hname,
    List.map_congr_left fun c hc => after_name s _ (List.mem_range.mp hc)]
  rfl

/-- What is not acceptance leaves names and numbers. -/
theorem table_eq (s : TcpServer υ) (hne : ∀ sockfd, a ≠ .newConncetion sockfd)
    (removed : List ℕ) : (s.after a).table removed =
      { s.table removed with conncetions_ := (s.after a).conncetions_ } := by
  have hnext := (after_nextConnId s a).trans (book_counters s hne).1
  have hnames : (List.range (s.after a).made).map (fun c => ((s.after a).conn c).name) =
      (List.range s.made).map fun c => (s.conn c).name := by
    rw [after_made s hne]
    exact List.map_congr_left fun c hc => after_name s a (List.mem_range.mp hc)
  rw [table, hnext, hnames]
  rfl

omit [DecidableEq υ] in
theorem Sound.lt_made_of_passesOn [DecidableEq υ] (h : s.Sound) (ha : s.Ready a)
    (hc : s.passesOn a = some c) : c < s.made ∧ ∀ sockfd, a ≠ .newConncetion sockfd := by
  have hne : ∀ sockfd, a ≠ .newConncetion sockfd := by
    rintro sockfd rfl
    cases (removes_newConncetion s sockfd).symm.trans hc
  refine ⟨?_, hne⟩
  have hremoves : s.removes a = some c → c < s.made := by
    intro hr
    obtain ⟨l, hr⟩ := removes_iff.mp hr
    have hlt : c < (s.book a).made := (h.executes_of_request ha hr rfl).target
    obtain hlt | ⟨sockfd, rfl, -⟩ := lt_book_made hlt
    · exact hlt
    · exact absurd rfl (hne sockfd)
  cases a with
  | destroyNext c' =>
    cases hc
    exact ha.2.1
  | _ => exact hremoves hc

/-- What is not acceptance takes out the entry it passes on. -/
theorem after_map_eq (s : TcpServer υ) (ha : s.Ready a)
    (hne : ∀ sockfd, a ≠ .newConncetion sockfd) : (s.after a).conncetions_ =
    (s.passesOn a).elim s.conncetions_ fun c =>
      Function.update s.conncetions_ (s.conn c).name none := by
  rw [after_map]
  by_cases hdestroy : ∃ c, a = .destroyNext c
  · obtain ⟨c, rfl⟩ := hdestroy
    have hnone : s.removes (.destroyNext c) = none := by
      rw [Option.eq_none_iff_forall_ne_some]
      intro c' hc
      obtain ⟨l, hr⟩ := removes_iff.mp hc
      simp [request] at hr
    rw [hnone]
    rfl
  · have hpasses : s.passesOn a = s.removes a := by
      cases a with
      | destroyNext c => exact absurd ⟨c, rfl⟩ hdestroy
      | _ => rfl
    have hbook : (s.book a).conncetions_ = s.conncetions_ := by
      have hstep := s.book_server a
      generalize s.book a = s' at hstep
      cases hstep with
      | accept sockfd => exact absurd rfl (hne sockfd)
      | destroyNext c => exact absurd ⟨c, rfl⟩ hdestroy
      | stop _ _ hmap => exact hmap
      | other _ _ _ hmap => exact hmap
      | _ => rfl
    rw [hpasses, hbook]
    cases hr : s.removes a with
    | none => rfl
    | some c => rw [(book_of_removes ha hr).1]

/-- **Removal is removal**, by `removeConnectionInLoop` and by the destructor. -/
theorem Sound.table_remove (h : s.Sound) (ha : s.Ready a) (hc : s.passesOn a = some c)
    (removed : List ℕ) : (s.after a).table (removed ++ [c]) =
      (s.table removed).removeConnectionInLoop c := by
  obtain ⟨hlt, hne⟩ := h.lt_made_of_passesOn ha hc
  have hmap : (s.after a).conncetions_ = fun name =>
      if (s.table removed).names[c]? = some name then none else s.conncetions_ name := by
    funext name
    rw [after_map_eq s ha hne, hc, names_table hlt, Option.elim_some, Function.update_apply]
    exact if_congr (by rw [Option.some_inj, eq_comm]) rfl rfl
  rw [table_eq s hne, hmap, table, ConnectionTable.removeConnectionInLoop, List.reverse_append]
  rfl

/-- Nothing else is seen. -/
theorem table_other (s : TcpServer υ) (ha : s.Ready a) (hne : ∀ sockfd, a ≠ .newConncetion sockfd)
    (hnone : s.passesOn a = none) (removed : List ℕ) :
    (s.after a).table removed = s.table removed := by
  rw [table_eq s hne, after_map_eq s ha hne, hnone]
  rfl

/-- An action accepts, passes an entry on, or is not seen. -/
theorem tableActions_cases (s : TcpServer υ) (a : Action υ) :
    (∃ sockfd, a = .newConncetion sockfd) ∨
    (∀ sockfd, a ≠ .newConncetion sockfd) ∧
      s.tableActions a = (s.removal a).map .removeConnectionInLoop := by
  cases a with
  | newConncetion sockfd => exact .inl ⟨sockfd, rfl⟩
  | _ => exact .inr ⟨fun _ => by rintro ⟨⟩, rfl⟩

/-- **The simulation.** -/
def tableSimulation : Simulation ((steps : Machine (TcpServer υ) _).logged removal)
    (ConnectionTable.steps id) (fun p => p.1.Sound) where
  view p := p.1.table p.2
  label p := p.1.tableActions
  keeps _ _ hs ha := hs.next ha.1
  allowed p a hs ha := by
    obtain ⟨sockfd, rfl⟩ | ⟨hne, hlabel⟩ := p.1.tableActions_cases a
    · exact ⟨trivial, trivial⟩
    · rw [hlabel, removal]
      cases hp : p.1.passesOn a with
      | none => trivial
      | some c =>
        refine ⟨?_, trivial⟩
        change c < (p.1.table p.2).names.length
        rw [length_names_table]
        exact (hs.lt_made_of_passesOn ha.1 hp).1
  square p a hs ha := by
    change _ = (p.1.after a).table (p.2 ++ p.1.removal a)
    obtain ⟨sockfd, rfl⟩ | ⟨hne, hlabel⟩ := p.1.tableActions_cases a
    · have hnone : p.1.removal (.newConncetion sockfd) = [] :=
        congrArg Option.toList (removes_newConncetion p.1 sockfd)
      rw [hnone, List.append_nil, table_accept]
      rfl
    · rw [hlabel, removal]
      cases hp : p.1.passesOn a with
      | none =>
        rw [Option.toList_none, List.append_nil, table_other p.1 ha.1 hne hp]
        rfl
      | some c =>
        rw [Option.toList_some, hs.table_remove ha.1 hp]
        rfl

/-! ## Whole runs -/

/-- A run, seen in the table. -/
theorem Sound.run_table (h : s.Sound) (hvalid : steps.Valid s as) :
    (ConnectionTable.steps id).Valid (s.table []) (steps.collect tableActions s as) ∧
      (ConnectionTable.steps id).run (s.table []) (steps.collect tableActions s as) =
        (steps.run s as).table (steps.collect removal s as) := by
  have hrun := tableSimulation.run h ((steps.logged_valid removal s [] as).mpr hvalid)
  rw [Machine.logged_run, List.nil_append] at hrun
  rw [← steps.logged_collect removal tableActions s [] as]
  exact hrun

/-- **The map of a server is exact as long as no number comes round.**  In every run, whatever all
the threads do: if no more than `2 ^ 32` connections have been accepted, the connections in
`conncetions_` are those accepted and not taken out again. -/
theorem inMap_iff_of_few {numThreads : ℕ} {writeComplete : Bool}
    (hvalid : steps.Valid (start numThreads writeComplete : TcpServer υ) as)
    (hfew : (steps.run (start numThreads writeComplete) as).made ≤ 2 ^ 32)
    (hc : c < (steps.run (start numThreads writeComplete) as).made) :
    (steps.run (start numThreads writeComplete) as).InMap c ↔
      c ∉ steps.collect removal (start numThreads writeComplete) as := by
  obtain ⟨htable, hend⟩ := (start_sound numThreads writeComplete).run_table hvalid
  have hstart : (start numThreads writeComplete : TcpServer υ).table [] = .start := rfl
  rw [hstart] at htable hend
  have hfree := ConnectionTable.along_free_of_few htable (by
    rw [hend, length_names_table]
    exact hfew)
  have hlaws := ConnectionTable.laws_iff Function.injective_id
    ⟨ConnectionTable.exact_start, ConnectionTable.numbered_start⟩ htable
  have hexact := (hlaws.2.mpr hfree).last
  rw [hend] at hexact
  have hentry := hexact.conncetions_ ((steps.run (start numThreads writeComplete) as).conn c).name c
  rw [names_table hc, and_iff_left rfl, ConnectionTable.Live, length_names_table,
    and_iff_right hc] at hentry
  exact hentry.trans (not_congr List.mem_reverse)

end TcpServer

end Mymuduo
