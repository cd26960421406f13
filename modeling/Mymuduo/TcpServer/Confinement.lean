import Mymuduo.TcpServer.Table

/-!
# TcpServer/Confinement — one loop per thread

Nothing in `TcpConnection`, its channel or `TcpServer` is locked, so each of their parts has to stay
on one thread: a connection with its channel on the thread of its loop, the server's map, its
counter and the pool's on that of the base loop.  A close goes from the connection's loop to the
base loop and back; whether a hop is a call or a push, it ends on the right thread, because what is
run is where it belongs (`Sound`).  The accesses to the server's members are read off what an action
asks for and runs, and they are all there are: where there is none the members stay as they were.
-/

namespace Mymuduo

open Machinery TcpConnection

/-- What has to stay on one thread: the methods of a connection that act on it, `updateChannel` and
`removeChannel` of its channel, and the members of the server and its pool. -/
inductive Access (υ : Type*)
  | method (c : ℕ) (m : Method (Thread υ))
  | handleError (c : ℕ)
  | channel (c : ℕ) (op : ChannelOp)
  | conncetions_
  | nextConnId_
  | next_

namespace TcpServer

variable {υ : Type*}

/-- The loop on whose thread an access has to be. -/
def confines (s : TcpServer υ) : Access υ → LoopId
  | .method c _ | .handleError c | .channel c _ => (s.conn c).home
  | .conncetions_ | .nextConnId_ | .next_ => .base

variable [DecidableEq υ]

/-- The method an action runs, with the calls it makes on the channel. -/
def methodAccesses (s : TcpServer υ) (a : Action υ) : List (Thread υ × Access υ) :=
  match s.job a with
  | some (l, c, m) =>
      (.loop l, .method c m) ::
        (m.effect ((s.book a).view c)).ops.map fun op => (.loop l, .channel c op)
  | none => []

/-- The members of the server and its pool that an action's own code touches, besides what it
runs. -/
def Action.members : Action υ → List (Access υ)
  | .newConncetion _ => [.next_, .nextConnId_, .conncetions_]
  | .destroyNext _ => [.conncetions_]
  | _ => []

/-- The accesses to them: by the thread that calls `runInLoop`, and by the one that runs
`removeConnectionInLoop`. -/
def memberAccesses (s : TcpServer υ) (a : Action υ) : List (Thread υ × Access υ) :=
  ((s.request a).toList.flatMap fun r => a.members.map (r.1, ·)) ++
    match s.runs a with
    | some (l, .removeConnectionInLoop _) => [(.loop l, .conncetions_)]
    | _ => []

/-- `handleError`, and the test that ends the loop of `~TcpServer`, which is called on the base
loop's thread. -/
def otherAccesses (s : TcpServer υ) : Action υ → List (Thread υ × Access υ)
  | .task l _ =>
      match (s.loop l).todo.head? with
      | some (c, .errorCallback) => [(.loop l, .handleError c)]
      | _ => []
  | .stop => [(.loop .base, .conncetions_)]
  | _ => []

/-- Every access of an action, with the thread that makes it. -/
def accesses (s : TcpServer υ) (a : Action υ) : List (Thread υ × Access υ) :=
  s.methodAccesses a ++ (s.memberAccesses a ++ s.otherAccesses a)

/-- **Each access of an action is on the thread it is confined to.** -/
def Confined (s : TcpServer υ) (a : Action υ) : Prop :=
  ∀ x ∈ s.accesses a, x.1 = .loop ((s.after a).confines x.2)

variable {s : TcpServer υ} {a : Action υ} {as : List (Action υ)}

theorem Sound.confined_method (h : s.Sound) (ha : s.Ready a) {x : Thread υ × Access υ}
    (hx : x ∈ s.methodAccesses a) : x.1 = .loop ((s.after a).confines x.2) := by
  unfold methodAccesses at hx
  split at hx
  case h_1 l c m hjob =>
    have hhome : ((s.after a).conn c).home = l :=
      after_home.trans (h.performs_of_job ha hjob).home
    obtain rfl | hx := List.mem_cons.mp hx
    · exact congrArg Thread.loop hhome.symm
    · obtain ⟨op, -, rfl⟩ := List.mem_map.mp hx
      exact congrArg Thread.loop hhome.symm
  case h_2 => cases hx

omit [DecidableEq υ] in
/-- What is asked for with the server's members in hand is asked for on the base loop's thread. -/
theorem request_of_members (ha : s.Ready a) {t : Thread υ} {l : LoopId} {f : ServerFunctor υ}
    (hr : s.request a = some (t, l, f)) (hmem : a.members ≠ []) : t = .loop .base := by
  cases asks_of_request ha hr with
  | accept sockfd => rfl
  | destroy c hc => rfl
  | functor l k f rest hrest => exact absurd rfl hmem
  | removal l k c hhead => exact absurd rfl hmem
  | send t k data hcall => exact absurd rfl hmem
  | shutdown t hcall => exact absurd rfl hmem

omit [DecidableEq υ] in
theorem confines_members {x : Access υ} (hx : x ∈ a.members) (s : TcpServer υ) :
    s.confines x = .base := by
  cases a with
  | newConncetion sockfd =>
    simp only [Action.members, List.mem_cons, List.not_mem_nil, or_false] at hx
    rcases hx with rfl | rfl | rfl <;> rfl
  | destroyNext c =>
    obtain rfl := List.mem_singleton.mp hx
    rfl
  | _ => cases hx

/-- A removal runs in the base loop. -/
theorem Sound.base_of_removal (h : s.Sound) (ha : s.Ready a) {l : LoopId} {c : ℕ}
    (hruns : s.runs a = some (l, .removeConnectionInLoop c)) : l = .base := by
  have hr := runs_iff.mp hruns
  generalize ht : (.loop l : Thread υ) = t at hr
  cases asks_of_request ha hr with
  | functor _ k _ rest hrest =>
    have hmem := ServerLoop.mem_functors_of_waiting
      (List.mem_append_left _ (hrest ▸ List.mem_cons_self))
    exact ((h.placed l).owner _ hmem).symm
  | removal l' k c hhead => rfl

theorem Sound.confined_member (h : s.Sound) (ha : s.Ready a) {x : Thread υ × Access υ}
    (hx : x ∈ s.memberAccesses a) : x.1 = .loop ((s.after a).confines x.2) := by
  obtain hx | hx := List.mem_append.mp hx
  · obtain ⟨⟨t, l, f⟩, hr, hx⟩ := List.mem_flatMap.mp hx
    obtain ⟨y, hy, rfl⟩ := List.mem_map.mp hx
    rw [request_of_members ha (Option.mem_toList.mp hr) (List.ne_nil_of_mem hy),
      confines_members hy]
  · split at hx
    case h_1 l c hruns =>
      obtain rfl := List.mem_singleton.mp hx
      exact congrArg Thread.loop (h.base_of_removal ha hruns)
    case h_2 => cases hx

theorem Sound.confined_other (h : s.Sound) {x : Thread υ × Access υ}
    (hx : x ∈ s.otherAccesses a) : x.1 = .loop ((s.after a).confines x.2) := by
  cases a with
  | stop =>
    obtain rfl := List.mem_singleton.mp hx
    rfl
  | task l k =>
    simp only [otherAccesses] at hx
    split at hx
    case h_1 c hhead =>
      obtain rfl := List.mem_singleton.mp hx
      have hserves := (h.placed l).todo _ (List.mem_of_mem_head? hhead)
      have hhome : ((s.after (.task l k)).conn c).home = l := after_home.trans hserves.1
      exact congrArg Thread.loop hhome.symm
    case h_2 => cases hx
  | _ => cases hx

/-! ## The list is complete -/

theorem mem_accesses_of_member {t : Thread υ} {l : LoopId} {f : ServerFunctor υ} {x : Access υ}
    (hr : s.request a = some (t, l, f)) (hx : x ∈ a.members) : (t, x) ∈ s.accesses a :=
  List.mem_append_right _ (List.mem_append_left _ (List.mem_append_left _
    (List.mem_flatMap.mpr ⟨_, Option.mem_toList.mpr hr, List.mem_map_of_mem hx⟩)))

theorem mem_accesses_of_runs {l : LoopId} {c : ℕ}
    (hruns : s.runs a = some (l, .removeConnectionInLoop c)) :
    (.loop l, .conncetions_) ∈ s.accesses a := by
  refine List.mem_append_right _ (List.mem_append_left _ (List.mem_append_right _ ?_))
  rw [hruns]
  exact List.mem_singleton_self _

/-- **The map changes at such an access only.** -/
theorem after_conncetions_of_notMem (ha : s.Ready a) (h : ∀ t, (t, .conncetions_) ∉ s.accesses a) :
    (s.after a).conncetions_ = s.conncetions_ := by
  have hpasses : s.removes a = none := by
    rw [Option.eq_none_iff_forall_ne_some]
    intro c hc
    obtain ⟨l, hr⟩ := removes_iff.mp hc
    exact h (.loop l) (mem_accesses_of_runs (runs_iff.mpr hr))
  have hdrops : s.drops a = none := by
    cases a with
    | newConncetion sockfd =>
      exact absurd (mem_accesses_of_member rfl (by simp [Action.members])) (h (.loop .base))
    | destroyNext c =>
      exact absurd (mem_accesses_of_member rfl (List.mem_singleton_self _)) (h (.loop .base))
    | _ => exact congrArg (Option.map fun c => (s.conn c).name) hpasses
  funext k
  exact after_conncetions ha (by simp [hdrops])

/-- So does the counter. -/
theorem after_nextConnId_of_notMem (h : ∀ t, (t, .nextConnId_) ∉ s.accesses a) :
    (s.after a).nextConnId_ = s.nextConnId_ := by
  refine (after_nextConnId s a).trans (book_counters s ?_).1
  rintro sockfd rfl
  exact h (.loop .base) (mem_accesses_of_member rfl (by simp [Action.members]))

/-- And so does the pool's. -/
theorem after_next_of_notMem (h : ∀ t, (t, .next_) ∉ s.accesses a) :
    (s.after a).threadPool_.next_ = s.threadPool_.next_ := by
  rw [(s.after_frame a).threadPool_, (book_counters s ?_).2]
  rintro sockfd rfl
  exact h (.loop .base) (mem_accesses_of_member rfl (by simp [Action.members]))

/-! ## Every run -/

/-- **Thread confinement**: in every run of a server with any number of sub-loops, connections and
threads, every method of a connection and every call on its channel is on the thread of its loop,
and every access to the server's map and counters on that of the base loop. -/
theorem confined (n : ℕ) (b : Bool) (as : List (Action υ)) (h : steps.Valid (start n b) as) :
    steps.Along Confined (start n b) as := by
  refine (start_sound n b).along h fun s a hs ha x hx => ?_
  obtain hx | hx := List.mem_append.mp hx
  · exact hs.confined_method ha.1 hx
  · obtain hx | hx := List.mem_append.mp hx
    · exact hs.confined_member ha.1 hx
    · exact hs.confined_other hx

/-- A connection of a sub-loop, from `newConncetion` on the base loop to its peer's close, with a
`send` of another thread in between. -/
theorem confined_close :
    steps.Along Confined (start 1 false : TcpServer Unit)
      [.enter .base, .test .base, .poll .base [], .newConncetion 7, .enter (.sub 0), .test (.sub 0),
        .poll (.sub 0) [], .doPendingFunctors (.sub 0), .functor (.sub 0) ⟨⟨0, 0, 0⟩, .data []⟩,
        .share (.loop (.sub 0)) (.user ()) 0, .ret (.sub 0), .donePendingFunctors (.sub 0),
        .send (.user ()) 0 [1], .sendRun (.user ()) ⟨⟨0, 0, 0⟩, .data []⟩, .test (.sub 0),
        .poll (.sub 0) [(0, EPOLLIN)], .dispatch (.sub 0), .task (.sub 0) ⟨⟨0, 0, 0⟩, .data []⟩,
        .ret (.sub 0), .task (.sub 0) ⟨⟨0, 0, 0⟩, .data []⟩, .doPendingFunctors .base,
        .functor .base ⟨⟨0, 0, 0⟩, .data []⟩, .doPendingFunctors (.sub 0),
        .functor (.sub 0) ⟨⟨1, 0, 0⟩, .data []⟩, .functor (.sub 0) ⟨⟨0, 0, 0⟩, .data []⟩] :=
  confined 1 false _ (by decide +kernel)

end TcpServer

end Mymuduo
