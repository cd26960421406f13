import Mymuduo.TcpServer.Hosting
import Mymuduo.TcpServer.Table

/-!
# TcpServer/Ended — what is left when the destructor is over

`~TcpServer` empties the map and then goes through the threads of the pool.  One whose `loop_` is
null it passes, any other it tells to quit and joins:

    running ──▸ destroying ──▸ stopping 0 ──▸ joining 0 ──▸ stopping 1 ──▸ … ──▸ destroyed
                                     └─────────────────────────▴
                                        loop_ is null

A thread that is joined is through with `~EventLoop`; one that is passed may be before it, and its
queue still hold connections.  Either way its loop has left `loop()` and has nothing in hand.
-/

namespace Mymuduo

open Machinery TcpConnection

/-- The body of `~TcpServer` has run. -/
def Phase.pastBody : Phase → Bool
  | stopping _ | joining _ | destroyed => true
  | running | destroying => false

namespace TcpServer

variable {υ : Type*} [DecidableEq υ] {s : TcpServer υ} {a : Action υ} {l : LoopId} {c i : ℕ}

omit [DecidableEq υ] in
/-- The destructor is past thread `i` of the pool. -/
def Past (s : TcpServer υ) (i : ℕ) : Prop :=
  match s.phase with
  | .stopping j | .joining j => i < j
  | .destroyed => i < s.threadPool_.numThreads_
  | .running | .destroying => False

omit [DecidableEq υ] in
/-- **What the destructor leaves behind it**: no entry, and no thread in `loop()`. -/
structure Ending (s : TcpServer υ) : Prop where
  sound : s.Sound
  batch : ∀ l, (s.loop l).stage ≠ .running → (s.loop l).ran = []
  map : s.phase.pastBody = true → ∀ k, s.conncetions_ k = none
  passed : ∀ i, s.Past i → (s.loop (.sub i)).stage.loopNull = true

/-- The pool keeps its threads. -/
theorem numThreads_book (s : TcpServer υ) (a : Action υ) :
    (s.book a).threadPool_.numThreads_ = s.threadPool_.numThreads_ := by
  simpa [loops, EventLoopThreadPool.loops_] using congrArg List.length (s.book_loops a)

/-- `loop_` is not set again. -/
theorem loopNull_after (ha : s.Ready a) (h : (s.loop l).stage.loopNull = true) :
    ((s.after a).loop l).stage.loopNull = true := by
  rw [(s.after_frame a).stage]
  have hstep := book_loop ha l
  generalize (s.book a).loop l = L at hstep ⊢
  cases hstep with
  | enter hat => rw [hat.1] at h; cases h
  | test hat => rw [hat.1] at h; cases h
  | poll reports hat hr => rw [hat.1] at h; cases h
  | swap hat hactive => rw [hat.1] at h; cases h
  | done hat hrest => rw [hat.1] at h; cases h
  | clear i hl hstage => rfl
  | discard i hl hstage => rfl
  | endLoop i hl hstage => rfl
  | _ => exact h

omit [DecidableEq υ] in
theorem past_toThread (h : (s.toThread i).Past c) : c < i := by
  unfold Past toThread at h
  by_cases hi : i < s.threadPool_.numThreads_
  · simpa [hi] using h
  · have hc : c < s.threadPool_.numThreads_ := by simpa [hi] using h
    omega

omit [DecidableEq υ] in
/-- The destructor passes the thread it is at when its `loop_` is null, and no other. -/
theorem past_stopNext (hmay : s.MayStop) (h : s.stopNext.Past i) :
    s.Past i ∨ (s.loop (.sub i)).stage.loopNull = true := by
  unfold stopNext at h
  unfold MayStop at hmay
  rcases hphase : s.phase with _ | _ | j | j | _ <;> simp only [hphase] at h hmay
  case destroying => exact absurd (past_toThread h) (Nat.not_lt_zero i)
  case stopping =>
    have hpast : i < j → s.Past i := by
      intro hlt
      simpa [Past, hphase] using hlt
    split at h
    case isTrue hnull =>
      rcases Nat.lt_succ_iff_lt_or_eq.mp (past_toThread h) with hlt | rfl
      · exact .inl (hpast hlt)
      · exact .inr hnull
    case isFalse => exact .inl (hpast h)
  case joining =>
    rcases Nat.lt_succ_iff_lt_or_eq.mp (past_toThread h) with hlt | rfl
    · exact .inl (by simpa [Past, hphase] using hlt)
    · exact .inr (by rw [hmay]; rfl)

theorem past_after (ha : s.Ready a) (h : (s.after a).Past i) :
    s.Past i ∨ (s.loop (.sub i)).stage.loopNull = true := by
  have hbook : (s.book a).Past i := by
    unfold Past at h ⊢
    rwa [(s.after_frame a).phase, (s.after_frame a).threadPool_] at h
  by_cases hstop : a = .stop
  · subst hstop
    exact past_stopNext ha hbook
  have hloops := numThreads_book s a
  have hstep := s.book_server a
  generalize s.book a = s' at hstep hbook hloops
  unfold Past at hbook ⊢
  rw [hloops] at hbook
  cases hstep with
  | destroy => exact hbook.elim
  | stop => exact absurd rfl hstop
  | other _ _ _ _ _ hphase => exact .inl (hphase ▸ hbook)
  | _ => exact .inl hbook

omit [DecidableEq υ] in
/-- The loop of the body is over when the map is empty. -/
theorem Sound.map_empty (h : s.Sound) (hmay : s.MayStop) (hphase : s.phase = .destroying)
    (k : BitVec 32) : s.conncetions_ k = none := by
  unfold MayStop at hmay
  simp only [hphase] at hmay
  by_contra hne
  obtain ⟨c, hc⟩ := Option.ne_none_iff_exists'.mp hne
  obtain ⟨hlt, hname⟩ := h.map k c hc
  refine hmay c hlt ?_
  rw [InMap, hname]
  exact hc

/-- Nothing is put in the map once the body has run, and it is empty then. -/
theorem Ending.map_book (h : s.Ending) (ha : s.Ready a) (hpast : (s.book a).phase.pastBody = true) :
    ∀ k, (s.book a).conncetions_ k = none := by
  have hstep := s.book_server a
  generalize s.book a = s' at hstep hpast ⊢
  cases hstep with
  | accept sockfd =>
    change s.phase.pastBody = true at hpast
    rw [ha.2.1] at hpast
    cases hpast
  | destroyNext c =>
    change s.phase.pastBody = true at hpast
    rw [ha.1] at hpast
    cases hpast
  | destroy => cases hpast
  | stop s' _ hmap =>
    rw [hmap]
    by_cases hbody : s.phase.pastBody = true
    · exact h.map hbody
    · have hmay : s.MayStop := ha
      have hphase : s.phase = .destroying := by
        unfold MayStop at hmay
        rcases hphase : s.phase with _ | _ | j | j | _ <;> simp_all [Phase.pastBody]
      exact h.sound.map_empty hmay hphase
  | other _ _ _ hmap _ hphase =>
    rw [hphase] at hpast
    rw [hmap]
    exact h.map hpast
  | share => exact h.map hpast
  | release => exact h.map hpast

/-- A batch is cleared when it is done, and there is one only while the loop is `running`. -/
theorem Ending.batch_after (h : s.Ending) (ha : s.Ready a)
    (hstage : ((s.after a).loop l).stage ≠ .running) : ((s.after a).loop l).ran = [] := by
  rw [(s.after_frame a).ran]
  rw [(s.after_frame a).stage] at hstage
  have hold := h.batch l
  have hstep := book_loop ha l
  generalize (s.book a).loop l = L at hstep hstage ⊢
  cases hstep with
  | enter hat => exact hold (by simp [hat.1])
  | test hat =>
    obtain ⟨stage, heq, -⟩ := (s.loop l).testQuit_eq l
    rw [heq]
    exact hold (by simp [hat.1])
  | poll reports hat hr => exact hold (by simp [hat.1])
  | swap hat hactive => exact absurd rfl hstage
  | take k hat hrest => exact absurd hat.1 hstage
  | done hat hrest => rfl
  | clear i hl hreturned => exact hold (by simp [hreturned])
  | discard i hl hcleared => exact hold (by simp [hcleared])
  | endLoop i hl hleaving => exact hold (by simp [hleaving])
  | _ => exact hold hstage

theorem Ending.next (h : s.Ending) (ha : s.Ready a) : (s.after a).Ending where
  sound := h.sound.next ha
  batch _ := h.batch_after ha
  map hpast k := by
    rw [(s.after_frame a).phase] at hpast
    have hbook := h.map_book ha hpast
    rw [after_map]
    cases s.removes a with
    | none => exact hbook k
    | some c =>
      refine (Function.update_apply ..).trans ?_
      split
      · rfl
      · exact hbook k
  passed i hpast := loopNull_after ha ((past_after ha hpast).elim (h.passed i) id)

/-! ## Every run -/

omit [DecidableEq υ] in
/-- A thread out of `loop()` has nothing in hand. -/
theorem Ending.idle (h : s.Ending) (hnull : (s.loop l).stage.loopNull = true) :
    (s.loop l).functors = (s.loop l).pendingFunctors_ ∧ (s.loop l).activeChannels_ = [] ∧
      (s.loop l).todo = [] := by
  have hstage : (s.loop l).stage ≠ .dispatching ∧ (s.loop l).stage ≠ .running := by
    constructor <;> intro heq <;> rw [heq] at hnull <;> cases hnull
  obtain ⟨hactive, hrest, htodo⟩ := (h.sound.staged l).quiet hstage.1 hstage.2
  refine ⟨?_, hactive, htodo⟩
  rw [ServerLoop.functors, h.batch l hstage.2, hrest]
  exact List.append_nil _

omit [DecidableEq υ] in
/-- Its queue is there until `~EventLoop` drops it. -/
theorem Sound.dropped (h : s.Sound) (hnull : (s.loop l).stage.loopNull = true)
    (hcleared : (s.loop l).stage ≠ .cleared) : (s.loop l).pendingFunctors_ = [] := by
  refine (h.staged l).gone ?_
  cases hstage : (s.loop l).stage <;> simp_all [Stage.loopNull, Stage.gone]

omit [DecidableEq υ] in
theorem Ending.loopNull_of_destroyed (h : s.Ending) (hphase : s.phase = .destroyed)
    (hl : l ∈ s.loops) (hbase : l ≠ .base) : (s.loop l).stage.loopNull = true := by
  obtain ⟨i, hi, rfl⟩ : ∃ i < s.threadPool_.numThreads_, .sub i = l := by
    simpa [loops, EventLoopThreadPool.loops_, hbase] using hl
  refine h.passed i ?_
  simpa [Past, hphase] using hi

/-- A loop of the pool whose thread was not joined has `c` in its queue. -/
def QueuedStill (s : TcpServer υ) (c : ℕ) : Prop :=
  ∃ l ∈ s.loops, l ≠ .base ∧ (s.loop l).stage = .cleared ∧
    ∃ f ∈ (s.loop l).pendingFunctors_, f.isRaw = false ∧ f.target = c

omit [DecidableEq υ] in
/-- With the map empty and the pool out of `loop()`, what else there is holds what is held. -/
theorem Ending.strong_iff (h : s.Ending) (hphase : s.phase = .destroyed) : s.Strong c ↔
    (s.loop .base).Refers c ∨ s.QueuedStill c ∨ c ∈ s.held.map Prod.snd := by
  constructor
  · rintro (hin | ⟨l, hl, hrefers⟩ | hheld)
    · rw [InMap, h.map (by rw [hphase]; rfl)] at hin
      cases hin
    · by_cases hbase : l = .base
      · exact .inl (hbase ▸ hrefers)
      · have hnull := h.loopNull_of_destroyed hphase hl hbase
        obtain ⟨hfunctors, -, htodo⟩ := h.idle hnull
        simp only [ServerLoop.Refers, hfunctors, htodo, List.map_nil, List.not_mem_nil,
          or_false] at hrefers
        obtain ⟨f, hf, hraw, htarget⟩ := hrefers
        refine .inr (.inl ⟨l, hl, hbase, ?_, f, hf, hraw, htarget⟩)
        by_contra hcleared
        rw [h.sound.dropped hnull hcleared] at hf
        cases hf
    · exact .inr (.inr hheld)
  · rintro (hrefers | ⟨l, hl, -, -, f, hf, hraw, htarget⟩ | hheld)
    · exact .inr (.inl ⟨.base, List.mem_cons_self, hrefers⟩)
    · exact .inr (.inl ⟨l, hl, .inl ⟨f, List.mem_append_left _ hf, hraw, htarget⟩⟩)
    · exact .inr (.inr hheld)

end TcpServer

end Mymuduo
