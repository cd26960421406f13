import Mathlib.Data.Int.CardIntervalMod
import Mymuduo.Machinery.Refinement
import Mymuduo.TcpServer.Model

/-!
# TcpServer/RoundRobin — the pool deals its loops in turn

`next_` is an `int`; it indexes `loops_`, and is compared with its size, as the `size_t` it converts
to.  `ThreadPool` is the pool with these types, from its construction on.  It never has more loops
than an `int` counts, so the conversions are exact, and `getNextLoop` steps through

    0, 1, …, n - 1, 0, 1, …

— what `EventLoopThreadPool`, whose counter is a number, does too (`getNextLoop_toPool`).
-/

namespace Mymuduo

open Machinery

/-- `EventLoopThreadPool`, with the types of its counters. -/
structure ThreadPool where
  started_ : Bool
  numThreads_ : BitVec 32
  next_ : BitVec 32
  loops_ : List LoopId
  deriving DecidableEq

namespace ThreadPool

/-- A pool as the constructor leaves it. -/
def new : ThreadPool := ⟨false, 0, 0, []⟩

variable (p : ThreadPool)

def setThreadNum (numThreads : BitVec 32) : ThreadPool := { p with numThreads_ := numThreads }

/-- `start`: the loop of the `i`-th thread is added in the `i`-th round. -/
def start : ThreadPool :=
  { p with
    started_ := true
    loops_ := (List.range p.numThreads_.toInt.toNat).foldl (fun loops i => loops ++ [.sub i])
      p.loops_ }

/-- `getNextLoop`, unless it indexes outside `loops_`. -/
def getNextLoop : Option (LoopId × ThreadPool) :=
  if p.loops_.isEmpty then some (.base, p)
  else do
    let loop ← p.loops_[(p.next_.signExtend 64).toNat]?
    let next := p.next_ + 1
    return (loop,
      { p with next_ := if next.signExtend 64 ≥ .ofNat 64 p.loops_.length then 0 else next })

def getAllLoops : List LoopId := if p.loops_.isEmpty then [.base] else p.loops_

/-- A pool of `n` loops, somewhere in its round. -/
structure Dealing (n : ℕ) : Prop where
  loops : p.loops_ = (List.range n).map .sub
  size : n < 2 ^ 31
  next : p.next_.toNat < max n 1

variable {p} {n k q : ℕ}

/-- A pool that has been started deals from the first loop on. -/
theorem dealing_start (numThreads : BitVec 32) :
    (new.setThreadNum numThreads).start.Dealing numThreads.toInt.toNat where
  loops := by
    have hfold : ∀ n : ℕ, (List.range n).foldl (fun loops i => loops ++ [LoopId.sub i]) [] =
        (List.range n).map .sub := by
      intro n
      induction n with
      | zero => rfl
      | succ n ih => simp [List.range_succ, ih]
    exact hfold _
  size := by
    have := numThreads.toInt_lt
    omega
  next := Nat.lt_of_lt_of_le Nat.one_pos (le_max_right _ _)

/-! ## One call -/

/-- What a call gives, and where the counter goes: the round, as a specification. -/
def deal (n q : ℕ) : LoopId × ℕ :=
  if n = 0 then (.base, q) else (.sub q, if q + 1 = n then 0 else q + 1)

/-- **A call deals the next loop.** -/
theorem getNextLoop_spec (hp : p.Dealing n) :
    ∃ p', p.getNextLoop = some ((deal n p.next_.toNat).1, p') ∧ p'.Dealing n ∧
      p'.next_.toNat = (deal n p.next_.toNat).2 := by
  obtain ⟨hloops, hsize, hnext⟩ := hp
  have hlength : p.loops_.length = n := by simp [hloops]
  by_cases hn : n = 0
  · have hempty : p.loops_.isEmpty = true := by
      rw [List.isEmpty_iff, ← List.length_eq_zero_iff, hlength, hn]
    exact ⟨p, by simp [getNextLoop, hempty, deal, hn], ⟨hloops, hsize, hnext⟩, by simp [deal, hn]⟩
  · have hlt : p.next_.toNat < n := by omega
    have hempty : p.loops_.isEmpty = false := by
      rw [List.isEmpty_eq_false_iff, ← List.length_pos_iff]
      omega
    have hloop : p.loops_[(p.next_.signExtend 64).toNat]? = some (.sub p.next_.toNat) := by
      rw [toNat_signExtend (by omega), hloops]
      simp [hlt]
    have hinc : (p.next_ + 1).toNat = p.next_.toNat + 1 := BitVec.toNat_add_of_lt (by
      change p.next_.toNat + 1 < 2 ^ 32
      omega)
    have hreset : (p.next_ + 1).signExtend 64 ≥ .ofNat 64 p.loops_.length ↔
        p.next_.toNat + 1 = n := by
      rw [ge_iff_le, BitVec.le_def, toNat_signExtend (by omega), BitVec.toNat_ofNat, hlength,
        Nat.mod_eq_of_lt (by omega), hinc]
      omega
    refine ⟨{ p with next_ := if p.next_.toNat + 1 = n then 0 else p.next_ + 1 }, ?_,
      ⟨hloops, hsize, ?_⟩, ?_⟩
    · simp only [getNextLoop, hempty, Bool.false_eq_true, if_false, hloop, hreset, deal, hn]
      rfl
    · change (if p.next_.toNat + 1 = n then 0 else p.next_ + 1).toNat < max n 1
      split
      · exact Nat.lt_of_lt_of_le Nat.one_pos (le_max_right _ _)
      · omega
    · simp only [deal, hn, if_false]
      split
      · rfl
      · exact hinc

/-- The calls, as a refinement of the round. -/
theorem getNextLoop_refines (n : ℕ) : Refines (fun (p : ThreadPool) (_ : Unit) => p.getNextLoop)
    (fun _ _ => True) (Dealing · n) (fun p => p.next_.toNat) (fun q _ => deal n q) := by
  intro p _ hp _
  obtain ⟨p', hcall, hp', hnext⟩ := getNextLoop_spec hp
  exact ⟨_, p', hcall, hp', Prod.ext rfl hnext.symm⟩

/-- **The pool of the server's model deals the same loops.** -/
theorem getNextLoop_toPool (hp : p.Dealing n) :
    ∃ p', p.getNextLoop = some ((EventLoopThreadPool.mk n p.next_.toNat).getNextLoop.1, p') ∧
      (EventLoopThreadPool.mk n p.next_.toNat).getNextLoop.2 = ⟨n, p'.next_.toNat⟩ := by
  obtain ⟨p', hcall, -, hnext⟩ := getNextLoop_spec hp
  have hlt := hp.next
  by_cases hn : n = 0
  · refine ⟨p', ?_, ?_⟩
    · simp [hcall, deal, hn, EventLoopThreadPool.getNextLoop, EventLoopThreadPool.loops_]
    · simp [hnext, deal, hn, EventLoopThreadPool.getNextLoop, EventLoopThreadPool.loops_]
  · have hin : p.next_.toNat < n := by omega
    have hreset : n ≤ p.next_.toNat + 1 ↔ p.next_.toNat + 1 = n := by omega
    refine ⟨p', ?_, ?_⟩
    · simp [hcall, deal, hn, hin, EventLoopThreadPool.getNextLoop, EventLoopThreadPool.loops_]
    · simp [hnext, deal, hn, hreset, EventLoopThreadPool.getNextLoop, EventLoopThreadPool.loops_]

/-! ## Any number of calls -/

/-- **The loops of a round and of those after it.** -/
theorem prescribe_deal (hq : q < max n 1) (k : ℕ) :
    (prescribe (fun q _ => deal n q) q (List.replicate k ())).1 =
      (List.range k).map fun i => if n = 0 then .base else .sub ((q + i) % n) := by
  induction k generalizing q with
  | zero => rfl
  | succ k ih =>
    rw [List.replicate_succ, prescribe, List.range_succ_eq_map, List.map_cons, List.map_map]
    by_cases hn : n = 0
    · simp only [deal, hn, if_true] at ih ⊢
      rw [ih (by rwa [hn] at hq)]
      rfl
    · have hlt : q < n := by omega
      have hstep : (deal n q).2 = (q + 1) % n := by
        simp only [deal, hn, if_false]
        split
        · next hlast => rw [hlast, Nat.mod_self]
        · rw [Nat.mod_eq_of_lt (by omega)]
      rw [hstep, ih (lt_max_of_lt_left (Nat.mod_lt _ (by omega)))]
      simp only [deal, hn, if_false, Nat.add_zero, Nat.mod_eq_of_lt hlt, List.cons.injEq, true_and]
      refine List.map_congr_left fun i _ => ?_
      simp only [Function.comp_apply, Nat.mod_add_mod, Nat.succ_eq_add_one]
      rw [Nat.add_assoc, Nat.add_comm 1 i]

/-- What a loop is given in `k` calls. -/
theorem count_dealt {a : ℕ} (ha : a < n) (k : ℕ) :
    ((List.range k).map fun i => LoopId.sub (i % n)).count (.sub a) =
      k / n + if a < k % n then 1 else 0 := by
  have hcount : ∀ k, ((List.range k).map fun i => LoopId.sub (i % n)).count (.sub a) =
      k.count (· ≡ a [MOD n]) := by
    intro k
    induction k with
    | zero => simp
    | succ k ih =>
      have hmod : LoopId.sub (k % n) = .sub a ↔ k ≡ a [MOD n] := by
        rw [LoopId.sub.injEq, Nat.ModEq, Nat.mod_eq_of_lt ha]
      rw [List.range_succ, List.map_append, List.count_append, ih, Nat.count_succ,
        List.map_singleton, List.count_singleton]
      simp only [beq_iff_eq, hmod]
  rw [hcount, Nat.count_modEq_card _ (by omega), Nat.mod_eq_of_lt ha]

/-- **Round robin.**  For every number `n` of loops a pool is started with and every number of calls
after it: no call indexes outside `loops_`, the `i`-th gives the loop `i % n` of `loops_`, or the
base loop where there is none, no loop is given two connections more than another, and every loop
given is one of `getAllLoops()`. -/
theorem round_robin (numThreads : BitVec 32) (k : ℕ) :
    ∃ given p', perform (fun (p : ThreadPool) (_ : Unit) => p.getNextLoop)
        (new.setThreadNum numThreads).start (List.replicate k ()) = some (given, p') ∧
      (new.setThreadNum numThreads).start.loops_.length = numThreads.toInt.toNat ∧
      (∀ i < k, given[i]? = if numThreads.toInt.toNat = 0 then some .base else
        (new.setThreadNum numThreads).start.loops_[i % numThreads.toInt.toNat]?) ∧
      (∀ l ∈ (new.setThreadNum numThreads).start.loops_,
        ∀ l' ∈ (new.setThreadNum numThreads).start.loops_, given.count l ≤ given.count l' + 1) ∧
      ∀ l ∈ given, l ∈ p'.getAllLoops := by
  have hstart := dealing_start numThreads
  have hzero : (new.setThreadNum numThreads).start.next_.toNat = 0 := rfl
  generalize (new.setThreadNum numThreads).start = p at hstart hzero ⊢
  generalize numThreads.toInt.toNat = n at hstart ⊢
  have hmeets : Meets (fun (p : ThreadPool) (_ : Unit) => p.getNextLoop) (fun _ _ => True) p
      (List.replicate k ()) := .of_forall fun _ _ => trivial
  obtain ⟨given, p', hperform, hp', hprescribe⟩ :=
    (getNextLoop_refines n).perform hstart hmeets
  have hgiven : given = (List.range k).map fun i => if n = 0 then .base else .sub (i % n) := by
    have hdealt := congrArg Prod.fst hprescribe
    rw [hzero, prescribe_deal (by omega)] at hdealt
    simpa using hdealt.symm
  refine ⟨given, p', hperform, by simp [hstart.loops], fun i hi => ?_, fun l hl l' hl' => ?_,
    fun l hl => ?_⟩
  · by_cases hn : n = 0
    · simp [hgiven, hn, hi]
    · simp [hgiven, hn, hi, hstart.loops, Nat.mod_lt i (Nat.pos_of_ne_zero hn)]
  · rw [hstart.loops, List.mem_map] at hl hl'
    obtain ⟨a, ha, rfl⟩ := hl
    obtain ⟨b, hb, rfl⟩ := hl'
    rw [List.mem_range] at ha hb
    have hn : n ≠ 0 := by omega
    simp only [hgiven, hn, if_false]
    rw [count_dealt ha, count_dealt hb]
    split <;> split <;> omega
  · rw [hgiven, List.mem_map] at hl
    obtain ⟨i, -, rfl⟩ := hl
    unfold getAllLoops
    by_cases hn : n = 0
    · simp [hp'.loops, hn]
    · simp [hp'.loops, hn, Nat.mod_lt i (Nat.pos_of_ne_zero hn)]

end ThreadPool

end Mymuduo
