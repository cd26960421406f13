import Mathlib.Logic.Equiv.Basic
import Mathlib.Tactic.Common

/-!
# Machinery/Storage — objects with their contents in storage of their own

An object that grows keeps its contents in an allocation it owns, and a pointer to the contents is a
pointer to that allocation.  An operation on the object works in the allocation or replaces it:

    overwrite    other contents, in the same allocation
    move         other contents, in a new one; the old one is freed
    free         the object goes, and its allocation with it
    swap         two objects exchange their allocations

Allocations are numbered as they are made and no number comes twice.  What a pointer points to
changes by the operations of the object that owns it, and once freed it is gone (`contents_apply`).
-/

namespace Machinery

/-- What each object owns, and what is in each allocation that is there. -/
structure Storage (ι α : Type*) where
  owned : ι → Option ℕ
  contents : ℕ → Option (List α)
  allocated : ℕ

namespace Storage

variable {ι α : Type*}

/-- No object is there. -/
def empty : Storage ι α := ⟨fun _ => none, fun _ => none, 0⟩

/-- The operations; an object that is not there is made by a `move`. -/
inductive Op (ι α : Type*)
  | overwrite (i : ι) (v : List α)
  | move (i : ι) (v : List α)
  | free (i : ι)
  | swap (i j : ι)

namespace Op

/-- The objects an operation is on. -/
def objects : Op ι α → List ι
  | overwrite i _ | move i _ | free i => [i]
  | swap i j => [i, j]

/-- The object whose allocation it works in. -/
def site : Op ι α → Option ι
  | overwrite i _ | move i _ | free i => some i
  | swap _ _ => none

/-- What it leaves there. -/
def left : Op ι α → Option (List α)
  | overwrite _ v => some v
  | move _ _ | free _ | swap _ _ => none

end Op

variable (s : Storage ι α)

/-- The contents of an object. -/
def read (i : ι) : Option (List α) := (s.owned i).bind s.contents

/-- The allocation an operation works in. -/
def worksIn (op : Op ι α) : Option ℕ := op.site.bind s.owned

def put (i : ι) (v : Option (List α)) : Storage ι α :=
  { s with contents := (s.owned i).elim s.contents fun b => Function.update s.contents b v }

variable [DecidableEq ι]

def free (i : ι) : Storage ι α := { s.put i none with owned := Function.update s.owned i none }

def allocate (i : ι) (v : List α) : Storage ι α where
  owned := Function.update s.owned i (some s.allocated)
  contents := Function.update s.contents s.allocated (some v)
  allocated := s.allocated + 1

def apply : Op ι α → Storage ι α
  | .overwrite i v => s.put i (some v)
  | .move i v => (s.free i).allocate i v
  | .free i => s.free i
  | .swap i j => { s with owned := s.owned ∘ Equiv.swap i j }

/-! ## What storage is like -/

/-- Allocations are made in order, each is owned by one object at most, and what is owned is there. -/
structure Sound (s : Storage ι α) : Prop where
  apart : ∀ i j b, s.owned i = some b → s.owned j = some b → i = j
  there : ∀ i b, s.owned i = some b → b < s.allocated ∧ s.contents b ≠ none

variable {s} {i j : ι} {b : ℕ} {v : List α} {op : Op ι α}

omit [DecidableEq ι]

theorem sound_empty : (empty : Storage ι α).Sound := ⟨nofun, nofun⟩

theorem contents_put (s : Storage ι α) (i : ι) (v : Option (List α)) (b : ℕ) :
    (s.put i v).contents b = if s.owned i = some b then v else s.contents b := by
  cases hi : s.owned i with
  | none => simp [put, hi]
  | some b' => simp [put, hi, Function.update_apply, eq_comm]

theorem Sound.put (h : s.Sound) (i : ι) (v : List α) : (s.put i (some v)).Sound := by
  refine ⟨h.apart, fun j b hj => ⟨(h.there j b hj).1, ?_⟩⟩
  rw [contents_put]
  split
  · exact nofun
  · exact (h.there j b hj).2

variable [DecidableEq ι]

theorem Sound.free (h : s.Sound) (i : ι) : (s.free i).Sound := by
  have howned : ∀ j b, (s.free i).owned j = some b → j ≠ i ∧ s.owned j = some b := by
    intro j b hj
    by_cases hne : j = i
    · simp [Storage.free, hne] at hj
    · exact ⟨hne, by simpa [Storage.free, hne] using hj⟩
  refine ⟨fun j k b hj hk => h.apart j k b (howned j b hj).2 (howned k b hk).2, fun j b hj => ?_⟩
  obtain ⟨hne, hj⟩ := howned j b hj
  refine ⟨(h.there j b hj).1, ?_⟩
  change (s.put i none).contents b ≠ none
  rw [contents_put, if_neg fun hi => hne (h.apart j i b hj hi)]
  exact (h.there j b hj).2

theorem Sound.allocate (h : s.Sound) (i : ι) (v : List α) : (s.allocate i v).Sound := by
  -- what is new is nobody else's: all that was owned has a smaller number
  have howned : ∀ j b, (s.allocate i v).owned j = some b →
      j = i ∧ b = s.allocated ∨ s.owned j = some b ∧ b < s.allocated := by
    intro j b hj
    by_cases hne : j = i
    · exact .inl ⟨hne, by simpa [Storage.allocate, hne, eq_comm] using hj⟩
    · have hj : s.owned j = some b := by simpa [Storage.allocate, hne] using hj
      exact .inr ⟨hj, (h.there j b hj).1⟩
  refine ⟨fun j k b hj hk => ?_, fun j b hj => ?_⟩
  · obtain ⟨hji, hb⟩ | ⟨hj, hb⟩ := howned j b hj <;> obtain ⟨hki, hb'⟩ | ⟨hk, hb'⟩ := howned k b hk
    · exact hji.trans hki.symm
    · omega
    · omega
    · exact h.apart j k b hj hk
  · obtain ⟨-, rfl⟩ | ⟨hj, hb⟩ := howned j b hj
    · exact ⟨Nat.lt_succ_self _, by simp [Storage.allocate]⟩
    · refine ⟨Nat.lt_succ_of_lt hb, ?_⟩
      simpa [Storage.allocate, Nat.ne_of_lt hb] using (h.there j b hj).2

/-- **Every operation keeps it so.** -/
theorem Sound.apply (h : s.Sound) (op : Op ι α) : (s.apply op).Sound := by
  cases op with
  | overwrite i v => exact h.put i v
  | move i v => exact (h.free i).allocate i v
  | free i => exact h.free i
  | swap i j =>
    exact ⟨fun k l b hk hl => (Equiv.swap i j).injective (h.apart _ _ b hk hl),
      fun k b hk => h.there _ b hk⟩

theorem allocated_apply (s : Storage ι α) (op : Op ι α) :
    s.allocated ≤ (s.apply op).allocated := by
  cases op with
  | move i v => exact Nat.le_succ _
  | _ => exact Nat.le_refl _

/-! ## What an operation leaves -/

/-- **What a pointer points to**: what an operation in that allocation leaves there. -/
theorem contents_apply (hb : b < s.allocated) (op : Op ι α) : (s.apply op).contents b =
    if s.worksIn op = some b then op.left else s.contents b := by
  cases op with
  | overwrite i v => exact contents_put s i (some v) b
  | move i v =>
    have hb : b ≠ (s.free i).allocated := Nat.ne_of_lt hb
    exact (Function.update_of_ne hb ..).trans (contents_put s i none b)
  | free i => exact contents_put s i none b
  | swap i j => rfl

/-- Another object has what it had, where it had it. -/
theorem owned_apply_of_notMem (hj : j ∉ op.objects) : (s.apply op).owned j = s.owned j := by
  cases op with
  | overwrite i v => rfl
  | move i v =>
    have hne : j ≠ i := by simpa [Op.objects] using hj
    exact (Function.update_of_ne hne ..).trans (Function.update_of_ne hne ..)
  | free i => exact Function.update_of_ne (by simpa [Op.objects] using hj) ..
  | swap i k =>
    obtain ⟨hi, hk⟩ : j ≠ i ∧ j ≠ k := by simpa [Op.objects] using hj
    exact congrArg s.owned (Equiv.swap_apply_of_ne_of_ne hi hk)

theorem Sound.read_apply_of_notMem (h : s.Sound) (hj : j ∉ op.objects) :
    (s.apply op).read j = s.read j := by
  rw [read, read, owned_apply_of_notMem hj]
  cases hown : s.owned j with
  | none => rfl
  | some b =>
    -- the operation is on another object, and so not in this one's allocation
    have hsite : s.worksIn op ≠ some b := by
      intro hb
      obtain ⟨i, hi, hib⟩ := Option.bind_eq_some_iff.mp hb
      obtain rfl := h.apart i j b hib hown
      exact hj (by cases op <;> simp_all [Op.site, Op.objects])
    rw [Option.bind_some, Option.bind_some, contents_apply (h.there j b hown).1, if_neg hsite]

end Storage

end Machinery
