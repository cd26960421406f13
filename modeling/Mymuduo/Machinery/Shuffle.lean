import Mathlib.Data.List.Perm.Basic

/-!
# Machinery/Shuffle — the same items, each label's in its own order

Several parties put items on one list, each item with its owner's label.  Another list is a
**shuffle** of it when every label has the same items there in the same order; what two labels do to
each other is left open.  A shuffle is a permutation; and a shuffle of the items worth keeping
extends to one of them all (`exists_shuffle`), so items that leave no trace need not be followed.
-/

namespace Machinery

variable {τ β γ : Type*} [DecidableEq τ]

/-- The items of one label, in order. -/
def itemsOf (t : τ) (l : List (τ × β)) : List (τ × β) := l.filter fun x => x.1 = t

/-- **Each label has the same items in the same order.** -/
def Shuffle (l l' : List (τ × β)) : Prop := ∀ t, itemsOf t l = itemsOf t l'

section itemsOf

variable {t u : τ} {b : β} {l l' : List (τ × β)} {p : τ × β → Bool}

@[simp] theorem itemsOf_nil : itemsOf t ([] : List (τ × β)) = [] := rfl

@[simp] theorem itemsOf_append : itemsOf t (l ++ l') = itemsOf t l ++ itemsOf t l' :=
  List.filter_append ..

@[simp] theorem itemsOf_cons_self : itemsOf t ((t, b) :: l) = (t, b) :: itemsOf t l := by
  simp [itemsOf]

@[simp] theorem itemsOf_cons_ne (h : u ≠ t) : itemsOf t ((u, b) :: l) = itemsOf t l := by
  simp [itemsOf, h]

theorem itemsOf_filter : itemsOf t (l.filter p) = (itemsOf t l).filter p := by
  simp only [itemsOf, List.filter_filter, Bool.and_comm]

/-- Without a label's items, the label has none and the others have theirs. -/
theorem itemsOf_without :
    itemsOf t (l.filter fun x => x.1 ≠ u) = if t = u then [] else itemsOf t l := by
  split
  case isTrue h =>
    rw [itemsOf, List.filter_filter, List.filter_eq_nil_iff]
    simp [h]
  case isFalse h =>
    rw [itemsOf, List.filter_filter]
    refine List.filter_congr fun x _ => ?_
    by_cases hx : x.1 = t
    · simp [hx, h]
    · simp [hx]

/-- One label's items among another's. -/
theorem itemsOf_itemsOf : itemsOf u (itemsOf t l) = if u = t then itemsOf t l else [] := by
  split
  case isTrue h =>
    rw [h, itemsOf, List.filter_eq_self]
    exact fun x hx => (List.mem_filter.mp hx).2
  case isFalse h =>
    rw [itemsOf, List.filter_eq_nil_iff]
    intro x hx hxu
    have hxt : x.1 = t := by simpa using (List.mem_filter.mp hx).2
    exact h ((of_decide_eq_true hxu).symm.trans hxt)

theorem itemsOf_eq_nil (h : ∀ x ∈ l, x.1 ≠ t) : itemsOf t l = [] :=
  List.filter_eq_nil_iff.mpr (by simpa using h)

end itemsOf

namespace Shuffle

variable {l l' : List (τ × β)}

theorem refl (l : List (τ × β)) : Shuffle l l := fun _ => rfl

/-- A shuffle is a permutation: how often an item occurs is a matter of its own label. -/
theorem perm [DecidableEq β] (h : Shuffle l l') : l.Perm l' := by
  refine List.perm_iff_count.mpr fun x => ?_
  have hcount : ∀ l : List (τ × β), l.count x = (itemsOf x.1 l).count x := fun l =>
    (List.count_filter (by simp)).symm
  rw [hcount l, hcount l', h x.1]

/-- So what the items amount to has the same length. -/
theorem length_flatMap [DecidableEq β] (h : Shuffle l l') (f : τ × β → List γ) :
    (l.flatMap f).length = (l'.flatMap f).length :=
  (h.perm.flatMap_right f).length_eq

end Shuffle

/-! ## Items not worth keeping

The first item `(t, b)` of the shuffled list is the first one kept of its label: in the whole list,
what `t` has before it is not kept.  Those items go in front, and the rest is a smaller instance. -/

section Extend

variable {p : τ × β → Bool} {t : τ} {b : β} {A B B₁ B₂ C : List (τ × β)}

/-- The whole list splits at the item the shuffle begins with. -/
theorem Shuffle.split (h : Shuffle ((t, b) :: A) (B.filter p)) : ∃ B₁ B₂,
    B = B₁ ++ (t, b) :: B₂ ∧ p (t, b) = true ∧ (itemsOf t B₁).filter p = [] ∧
      Shuffle A ((B₁.filter (fun x => x.1 ≠ t) ++ B₂).filter p) := by
  have hhead := h t
  rw [itemsOf_cons_self, itemsOf_filter] at hhead
  have hsplit : (t, b) :: itemsOf t A = B.filter fun x => p x && decide (x.1 = t) :=
    hhead.trans List.filter_filter
  obtain ⟨B₁, B₂, rfl, hB₁, hb, hB₂⟩ := List.filter_eq_cons_iff.mp hsplit.symm
  rw [← List.filter_filter] at hB₂
  refine ⟨B₁, B₂, rfl, by simpa using hb, ?_, fun u => ?_⟩
  · rw [itemsOf, List.filter_filter, List.filter_eq_nil_iff]
    exact hB₁
  · rw [itemsOf_filter, itemsOf_append, itemsOf_without]
    by_cases hu : u = t
    · rw [if_pos hu, List.nil_append, hu]
      exact hB₂.symm
    · have hothers := h u
      rw [itemsOf_filter, itemsOf_append, itemsOf_cons_ne (Ne.symm hu),
        itemsOf_cons_ne (Ne.symm hu)] at hothers
      rw [if_neg hu]
      exact hothers

/-- A label's items may be moved to the front, up to any one of them. -/
theorem Shuffle.front (h : Shuffle C (B₁.filter (fun x => x.1 ≠ t) ++ B₂)) :
    Shuffle (itemsOf t B₁ ++ (t, b) :: C) (B₁ ++ (t, b) :: B₂) := by
  intro u
  have hu' := h u
  rw [itemsOf_append, itemsOf_without] at hu'
  rw [itemsOf_append, itemsOf_append, itemsOf_itemsOf]
  by_cases hu : u = t
  · subst hu
    rw [if_pos rfl, List.nil_append] at hu'
    rw [if_pos rfl, itemsOf_cons_self, itemsOf_cons_self, hu']
  · rw [if_neg hu] at hu'
    rw [if_neg hu, itemsOf_cons_ne (Ne.symm hu), itemsOf_cons_ne (Ne.symm hu), hu', List.nil_append]

/-- **A shuffle of the kept items extends to a shuffle of all.** -/
theorem exists_shuffle (h : Shuffle A (B.filter p)) : ∃ C, Shuffle C B ∧ C.filter p = A := by
  induction A generalizing B with
  | nil =>
    refine ⟨B, .refl B, List.eq_nil_iff_forall_not_mem.mpr fun x hx => ?_⟩
    have hnone := h x.1
    rw [itemsOf_nil] at hnone
    have hmem : x ∈ itemsOf x.1 (B.filter p) := List.mem_filter.mpr ⟨hx, by simp⟩
    rw [← hnone] at hmem
    cases hmem
  | cons x A ih =>
    obtain ⟨t, b⟩ := x
    obtain ⟨B₁, B₂, rfl, hp, hskip, hrest⟩ := h.split
    obtain ⟨C, hC, hkept⟩ := ih hrest
    refine ⟨itemsOf t B₁ ++ (t, b) :: C, hC.front, ?_⟩
    rw [List.filter_append, hskip, List.filter_cons_of_pos hp, hkept, List.nil_append]

end Extend

end Machinery
