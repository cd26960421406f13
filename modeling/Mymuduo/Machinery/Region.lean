import Mathlib.Data.List.Basic
import Mathlib.Tactic.Common

/-!
# Machinery/Region — an addressed block of cells, with checked accesses

A block of memory is a list of cells addressed from zero.  `read`, `write` and `copyForward` return
`none` as soon as they touch a cell outside the block, so that an access is in bounds exactly when
it returns `some`; `window m i j` is what the cells `[i, j)` hold.

`copyForward` is the element-by-element copy of the C++ library.  Its two ranges may overlap:
copying towards lower addresses never reads a cell it has already overwritten
(`getElem?_copyForward`), so the destination ends up holding what the source held
(`window_copyForward`).
-/

namespace Machinery.Region

variable {α : Type*}

/-! ## The accesses -/

/-- The cells `[i, i + n)`. -/
def read (m : List α) (i n : ℕ) : Option (List α) :=
  if i + n ≤ m.length then some ((m.drop i).take n) else none

/-- The cells from `i` on, overwritten by `d`. -/
def write (m : List α) (i : ℕ) (d : List α) : Option (List α) :=
  if i + d.length ≤ m.length then some (m.take i ++ d ++ m.drop (i + d.length)) else none

/-- `n` cells copied one after the other, from `src` up to `dst` up. -/
def copyForward : List α → ℕ → ℕ → ℕ → Option (List α)
  | m, _, _, 0 => some m
  | m, src, dst, n + 1 => do
      let x ← m[src]?
      if dst < m.length then copyForward (m.set dst x) (src + 1) (dst + 1) n else none

/-- The block resized to `k` cells, new cells holding `fill`. -/
def resize (m : List α) (k : ℕ) (fill : α) : List α :=
  m.take k ++ List.replicate (k - m.length) fill

/-- What the cells `[i, j)` hold. -/
def window (m : List α) (i j : ℕ) : List α := (m.take j).drop i

/-! ## Windows -/

theorem length_window {m : List α} {i j : ℕ} (h : j ≤ m.length) :
    (window m i j).length = j - i := by
  rw [window, List.length_drop, List.length_take, Nat.min_eq_left h]

theorem getElem?_window (m : List α) (i j k : ℕ) :
    (window m i j)[k]? = if i + k < j then m[i + k]? else none := by
  rw [window, List.getElem?_drop, List.getElem?_take]

@[simp] theorem window_self (m : List α) (i : ℕ) : window m i i = [] := by
  rw [window, List.drop_eq_nil_iff, List.length_take]
  exact Nat.min_le_left _ _

theorem drop_window (m : List α) (i j n : ℕ) : (window m i j).drop n = window m (i + n) j := by
  rw [window, List.drop_drop, window]

theorem take_window (m : List α) (i j n : ℕ) :
    (window m i j).take n = window m i (min (i + n) j) := by
  rw [window, List.take_drop, List.take_take, window]

theorem read_eq {m : List α} {i n : ℕ} (h : i + n ≤ m.length) :
    read m i n = some (window m i (i + n)) := by
  rw [read, if_pos h, window, List.take_drop]

/-! ## Writing -/

theorem write_eq {m d : List α} {i : ℕ} (h : i + d.length ≤ m.length) :
    write m i d = some (m.take i ++ d ++ m.drop (i + d.length)) := if_pos h

theorem length_write {m d m' : List α} {i : ℕ} (h : write m i d = some m') :
    m'.length = m.length := by
  rw [write, Option.ite_none_right_eq_some, Option.some_inj] at h
  obtain ⟨hle, rfl⟩ := h
  simp only [List.length_append, List.length_take, List.length_drop]
  omega

/-- **Writing at the end of a window extends it.** -/
theorem window_write {m d m' : List α} {i j : ℕ} (hij : i ≤ j) (h : write m j d = some m') :
    window m' i (j + d.length) = window m i j ++ d := by
  rw [write, Option.ite_none_right_eq_some, Option.some_inj] at h
  obtain ⟨hle, rfl⟩ := h
  have hj : (m.take j).length = j := by rw [List.length_take]; omega
  have htake : (m.take j ++ d ++ m.drop (j + d.length)).take (j + d.length) = m.take j ++ d :=
    List.take_left' (by rw [List.length_append, hj])
  rw [window, htake, List.drop_append_of_le_length (by omega), window]

/-! ## Resizing -/

theorem length_resize (m : List α) (k : ℕ) (fill : α) : (resize m k fill).length = k := by
  rw [resize, List.length_append, List.length_take, List.length_replicate]
  omega

/-- **Growing a block keeps its windows.** -/
theorem window_resize {m : List α} {i j k : ℕ} {fill : α} (hj : j ≤ m.length) (hk : j ≤ k) :
    window (resize m k fill) i j = window m i j := by
  have hlen : j ≤ (m.take k).length := by rw [List.length_take]; omega
  rw [window, resize, List.take_append_of_le_length hlen, List.take_take, Nat.min_eq_left hk,
    window]

/-! ## Copying towards lower addresses -/

/-- **A forward copy to lower addresses, cell by cell.**  The copied range never meets a cell that
has been overwritten: the destination stays behind the source. -/
theorem getElem?_copyForward {n : ℕ} : ∀ {m : List α} {src dst : ℕ}, dst ≤ src →
    src + n ≤ m.length → ∃ m', copyForward m src dst n = some m' ∧ m'.length = m.length ∧
      ∀ k, m'[k]? = if dst ≤ k ∧ k < dst + n then m[src + (k - dst)]? else m[k]? := by
  induction n with
  | zero =>
    intro m src dst _ _
    refine ⟨m, rfl, rfl, fun k => ?_⟩
    rw [if_neg (by omega)]
  | succ n ih =>
    intro m src dst hds hlen
    have hsrc : src < m.length := by omega
    have hdst : dst < m.length := by omega
    obtain ⟨m', hcopy, hlen', hget⟩ := @ih (m.set dst m[src]) (src + 1) (dst + 1) (by omega)
      (by rw [List.length_set]; omega)
    refine ⟨m', ?_, by rw [hlen', List.length_set], fun k => ?_⟩
    · simp [copyForward, hsrc, hdst, hcopy]
    · rw [hget k]
      rcases Nat.lt_trichotomy k dst with hk | rfl | hk
      · rw [if_neg (by omega), if_neg (by omega), List.getElem?_set_ne (by omega)]
      · rw [if_neg (by omega), if_pos (by omega), List.getElem?_set_self hdst, Nat.sub_self,
          Nat.add_zero, List.getElem?_eq_getElem hsrc]
      · have hshift : src + 1 + (k - (dst + 1)) = src + (k - dst) := by omega
        rw [hshift, List.getElem?_set_ne (by omega), List.getElem?_set_ne (by omega)]
        exact if_congr (by omega) rfl rfl

/-- **A forward copy to lower addresses moves the window.** -/
theorem window_copyForward {m : List α} {src dst n : ℕ} (hds : dst ≤ src)
    (hlen : src + n ≤ m.length) : ∃ m', copyForward m src dst n = some m' ∧
      m'.length = m.length ∧ window m' dst (dst + n) = window m src (src + n) := by
  obtain ⟨m', hcopy, hlen', hget⟩ := getElem?_copyForward (m := m) hds hlen
  refine ⟨m', hcopy, hlen', List.ext_getElem? fun k => ?_⟩
  rw [getElem?_window, getElem?_window, hget]
  by_cases hk : k < n
  · rw [if_pos (by omega), if_pos (by omega), if_pos (by omega), Nat.add_sub_cancel_left]
  · rw [if_neg (by omega), if_neg (by omega)]

end Machinery.Region
