import Mathlib.Data.List.Basic
import Mathlib.Tactic.Common

/-!
# Machinery/Machine — guarded machines and what holds along their runs

A **machine** says which actions a state allows and where each leads.  A run is the list of actions
taken from a state; what is asked of it is asked of every action, in the state it is taken in
(`Along`).  So a run is valid when every action is enabled, and a side condition on the environment
is one more predicate along the same run.

The rules a development needs are four: an invariant is kept along a run (`Along.invariant`), an
invariant turns one side condition into another (`Along.imp_of_invariant`), a run that ends well has
not been spoilt for good (`Along.of_not_run`), and a quantity that every action extends is the
concatenation of what the actions contributed (`run_collect`).
-/

namespace Machinery

/-- A machine: the actions a state allows, and the state each leads to. -/
structure Machine (σ α : Type*) where
  enabled : σ → α → Prop
  next : σ → α → σ

namespace Machine

variable {σ α β : Type*} (m : Machine σ α)

/-- The state a list of actions leads to. -/
def run (s : σ) (as : List α) : σ := as.foldl m.next s

@[simp] theorem run_nil (s : σ) : m.run s [] = s := rfl

@[simp] theorem run_cons (s : σ) (a : α) (as : List α) :
    m.run s (a :: as) = m.run (m.next s a) as := rfl

@[simp] theorem run_append (s : σ) (as bs : List α) :
    m.run s (as ++ bs) = m.run (m.run s as) bs := List.foldl_append

/-- **Every action of a run satisfies `P`** in the state it is taken in. -/
def Along (P : σ → α → Prop) : σ → List α → Prop
  | _, [] => True
  | s, a :: as => P s a ∧ Along P (m.next s a) as

/-- A run is valid when every action is enabled where it is taken. -/
abbrev Valid : σ → List α → Prop := m.Along m.enabled

instance Along.decidable (P : σ → α → Prop) [∀ s a, Decidable (P s a)] :
    ∀ (s : σ) (as : List α), Decidable (m.Along P s as)
  | _, [] => isTrue trivial
  | s, a :: as =>
      have := Along.decidable P (m.next s a) as
      inferInstanceAs (Decidable (P s a ∧ m.Along P (m.next s a) as))

section Along

variable {m} {P Q R : σ → α → Prop} {I : σ → Prop} {s : σ} {as bs : List α} {a : α}

@[simp] theorem along_nil : m.Along P s [] := trivial

@[simp] theorem along_cons :
    m.Along P s (a :: as) ↔ P s a ∧ m.Along P (m.next s a) as := Iff.rfl

@[simp] theorem along_append :
    m.Along P s (as ++ bs) ↔ m.Along P s as ∧ m.Along P (m.run s as) bs := by
  induction as generalizing s with
  | nil => simp
  | cons a as ih => simp [ih, and_assoc]

theorem along_and :
    m.Along (fun s a => P s a ∧ Q s a) s as ↔ m.Along P s as ∧ m.Along Q s as := by
  induction as generalizing s with
  | nil => simp
  | cons a as ih => simp only [along_cons, ih]; tauto

theorem Along.mono (hPQ : ∀ s a, P s a → Q s a) (h : m.Along P s as) : m.Along Q s as := by
  induction as generalizing s with
  | nil => trivial
  | cons a as ih => exact ⟨hPQ _ _ h.1, ih h.2⟩

/-- A prefix of a run inherits whatever holds along it. -/
theorem Along.of_prefix (h : m.Along P s bs) (hp : as <+: bs) : m.Along P s as := by
  obtain ⟨cs, rfl⟩ := hp
  exact (along_append.mp h).1

/-- **An invariant is kept along a run.** -/
theorem Along.invariant (hstep : ∀ s a, I s → P s a → I (m.next s a)) (h : m.Along P s as)
    (hs : I s) : I (m.run s as) := by
  induction as generalizing s with
  | nil => exact hs
  | cons a as ih => exact ih h.2 (hstep _ _ hs h.1)

/-- **An invariant turns one side condition into another** along the whole run. -/
theorem Along.imp_of_invariant (hstep : ∀ s a, I s → P s a → I (m.next s a))
    (hPQ : ∀ s a, I s → P s a → Q s a) (h : m.Along P s as) (hs : I s) : m.Along Q s as := by
  induction as generalizing s with
  | nil => trivial
  | cons a as ih => exact ⟨hPQ _ _ hs h.1, ih h.2 (hstep _ _ hs h.1)⟩

/-- Under an invariant two conditions that agree at every action agree along the run. -/
theorem along_congr_of_invariant (hstep : ∀ s a, I s → P s a → I (m.next s a))
    (hQR : ∀ s a, I s → P s a → (Q s a ↔ R s a)) (h : m.Along P s as) (hs : I s) :
    m.Along Q s as ↔ m.Along R s as := by
  induction as generalizing s with
  | nil => simp
  | cons a as ih =>
      simp only [along_cons]
      exact and_congr (hQR _ _ hs h.1) (ih h.2 (hstep _ _ hs h.1))

/-- The same, where the invariant is kept only while the conditions hold. -/
theorem along_congr_of_guarded (hstep : ∀ s a, I s → P s a → R s a → I (m.next s a))
    (hQR : ∀ s a, I s → P s a → (Q s a ↔ R s a)) (h : m.Along P s as) (hs : I s) :
    m.Along Q s as ↔ m.Along R s as := by
  induction as generalizing s with
  | nil => simp
  | cons a as ih =>
      simp only [along_cons]
      rw [hQR _ _ hs h.1]
      exact and_congr_right fun hr => ih h.2 (hstep _ _ hs h.1 hr)

/-- **What an action spoils for good is not spoilt on the way to a good end**: where an action that
breaks `Q` leads to `B`, and `B` is never left, a run that does not end in `B` keeps to `Q`. -/
theorem Along.of_not_run {B : σ → Prop} (hspoil : ∀ s a, P s a → ¬ Q s a → B (m.next s a))
    (hkeep : ∀ s a, B s → P s a → B (m.next s a)) (h : m.Along P s as)
    (hend : ¬ B (m.run s as)) : m.Along Q s as := by
  induction as generalizing s with
  | nil => trivial
  | cons a as ih =>
    refine ⟨?_, ih h.2 hend⟩
    by_contra hQ
    have hbad : B (m.run (m.next s a) as) := h.2.invariant hkeep (hspoil s a h.1 hQ)
    exact hend hbad

/-- **The response rule**: where every action that counts brings a rank down on the way to a goal,
and none brings it up, a run is at the goal when as many count as the rank was high. -/
theorem Along.reach {G : σ → Prop} {r : σ → ℕ} {c : α → Bool}
    (hstep : ∀ s a, I s → P s a → I (m.next s a))
    (hgoal : ∀ s a, I s → P s a → G s → G (m.next s a))
    (hpos : ∀ s, I s → r s = 0 → G s)
    (hrank : ∀ s a, I s → P s a → ¬ G s → ¬ G (m.next s a) →
      r (m.next s a) + (if c a then 1 else 0) ≤ r s)
    (h : m.Along P s as) (hs : I s) (henough : r s ≤ as.countP c) : G (m.run s as) := by
  have hstay : ∀ (t : σ) (bs : List α), m.Along P t bs → I t → G t → G (m.run t bs) := by
    intro t bs hbs ht hg
    exact (hbs.invariant (I := fun s => I s ∧ G s)
      (fun s a hs ha => ⟨hstep s a hs.1 ha, hgoal s a hs.1 ha hs.2⟩) ⟨ht, hg⟩).2
  induction as generalizing s with
  | nil => exact hpos s hs (Nat.le_zero.mp henough)
  | cons a as ih =>
    have hnext := hstep s a hs h.1
    by_cases hg : G s
    · exact hstay s (a :: as) h hs hg
    by_cases hg' : G (m.next s a)
    · exact hstay _ as h.2 hnext hg'
    · refine ih h.2 hnext ?_
      have hdown := hrank s a hs h.1 hg hg'
      rw [List.countP_cons] at henough
      omega

/-- What an action brings about and nothing undoes holds at the end of a run the action is in. -/
theorem Along.of_mem {A : σ → Prop} (hstep : ∀ s b, I s → P s b → I (m.next s b))
    (hmake : ∀ s, I s → P s a → A (m.next s a))
    (hkeep : ∀ s b, I s → P s b → A s → A (m.next s b)) (h : m.Along P s as) (hs : I s)
    (ha : a ∈ as) : A (m.run s as) := by
  obtain ⟨bs, cs, rfl⟩ := List.append_of_mem ha
  obtain ⟨hbefore, hmid, hafter⟩ := along_append.mp h
  have hI : I (m.run s bs) := hbefore.invariant hstep hs
  rw [run_append]
  exact (hafter.invariant (I := fun s => I s ∧ A s)
    (fun s b hs hb => ⟨hstep s b hs.1 hb, hkeep s b hs.1 hb hs.2⟩)
    ⟨hstep _ _ hI hmid, hmake _ hI hmid⟩).2

/-- **The turn rule**: one action prepares what another, later one brings about. -/
theorem Along.of_turn {A B : σ → Prop} {b : α} (hstep : ∀ s c, I s → P s c → I (m.next s c))
    (hprepare : ∀ s, I s → P s a → A (m.next s a))
    (hready : ∀ s c, I s → P s c → A s → A (m.next s c))
    (hmake : ∀ s, I s → A s → P s b → B (m.next s b))
    (hkeep : ∀ s c, I s → A s → P s c → B s → B (m.next s c)) (h : m.Along P s as) (hs : I s)
    (hturn : [a, b].Sublist as) : B (m.run s as) := by
  obtain ⟨bs, cs, rfl, ha, hb⟩ := List.cons_sublist_iff.mp hturn
  obtain ⟨hbefore, hafter⟩ := along_append.mp h
  rw [run_append]
  exact hafter.of_mem (I := fun s => I s ∧ A s)
    (fun s c hs hc => ⟨hstep s c hs.1 hc, hready s c hs.1 hc hs.2⟩)
    (fun s hs hb => hmake s hs.1 hs.2 hb) (fun s c hs hc => hkeep s c hs.1 hs.2 hc)
    ⟨hbefore.invariant hstep hs, hbefore.of_mem hstep hprepare hready hs ha⟩
    (List.singleton_sublist.mp hb)

/-- What holds of every action wherever it is taken holds along the run. -/
theorem along_of_forall_mem {p : α → Prop} (h : ∀ a ∈ as, p a) :
    m.Along (fun _ a => p a) s as := by
  induction as generalizing s with
  | nil => trivial
  | cons a as ih =>
    exact ⟨h a List.mem_cons_self, ih fun b hb => h b (List.mem_cons_of_mem a hb)⟩

end Along

/-- **`φ` holds in every state a run goes through**, the first and the last included. -/
def Always (φ : σ → Prop) (s : σ) (as : List α) : Prop := ∀ bs, bs <+: as → φ (m.run s bs)

@[simp] theorem always_cons {φ : σ → Prop} {s : σ} {a : α} {as : List α} :
    m.Always φ s (a :: as) ↔ φ s ∧ m.Always φ (m.next s a) as := by
  refine ⟨fun h => ⟨h [] List.nil_prefix, fun bs hbs =>
    h (a :: bs) ((List.prefix_cons_inj a).mpr hbs)⟩, fun h bs hbs => ?_⟩
  cases bs with
  | nil => exact h.1
  | cons b bs =>
    obtain ⟨rfl, hbs'⟩ := List.cons_prefix_cons.mp hbs
    exact h.2 bs hbs'

/-- It is a matter of the first state, and of the state each action leads to. -/
theorem always_iff {φ : σ → Prop} {s : σ} {as : List α} :
    m.Always φ s as ↔ φ s ∧ m.Along (fun s a => φ (m.next s a)) s as := by
  induction as generalizing s with
  | nil =>
      refine ⟨fun h => ⟨h [] List.nil_prefix, trivial⟩, fun h bs hbs => ?_⟩
      rw [List.prefix_nil.mp hbs]
      exact h.1
  | cons a as ih => rw [always_cons, ih, along_cons]

variable {m} in
/-- The last state is one of them. -/
theorem Always.last {φ : σ → Prop} {s : σ} {as : List α} (h : m.Always φ s as) : φ (m.run s as) :=
  h as List.prefix_rfl

variable {m} in
/-- **What an invariant implies holds throughout.** -/
theorem Along.always {P : σ → α → Prop} {I φ : σ → Prop} {s : σ} {as : List α}
    (hstep : ∀ s a, I s → P s a → I (m.next s a)) (hφ : ∀ s, I s → φ s) (h : m.Along P s as)
    (hs : I s) : m.Always φ s as :=
  fun _ hbs => hφ _ ((h.of_prefix hbs).invariant hstep hs)

theorem always_append {φ : σ → Prop} {s : σ} {as bs : List α} :
    m.Always φ s (as ++ bs) ↔ m.Always φ s as ∧ m.Always φ (m.run s as) bs := by
  constructor
  · intro h
    refine ⟨fun cs hcs => h cs (hcs.trans (List.prefix_append as bs)), fun cs hcs => ?_⟩
    rw [← run_append]
    exact h _ ((List.prefix_append_right_inj as).mpr hcs)
  · rintro ⟨has, hbs⟩
    have hfirst := m.always_iff.mp has
    exact m.always_iff.mpr ⟨hfirst.1, along_append.mpr ⟨hfirst.2, (m.always_iff.mp hbs).2⟩⟩

/-- What is true at the end of a run was true at first and survived every action, for a fact that
an action can spoil but not mend. -/
theorem run_iff_along {P Q : σ → α → Prop} {I φ : σ → Prop}
    (hstep : ∀ s a, I s → P s a → I (m.next s a))
    (hφ : ∀ s a, I s → P s a → (φ (m.next s a) ↔ φ s ∧ Q s a)) {s : σ} {as : List α}
    (h : m.Along P s as) (hs : I s) : φ (m.run s as) ↔ φ s ∧ m.Along Q s as := by
  induction as generalizing s with
  | nil => simp
  | cons a as ih => rw [run_cons, ih h.2 (hstep _ _ hs h.1), hφ _ _ hs h.1, and_assoc, along_cons]

/-! ## What a run contributes

A history variable is redundant when every action extends it by something the state and the action
determine: its final value is its first value followed by the contributions, in order. -/

/-- The contributions of the actions of a run, in order. -/
def collect (f : σ → α → List β) : σ → List α → List β
  | _, [] => []
  | s, a :: as => f s a ++ collect f (m.next s a) as

@[simp] theorem collect_nil (f : σ → α → List β) (s : σ) : m.collect f s [] = [] := rfl

@[simp] theorem collect_cons (f : σ → α → List β) (s : σ) (a : α) (as : List α) :
    m.collect f s (a :: as) = f s a ++ m.collect f (m.next s a) as := rfl

theorem collect_append (f : σ → α → List β) (s : σ) (as bs : List α) :
    m.collect f s (as ++ bs) = m.collect f s as ++ m.collect f (m.run s as) bs := by
  induction as generalizing s with
  | nil => rfl
  | cons a as ih => simp [ih]

theorem collect_flatten (f : σ → α → List (List β)) (s : σ) (as : List α) :
    (m.collect f s as).flatten = m.collect (fun s a => (f s a).flatten) s as := by
  induction as generalizing s with
  | nil => rfl
  | cons a as ih => simp [ih]

theorem collect_flatMap {γ : Type*} (f : σ → α → List β) (g : β → List γ) (s : σ) (as : List α) :
    (m.collect f s as).flatMap g = m.collect (fun s a => (f s a).flatMap g) s as := by
  induction as generalizing s with
  | nil => rfl
  | cons a as ih => rw [collect_cons, collect_cons, List.flatMap_append, ih]

/-- What holds of all that a run contributes holds of it action by action. -/
theorem forall_mem_collect {f : σ → α → List β} {p : β → Prop} {s : σ} {as : List α} :
    (∀ x ∈ m.collect f s as, p x) ↔ m.Along (fun s a => ∀ x ∈ f s a, p x) s as := by
  induction as generalizing s with
  | nil => simp
  | cons a as ih => rw [collect_cons, List.forall_mem_append, ih, along_cons]

/-- **The conservation rule**: what every action extends by its contribution is, at the end of the
run, what it was at the start followed by all of them. -/
theorem run_collect {P : σ → α → Prop} {I : σ → Prop} {f : σ → α → List β} {g : σ → List β}
    (hstep : ∀ s a, I s → P s a → I (m.next s a))
    (hg : ∀ s a, I s → P s a → g (m.next s a) = g s ++ f s a) {s : σ} {as : List α}
    (h : m.Along P s as) (hs : I s) : g (m.run s as) = g s ++ m.collect f s as := by
  induction as generalizing s with
  | nil => simp
  | cons a as ih => simp [ih h.2 (hstep _ _ hs h.1), hg _ _ hs h.1]

/-- **The queue rule**: where every action takes from the front of what there is and puts behind it,
what a run takes out, with what is left behind it, is what was there and what it put in. -/
theorem collect_queue {P : σ → α → Prop} {I : σ → Prop} {put take : σ → α → List β}
    {g : σ → List β} (hstep : ∀ s a, I s → P s a → I (m.next s a))
    (hg : ∀ s a, I s → P s a → g s ++ put s a = take s a ++ g (m.next s a)) {s : σ} {as : List α}
    (h : m.Along P s as) (hs : I s) :
    g s ++ m.collect put s as = m.collect take s as ++ g (m.run s as) := by
  induction as generalizing s with
  | nil => simp
  | cons a as ih =>
    calc g s ++ (put s a ++ m.collect put (m.next s a) as)
        = take s a ++ (g (m.next s a) ++ m.collect put (m.next s a) as) := by
          rw [← List.append_assoc, hg s a hs h.1, List.append_assoc]
      _ = take s a ++ (m.collect take (m.next s a) as ++ g (m.run (m.next s a) as)) := by
          rw [ih h.2 (hstep s a hs h.1)]
      _ = m.collect take s (a :: as) ++ g (m.run s (a :: as)) := by
          rw [collect_cons, run_cons, List.append_assoc]

/-- Actions that contribute as many contribute as many along a run. -/
theorem length_collect_congr {γ : Type*} {f : σ → α → List β} {g : σ → α → List γ}
    (h : ∀ s a, (f s a).length = (g s a).length) (s : σ) (as : List α) :
    (m.collect f s as).length = (m.collect g s as).length := by
  induction as generalizing s with
  | nil => rfl
  | cons a as ih => rw [collect_cons, collect_cons, List.length_append, List.length_append, h, ih]

/-! ### Ups and downs -/

section Ups

variable (φ : σ → Prop) [DecidablePred φ]

/-- The states in which a run finds `φ` true that was false before the action. -/
def ups (s : σ) (as : List α) : List σ :=
  m.collect (fun s a => if ¬ φ s ∧ φ (m.next s a) then [m.next s a] else []) s as

/-- Those in which it finds it false that was true. -/
def downs (s : σ) (as : List α) : List σ :=
  m.collect (fun s a => if φ s ∧ ¬ φ (m.next s a) then [m.next s a] else []) s as

/-- **Ups and downs alternate**: their numbers differ by where the run begins and ends. -/
theorem length_ups (s : σ) (as : List α) :
    (m.ups φ s as).length + (if φ s then 1 else 0) =
      (m.downs φ s as).length + if φ (m.run s as) then 1 else 0 := by
  induction as generalizing s with
  | nil => rfl
  | cons a as ih =>
    have hrest := ih (m.next s a)
    change ((if ¬ φ s ∧ φ (m.next s a) then [m.next s a] else []) ++
      m.ups φ (m.next s a) as).length + _ =
      ((if φ s ∧ ¬ φ (m.next s a) then [m.next s a] else []) ++
        m.downs φ (m.next s a) as).length + if φ (m.run (m.next s a) as) then 1 else 0
    rw [List.length_append, List.length_append]
    by_cases hs : φ s <;> by_cases ha : φ (m.next s a) <;> simp [hs, ha] at hrest ⊢ <;> omega

end Ups

/-- A machine that keeps a log of what its actions contribute. -/
def logged (f : σ → α → List β) : Machine (σ × List β) α where
  enabled p a := m.enabled p.1 a
  next p a := (m.next p.1 a, p.2 ++ f p.1 a)

/-- **The log is what the run contributes**, and the machine under it runs as it would without. -/
theorem logged_run (f : σ → α → List β) (s : σ) (l : List β) (as : List α) :
    (m.logged f).run (s, l) as = (m.run s as, l ++ m.collect f s as) := by
  induction as generalizing s l with
  | nil => simp
  | cons a as ih =>
      rw [run_cons, run_cons, collect_cons, ← List.append_assoc]
      exact ih _ _

theorem logged_valid (f : σ → α → List β) (s : σ) (l : List β) (as : List α) :
    (m.logged f).Valid (s, l) as ↔ m.Valid s as := by
  induction as generalizing s l with
  | nil => exact Iff.rfl
  | cons a as ih => exact and_congr_right fun _ => ih _ _

/-- What a run contributes to anything else does not depend on the log. -/
theorem logged_collect {γ : Type*} (f : σ → α → List β) (g : σ → α → List γ) (s : σ) (l : List β)
    (as : List α) : (m.logged f).collect (fun p a => g p.1 a) (s, l) as = m.collect g s as := by
  induction as generalizing s l with
  | nil => rfl
  | cons a as ih => exact congrArg (g s a ++ ·) (ih _ _)

/-! ## A machine under control

What drives a machine has a state of its own, which allows some of the actions and goes on with each
of them. -/

section Control

variable {κ : Type*} (allows : σ → κ → α → Prop) (goesOn : σ → κ → α → κ)

/-- The machine, driven. -/
def controlled : Machine (σ × κ) α where
  enabled p a := m.enabled p.1 a ∧ allows p.1 p.2 a
  next p a := (m.next p.1 a, goesOn p.1 p.2 a)

variable {m allows goesOn} {p : σ × κ} {as : List α}

@[simp] theorem controlled_run_fst :
    ((m.controlled allows goesOn).run p as).1 = m.run p.1 as := by
  induction as generalizing p with
  | nil => rfl
  | cons a as ih => exact ih

theorem controlled_along {P : σ → α → Prop} :
    (m.controlled allows goesOn).Along (fun p a => P p.1 a) p as ↔ m.Along P p.1 as := by
  induction as generalizing p with
  | nil => exact Iff.rfl
  | cons a as ih => exact and_congr_right fun _ => ih

@[simp] theorem controlled_collect {f : σ → α → List β} :
    (m.controlled allows goesOn).collect (fun p a => f p.1 a) p as = m.collect f p.1 as := by
  induction as generalizing p with
  | nil => rfl
  | cons a as ih => exact congrArg (f p.1 a ++ ·) ih

end Control

/-! ## A machine under a side condition -/

/-- The machine whose runs keep to `P`. -/
def restrict (P : σ → α → Prop) : Machine σ α where
  enabled s a := m.enabled s a ∧ P s a
  next := m.next

variable {m} in
@[simp] theorem restrict_run (P : σ → α → Prop) (s : σ) (as : List α) :
    (m.restrict P).run s as = m.run s as := rfl

variable {m} in
theorem restrict_along (P Q : σ → α → Prop) (s : σ) (as : List α) :
    (m.restrict P).Along Q s as ↔ m.Along Q s as := by
  induction as generalizing s with
  | nil => exact Iff.rfl
  | cons a as ih => exact and_congr_right fun _ => ih _

variable {m} in
@[simp] theorem restrict_collect (P : σ → α → Prop) (f : σ → α → List β) (s : σ) (as : List α) :
    (m.restrict P).collect f s as = m.collect f s as := by
  induction as generalizing s with
  | nil => rfl
  | cons a as ih => exact congrArg (f s a ++ ·) (ih _)

variable {m} in
/-- Its valid runs are those of the machine along which `P` holds. -/
theorem restrict_valid (P : σ → α → Prop) (s : σ) (as : List α) :
    (m.restrict P).Valid s as ↔ m.Valid s as ∧ m.Along P s as :=
  (restrict_along P _ s as).trans along_and

/-! ## Reachable states -/

/-- The states a valid run leads to from a state `init` allows. -/
def Reachable (init : σ → Prop) (s : σ) : Prop :=
  ∃ s₀ as, init s₀ ∧ m.Valid s₀ as ∧ m.run s₀ as = s

variable {m}

/-- An enabled action leads from one reachable state to another. -/
theorem Reachable.next {init : σ → Prop} {s : σ} {a : α} (h : m.Reachable init s)
    (ha : m.enabled s a) : m.Reachable init (m.next s a) := by
  obtain ⟨s₀, as, h₀, hvalid, rfl⟩ := h
  exact ⟨s₀, as ++ [a], h₀, along_append.mpr ⟨hvalid, ha, trivial⟩, run_append ..⟩

/-- **The induction principle**: what holds at first and is kept by every enabled action holds of
every reachable state. -/
theorem Reachable.invariant {init I : σ → Prop} (hinit : ∀ s, init s → I s)
    (hstep : ∀ s a, I s → m.enabled s a → I (m.next s a)) {s : σ} (h : m.Reachable init s) :
    I s := by
  obtain ⟨s₀, as, h₀, hv, rfl⟩ := h
  exact hv.invariant hstep (hinit s₀ h₀)

end Machine

end Machinery
