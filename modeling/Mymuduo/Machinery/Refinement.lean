import Mathlib.Tactic.Common

/-!
# Machinery/Refinement — a component refines its specification

A component performs operations on a state and returns a result, or goes wrong (`none`); its
specification is a total function on an abstract state.  `Refines` asks for one square per
operation — from a state that keeps the invariant, an operation whose precondition holds does not
go wrong and commutes with the abstraction — and `Refines.perform` pastes the squares along any
sequence of operations.
-/

namespace Machinery

variable {σ ρ ω ο : Type*}

/-- The results of a sequence of operations and the state it ends in, unless one goes wrong. -/
def perform (step : σ → ω → Option (ο × σ)) : σ → List ω → Option (List ο × σ)
  | s, [] => some ([], s)
  | s, o :: os => do
      let (r, s) ← step s o
      let (rs, s) ← perform step s os
      return (r :: rs, s)

/-- The results and the end state that a specification gives. -/
def prescribe (spec : ρ → ω → ο × ρ) : ρ → List ω → List ο × ρ
  | q, [] => ([], q)
  | q, o :: os => ((spec q o).1 :: (prescribe spec (spec q o).2 os).1,
      (prescribe spec (spec q o).2 os).2)

/-- Every operation meets its precondition in the state it is issued in. -/
def Meets (step : σ → ω → Option (ο × σ)) (pre : σ → ω → Prop) : σ → List ω → Prop
  | _, [] => True
  | s, o :: os => pre s o ∧ (step s o).elim True fun p => Meets step pre p.2 os

instance Meets.decidable (step : σ → ω → Option (ο × σ)) (pre : σ → ω → Prop)
    [∀ s o, Decidable (pre s o)] : ∀ (s : σ) (os : List ω), Decidable (Meets step pre s os)
  | _, [] => isTrue trivial
  | s, o :: os =>
      have : Decidable ((step s o).elim True fun p => Meets step pre p.2 os) :=
        match step s o with
        | none => isTrue trivial
        | some p => Meets.decidable step pre p.2 os
      inferInstanceAs (Decidable (pre s o ∧ (step s o).elim True fun p => Meets step pre p.2 os))

/-- **One square per operation**: it does not go wrong, keeps the invariant, and commutes with the
abstraction. -/
def Refines (step : σ → ω → Option (ο × σ)) (pre : σ → ω → Prop) (inv : σ → Prop)
    (abs : σ → ρ) (spec : ρ → ω → ο × ρ) : Prop :=
  ∀ s o, inv s → pre s o →
    ∃ r s', step s o = some (r, s') ∧ inv s' ∧ spec (abs s) o = (r, abs s')

/-- **The squares paste**: a sequence of operations that meet their preconditions returns what the
specification prescribes and ends in a state that abstracts to the prescribed one. -/
theorem Refines.perform {step : σ → ω → Option (ο × σ)} {pre : σ → ω → Prop} {inv : σ → Prop}
    {abs : σ → ρ} {spec : ρ → ω → ο × ρ} (h : Refines step pre inv abs spec) {os : List ω} :
    ∀ {s : σ}, inv s → Meets step pre s os →
      ∃ rs s', Machinery.perform step s os = some (rs, s') ∧ inv s' ∧
        prescribe spec (abs s) os = (rs, abs s') := by
  induction os with
  | nil => exact fun {s} hs _ => ⟨[], s, rfl, hs, rfl⟩
  | cons o os ih =>
    intro s hs hm
    obtain ⟨r, s₁, hstep, hs₁, hspec⟩ := h s o hs hm.1
    have hrest : Meets step pre s₁ os := by simpa [Meets, hstep] using hm.2
    obtain ⟨rs, s₂, hperf, hs₂, hpre⟩ := ih hs₁ hrest
    refine ⟨r :: rs, s₂, ?_, hs₂, ?_⟩
    · simp [Machinery.perform, hstep, hperf]
    · simp [prescribe, hspec, hpre]

/-! ## Runs that may go wrong -/

variable {step : σ → ω → Option (ο × σ)} {pre : σ → ω → Prop} {s s' : σ} {os os' : List ω}
  {rs : List ο}

/-- The first operations of a sequence meet what the whole sequence meets. -/
theorem Meets.of_prefix (h : Meets step pre s (os ++ os')) : Meets step pre s os := by
  induction os generalizing s with
  | nil => trivial
  | cons o os ih =>
    refine ⟨h.1, ?_⟩
    have hrest := h.2
    cases hstep : step s o with
    | none => trivial
    | some p =>
      rw [hstep] at hrest
      exact ih hrest

/-- A precondition that always holds is met by every sequence. -/
theorem Meets.of_forall (hpre : ∀ s o, pre s o) : Meets step pre s os := by
  induction os generalizing s with
  | nil => trivial
  | cons o os ih =>
    refine ⟨hpre s o, ?_⟩
    cases step s o with
    | none => trivial
    | some p => exact ih

/-- **An invariant is kept as long as nothing goes wrong.** -/
theorem perform_invariant {I : σ → Prop}
    (hstep : ∀ s o r s', I s → pre s o → step s o = some (r, s') → I s')
    (hm : Meets step pre s os) (h : perform step s os = some (rs, s')) (hs : I s) : I s' := by
  induction os generalizing s rs with
  | nil =>
    obtain ⟨-, rfl⟩ := Prod.mk.inj (Option.some.inj h)
    exact hs
  | cons o os ih =>
    obtain ⟨⟨r, s₁⟩, hfirst, h⟩ := Option.bind_eq_some_iff.mp h
    obtain ⟨⟨rs₁, s₂⟩, hrest, h⟩ := Option.bind_eq_some_iff.mp h
    obtain ⟨-, rfl⟩ := Prod.mk.inj (Option.some.inj h)
    have hm₁ : Meets step pre s₁ os := by simpa [Meets, hfirst] using hm.2
    exact ih hm₁ hrest (hstep _ _ _ _ hs hm.1 hfirst)

/-- **A run that cannot go wrong reaches its last operation**, with the invariant. -/
theorem perform_last {I : σ → Prop} {o : ω}
    (hstep : ∀ s o, I s → pre s o → ∃ r s', step s o = some (r, s') ∧ I s') (hs : I s)
    (hm : Meets step pre s (os ++ [o])) :
    ∃ rs s', perform step s os = some (rs, s') ∧ I s' ∧ pre s' o := by
  induction os generalizing s with
  | nil => exact ⟨[], s, rfl, hs, hm.1⟩
  | cons o' os ih =>
    obtain ⟨r, s₁, hfirst, hs₁⟩ := hstep s o' hs hm.1
    have hm₁ : Meets step pre s₁ (os ++ [o]) := by simpa [Meets, hfirst] using hm.2
    obtain ⟨rs, s₂, hrest, hs₂, hpre⟩ := ih hs₁ hm₁
    exact ⟨r :: rs, s₂, by simp [perform, hfirst, hrest], hs₂, hpre⟩

end Machinery
