import Mymuduo.Machinery.Machine

/-!
# Machinery/Simulation — one machine seen as another

A **simulation** views every state of a machine as a state of a simpler one, and every action as the
list of actions it amounts to there: none where the simpler machine sees nothing, several where one
action does the work of many.  The squares paste along a run (`Simulation.run`), so a property of
the simpler machine's runs is one of the machine's.
-/

namespace Machinery

open Machine

variable {σ α σ' α' : Type*}

/-- A simulation of `m` by `m'`, under an invariant of `m`. -/
structure Simulation (m : Machine σ α) (m' : Machine σ' α') (I : σ → Prop) where
  view : σ → σ'
  label : σ → α → List α'
  keeps : ∀ s a, I s → m.enabled s a → I (m.next s a)
  allowed : ∀ s a, I s → m.enabled s a → m'.Valid (view s) (label s a)
  square : ∀ s a, I s → m.enabled s a → m'.run (view s) (label s a) = view (m.next s a)

namespace Simulation

variable {m : Machine σ α} {m' : Machine σ' α'} {I : σ → Prop}

/-- **The squares paste**: a valid run is viewed as a valid run, which ends in the view of its
end. -/
theorem run (sim : Simulation m m' I) {as : List α} : ∀ {s : σ}, I s → m.Valid s as →
    m'.Valid (sim.view s) (m.collect sim.label s as) ∧
      m'.run (sim.view s) (m.collect sim.label s as) = sim.view (m.run s as) := by
  induction as with
  | nil => exact fun _ _ => ⟨trivial, rfl⟩
  | cons a as ih =>
    intro s hs hvalid
    obtain ⟨hrest, hend⟩ := ih (sim.keeps s a hs hvalid.1) hvalid.2
    have hsquare := sim.square s a hs hvalid.1
    refine ⟨?_, ?_⟩
    · refine along_append.mpr ⟨sim.allowed s a hs hvalid.1, ?_⟩
      rw [hsquare]
      exact hrest
    · rw [collect_cons, run_append, hsquare, hend, run_cons]

/-- What holds of the simpler machine's reachable states holds of the views. -/
theorem view_reachable (sim : Simulation m m' I) {init : σ → Prop} {init' : σ' → Prop}
    (hinit : ∀ s, init s → I s ∧ init' (sim.view s)) {s : σ} (h : m.Reachable init s) :
    m'.Reachable init' (sim.view s) := by
  obtain ⟨s₀, as, h₀, hvalid, rfl⟩ := h
  obtain ⟨hI, hinit'⟩ := hinit s₀ h₀
  obtain ⟨hrun, hend⟩ := sim.run hI hvalid
  exact ⟨_, _, hinit', hrun, hend⟩

end Simulation

/-! ## Up to a relation

Where a state of the simpler machine remembers what the other one forgets, the view is a relation. -/

/-- A tracking of `m` by `m'`, for runs of `m` along which `P` holds. -/
structure Tracking (m : Machine σ α) (m' : Machine σ' α') (P : σ → α → Prop) (I : σ → Prop) where
  rel : σ → σ' → Prop
  label : σ → α → List α'
  keeps : ∀ s a, I s → P s a → I (m.next s a)
  follows : ∀ s t a, I s → P s a → rel s t →
    m'.Valid t (label s a) ∧ rel (m.next s a) (m'.run t (label s a))

namespace Tracking

variable {m : Machine σ α} {m' : Machine σ' α'} {P : σ → α → Prop} {I : σ → Prop}
  (tr : Tracking m m' P I) {as : List α}
include tr

/-- **A run is tracked by a valid run**, whose end is related to its end. -/
theorem run : ∀ {s : σ} {t : σ'}, I s → m.Along P s as → tr.rel s t →
    m'.Valid t (m.collect tr.label s as) ∧
      tr.rel (m.run s as) (m'.run t (m.collect tr.label s as)) := by
  induction as with
  | nil => exact fun _ _ hrel => ⟨trivial, hrel⟩
  | cons a as ih =>
    intro s t hs hP hrel
    obtain ⟨hvalid, hnext⟩ := tr.follows s t a hs hP.1 hrel
    obtain ⟨hrest, hend⟩ := ih (tr.keeps s a hs hP.1) hP.2 hnext
    refine ⟨along_append.mpr ⟨hvalid, hrest⟩, ?_⟩
    rw [collect_cons, run_append]
    exact hend

/-- What the actions of a run and those that track them contribute alike, the runs do. -/
theorem collect {β : Type*} {f : σ → α → List β} {g : σ' → α' → List β}
    (hfg : ∀ s t a, I s → P s a → tr.rel s t → m'.collect g t (tr.label s a) = f s a) :
    ∀ {s : σ} {t : σ'}, I s → m.Along P s as → tr.rel s t →
      m'.collect g t (m.collect tr.label s as) = m.collect f s as := by
  induction as with
  | nil => exact fun _ _ _ => rfl
  | cons a as ih =>
    intro s t hs hP hrel
    have hnext := (tr.follows s t a hs hP.1 hrel).2
    rw [collect_cons, collect_append, collect_cons, hfg s t a hs hP.1 hrel,
      ih (tr.keeps s a hs hP.1) hP.2 hnext]

/-- A condition on the actions that track is one on those that are tracked. -/
theorem along {Q : σ → α → Prop} {R : σ' → α' → Prop}
    (hQR : ∀ s t a, I s → P s a → tr.rel s t → Q s a → m'.Along R t (tr.label s a)) :
    ∀ {s : σ} {t : σ'}, I s → m.Along P s as → tr.rel s t → m.Along Q s as →
      m'.Along R t (m.collect tr.label s as) := by
  induction as with
  | nil => exact fun _ _ _ _ => trivial
  | cons a as ih =>
    intro s t hs hP hrel hQ
    have hnext := (tr.follows s t a hs hP.1 hrel).2
    exact along_append.mpr ⟨hQR s t a hs hP.1 hrel hQ.1,
      ih (tr.keeps s a hs hP.1) hP.2 hnext hQ.2⟩

end Tracking

end Machinery
