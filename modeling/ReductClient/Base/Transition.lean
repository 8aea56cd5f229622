-- SUMMARY: Reachability in a transition system: the invariant rule, stuttering simulation, and runs of deterministic systems.
import Mathlib.Logic.Relation

/-! # Transition systems

A transition system is a step relation on a type of states. A run is the
reflexive and transitive closure of the relation. -/

namespace Transition

variable {σ τ : Type*} {Step : σ → σ → Prop} {Step' : τ → τ → Prop}

/-- `t` is reached from `s` in finitely many steps. -/
abbrev Reaches (Step : σ → σ → Prop) : σ → σ → Prop := Relation.ReflTransGen Step

/-- What holds at the start and is preserved by each step holds in every state
reached. -/
theorem invariant (Inv : σ → Prop) (hstep : ∀ s t, Inv s → Step s t → Inv t) {s t : σ}
    (h : Reaches Step s t) (hs : Inv s) : Inv t := by
  induction h with
  | refl => exact hs
  | tail _ hst ih => exact hstep _ _ ih hst

/-- A relation that lets one system follow each step of another in finitely many
steps lets it follow every run. -/
theorem simulation (R : σ → τ → Prop)
    (hstep : ∀ s t s', R s s' → Step s t → ∃ t', Reaches Step' s' t' ∧ R t t') {s t : σ} {s' : τ}
    (h : Reaches Step s t) (hs : R s s') : ∃ t', Reaches Step' s' t' ∧ R t t' := by
  induction h with
  | refl => exact ⟨s', .refl, hs⟩
  | tail _ hst ih =>
    obtain ⟨u', hrun, hu⟩ := ih
    obtain ⟨t', hrun', ht⟩ := hstep _ _ _ hu hst
    exact ⟨t', hrun.trans hrun', ht⟩

/-- The state has no successor. -/
def Stuck (Step : σ → σ → Prop) (s : σ) : Prop := ∀ t, ¬ Step s t

/-- Where every step makes a measure smaller, every state comes to an end. -/
theorem exists_stuck (measure : σ → Nat) (hstep : ∀ s t, Step s t → measure t < measure s) (s : σ) :
    ∃ t, Reaches Step s t ∧ Stuck Step t := by
  induction hn : measure s using Nat.strongRecOn generalizing s with
  | ind n ih =>
    by_cases hs : Stuck Step s
    · exact ⟨s, .refl, hs⟩
    · obtain ⟨t, ht⟩ := Classical.not_forall_not.1 hs
      obtain ⟨u, hu, hstuck⟩ := ih (measure t) (hn ▸ hstep s t ht) t rfl
      exact ⟨u, .head ht hu, hstuck⟩

/-! ## Bounded runs -/

/-- A run of the given number of steps. -/
inductive RunsFor (Step : σ → σ → Prop) : Nat → σ → σ → Prop where
  | refl {s : σ} : RunsFor Step 0 s s
  | head {n : Nat} {s t u : σ} (hst : Step s t) (htu : RunsFor Step n t u) :
      RunsFor Step (n + 1) s u

/-- Where every step makes a measure smaller, it bounds the number of steps. -/
theorem RunsFor.le_measure {Inv : σ → Prop} {measure : σ → Nat}
    (hstep : ∀ s t, Inv s → Step s t → Inv t ∧ measure t < measure s) {n : Nat} {s t : σ}
    (h : RunsFor Step n s t) (hs : Inv s) : n ≤ measure s := by
  induction h with
  | refl => exact Nat.zero_le _
  | head hst _ ih =>
    obtain ⟨ht, hlt⟩ := hstep _ _ hs hst
    exact Nat.lt_of_le_of_lt (ih ht) hlt

/-! ## Deterministic systems -/

/-- Each state has at most one successor. -/
abbrev Deterministic (Step : σ → σ → Prop) : Prop := Relator.RightUnique Step

theorem Stuck.eq_of_reaches {s t : σ} (hs : Stuck Step s) (h : Reaches Step s t) : t = s := by
  induction h with
  | refl => rfl
  | tail _ hst ih => subst ih; exact absurd hst (hs _)

/-- A run that has not come to the final state can still come to it. -/
theorem reaches_stuck (hdet : Deterministic Step) {s t u : σ}
    (ht : Reaches Step s t) (hu : Reaches Step s u) (hstuck : Stuck Step u) :
    Reaches Step t u := by
  rcases Relation.ReflTransGen.total_of_right_unique hdet ht hu with h | h
  · exact h
  · exact hstuck.eq_of_reaches h ▸ .refl

/-- A deterministic system has at most one final state. -/
theorem stuck_unique (hdet : Deterministic Step) {s t u : σ}
    (ht : Reaches Step s t) (hts : Stuck Step t) (hu : Reaches Step s u)
    (hus : Stuck Step u) : t = u :=
  (hts.eq_of_reaches (reaches_stuck hdet ht hu hus)).symm

/-- A state that only steps to itself is left by no run. -/
theorem eq_of_reaches_loop {s t : σ} (hloop : ∀ u, Step s u → u = s)
    (h : Reaches Step s t) : t = s := by
  induction h with
  | refl => rfl
  | tail _ hst ih => subst ih; exact hloop _ hst

end Transition
