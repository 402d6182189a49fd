import Pathwise.Proofs.Admission
import Pathwise.Proofs.Deduction

namespace Pathwise

open Outcomes

structure Meaning where
  fits : Constraint → Datum → Prop
  truth_iff : ∀ {b d}, fits (.truth b) d ↔ d = .bool b
  unique : ∀ {c c' d}, fits c d → fits c' d → c.domain = c'.domain → c = c'
  /-- What is carried over from one operand of a comparison is true of the other. -/
  copy : ∀ {c c' k a b}, fits c (.int a) →
    k.decide? a b = some true ∨ k.decide? b a = some true → c.copyOver k = some c' →
      fits c' (.int b)

namespace Meaning

/-- Nullness and truth. Detectors' constraints are about no data. -/
def builtIn : Meaning where
  fits
    | .null, d => d = .null
    | .notNull, d => d ≠ .null
    | .truth b, d => d = .bool b
    | .custom _ _, _ => False
  truth_iff := Iff.rfl
  unique {c c' d} hc hc' hd := by
    cases c <;> cases c' <;> simp_all [Constraint.domain]
  copy {c c' k a b} hc hk h := by
    cases c with
    | notNull =>
      cases k with
      | equal =>
        cases h
        exact nofun
      | notEqual | greaterOrEqual | lessThan => contradiction
      | valueEqual | valueNotEqual => simp [Relation.Kind.decide?] at hk
    | null | truth | custom => contradiction

end Meaning

namespace State

variable {M : Meaning} {ρ : Valuation}

/-- What the state knows is true of the data that the ids stand for. -/
structure Models (M : Meaning) (ρ : Valuation) (s : State) : Prop where
  constraints : ∀ e ∈ s.constraints.toList,
    ∃ d, e.1.eval ρ = some d ∧ ∀ c ∈ e.2.toList, M.fits c d
  relations : ∀ r ∈ s.relations.toList, r.Holds ρ

theorem Models.held {s : State} (h : s.Models M ρ) {v : Value} {held : ConstraintSet} {d : Datum}
    (hheld : s.constraintsOf? v = some held) (hv : v.eval ρ = some d) :
    ∀ c ∈ held.toList, M.fits c d := by
  obtain ⟨e, he, hev, rfl⟩ := constraintsOf?_eq_some.1 hheld
  obtain ⟨d', hd', hfits⟩ := h.constraints e he
  rw [Value.eval_congr hev, hv] at hd'
  cases hd'
  exact hfits

theorem Models.constrain? {s : State} (h : s.Models M ρ) {v : Value} {c : Constraint} {d : Datum}
    (hv : v.eval ρ = some d) (hc : M.fits c d) :
    ∃ t, s.constrain? v c = some t ∧ t.Models M ρ := by
  have hheld : ∀ c' ∈ ((s.constraintsOf? v).getD ∅).toList, M.fits c' d := by
    cases hs : s.constraintsOf? v with
    | none => simp
    | some held => exact h.held hs hv
  unfold State.constrain?
  dsimp only
  split
  next c' hc' =>
    obtain ⟨hmem, hdomain⟩ := Keyed.find?_eq_some_iff.1 hc'
    have heq := M.unique (hheld c' hmem) hc (Std.LawfulEqCmp.compare_eq_iff_eq.1 hdomain)
    rw [if_pos heq]
    exact ⟨s, rfl, h⟩
  next =>
    refine ⟨_, rfl, fun e he => ?_, h.relations⟩
    rcases Keyed.mem_insert_iff.1 he with rfl | ⟨he, _⟩
    · refine ⟨d, hv, fun c' hc' => ?_⟩
      rcases Keyed.mem_insert_iff.1 hc' with rfl | ⟨hc', _⟩
      · exact hc
      · exact hheld c' hc'
    · exact h.constraints e he

theorem Models.learn {s : State} (h : s.Models M ρ) {r : Relation} (hr : r.Holds ρ) :
    (s.learn r).Models M ρ := by
  refine ⟨h.constraints, fun r' hr' => ?_⟩
  rcases Relations.mem_insert hr' with rfl | hr'
  · exact hr
  · exact h.relations r' hr'

end State

variable {M : Meaning} {ρ : Valuation}

theorem admits_models (M : Meaning) (ρ : Valuation) :
    Admits (fun v c => ∃ d, v.eval ρ = some d ∧ M.fits c d) (Relation.Holds ρ)
      (State.Models M ρ) where
  not := by
    rintro id v b ⟨d, hv, hd⟩
    cases M.truth_iff.1 hd
    obtain ⟨a, ha, hb⟩ := Value.eval_not_eq_some.1 hv
    cases hb
    rw [Bool.not_not]
    exact ⟨_, ha, M.truth_iff.2 rfl⟩
  binary := by
    rintro id op l r b ⟨d, hv, hd⟩
    cases M.truth_iff.1 hd
    obtain ⟨a, a', hl, hr, hb⟩ := Value.eval_binary_eq_some.1 hv
    cases hb
    exact ⟨a, a', ⟨_, hl, M.truth_iff.2 rfl⟩, ⟨_, hr, M.truth_iff.2 rfl⟩, rfl⟩
  relational := by
    rintro r b ⟨d, hv, hd⟩
    cases M.truth_iff.1 hd
    exact Relation.holds_of_eval hv
  constrain := by
    rintro s v c hs ⟨d, hv, hd⟩
    exact hs.constrain? hv hd
  known hs hr := hs.relations _ hr
  learn hs hr := hs.learn hr
  deduce hr hs h := Relation.deduce?_holds hr hs h
  resolve hs hr h := Relation.not_holds_of_resolve hs.relations h hr
  carry := by
    intro s r v w c c' hs hr hvw hc hcopy
    obtain ⟨a, b, hl, hr, hk⟩ := Relation.holds_iff.1 hr
    obtain ⟨held, hheld, hget⟩ := Option.bind_eq_some_iff.1 hc
    have hmem := Keyed.mem_toList_iff.2 hget
    rcases hvw with ⟨rfl, rfl⟩ | ⟨rfl, rfl⟩
    · exact ⟨.int b, hr, M.copy (hs.held hheld hl c hmem) (.inl hk) hcopy⟩
    · exact ⟨.int a, hl, M.copy (hs.held hheld hr c hmem) (.inr hk) hcopy⟩

/-- A valuation that agrees with a state and with an assumption agrees with an outcome. -/
theorem Value.assume_keeps {v : Value} {c : Constraint} {d : Datum} (hv : v.eval ρ = some d)
    (hc : M.fits c d) (budget : Budget) : Keeps (State.Models M ρ) (v.assume c budget) :=
  (admits_models M ρ).assume_keeps ⟨d, hv, hc⟩ budget

end Pathwise
