import Pathwise.Proofs.Congruence
import Pathwise.Proofs.Reactions
import Pathwise.Proofs.Run

namespace Pathwise

namespace Resolution

/-- What is known about the inverse. -/
def dual : Resolution → Resolution
  | fulfilled => unfulfilled
  | unfulfilled => fulfilled
  | undetermined => undetermined

@[simp] theorem isDetermined_dual (a : Resolution) : a.dual.isDetermined = a.isDetermined := by
  cases a <;> rfl

end Resolution

namespace Relation

variable {r s : Relation}

theorem inverse_inverse (r : Relation) : r.inverse.inverse = r := by
  simp only [inverse, Kind.inverse_inverse]

theorem inverse_equiv_iff : r.inverse ≈ s.inverse ↔ r ≈ s := by
  refine ⟨fun h => ?_, inverse_equiv⟩
  have h := inverse_equiv h
  rwa [inverse_inverse, inverse_inverse] at h

theorem equiv_inverse_iff : r ≈ s.inverse ↔ r.inverse ≈ s := by
  rw [← inverse_equiv_iff, inverse_inverse]

theorem not_inverse_equiv (r : Relation) : ¬ r.inverse ≈ r := by
  intro h
  have hk : r.kind.inverse = r.kind := (Value.relational_equiv_iff.1 (toValue_equiv_iff.2 h)).1
  cases hr : r.kind <;> simp [hr, Kind.inverse] at hk

theorem Kind.resolve_inverse (known checked : Kind) (swapped : Bool) :
    known.resolve checked.inverse swapped = (known.resolve checked swapped).dual := by
  cases known <;> cases checked <;> cases swapped <;> rfl

theorem implies_inverse (r s : Relation) : r.implies s.inverse = (r.implies s).dual := by
  simp only [implies, equiv_inverse_iff, inverse_inverse]
  by_cases hsame : r ≈ s
  · -- the same relation is not the inverse one as well
    have hinverse : ¬ r.inverse ≈ s := fun h =>
      not_inverse_equiv r (Setoid.trans h (Setoid.symm hsame))
    rw [if_neg hinverse, if_pos hsame, if_pos hsame]
    rfl
  · rw [if_neg hsame, if_neg hsame]
    by_cases hinverse : r.inverse ≈ s
    · rw [if_pos hinverse, if_pos hinverse]
      rfl
    · rw [if_neg hinverse, if_neg hinverse, apply_ite Resolution.dual, ← Kind.resolve_inverse]
      rfl

theorem isReflexive_inverse (r : Relation) : r.inverse.isReflexive = r.isReflexive := rfl

theorem resolve_inverse (r : Relation) (known : Relations) :
    r.inverse.resolve known = (r.resolve known).dual := by
  rw [resolve, resolve, isReflexive_inverse]
  by_cases hrefl : r.isReflexive
  · rw [if_pos hrefl, if_pos hrefl]
    cases hk : r.kind <;> simp only [inverse, hk] <;> rfl
  · rw [if_neg hrefl, if_neg hrefl]
    -- the inverse is decided by the same known relation
    have hmap : (known.toList.map fun s => s.implies r.inverse) =
        (known.toList.map fun s => s.implies r).map Resolution.dual := by
      simp only [List.map_map, Function.comp_def, implies_inverse]
    rw [hmap, List.find?_map]
    simp only [Function.comp_def, Resolution.isDetermined_dual]
    cases (known.toList.map fun s => s.implies r).find? Resolution.isDetermined <;> rfl

/-- Ruled out whatever is known. -/
def Absurd (r : Relation) : Prop := ∀ known : Relations, r.resolve known = .unfulfilled

theorem Absurd.congr (h : r.Absurd) (hrs : r ≈ s) : s.Absurd :=
  fun known => resolve_congr hrs known ▸ h known

theorem absurd_of_isReflexive {known : Relations} (hrefl : r.isReflexive)
    (h : r.resolve known = .unfulfilled) : r.Absurd := by
  intro known'
  rw [resolve, if_pos hrefl] at h ⊢
  exact h

end Relation

/-- No known relation rules out another. -/
def Relations.Concordant (known : Relations) : Prop :=
  ∀ q ∈ known.toList, ∀ r ∈ known.toList, q.implies r ≠ .unfulfilled

instance (known : Relations) : Decidable known.Concordant :=
  inferInstanceAs (Decidable (∀ q ∈ known.toList, ∀ r ∈ known.toList, q.implies r ≠ .unfulfilled))

theorem Relations.Concordant.isReflexive {known : Relations} (hknown : known.Concordant)
    {r : Relation} (hr : known.has r) (h : r.resolve known = .unfulfilled) : r.isReflexive := by
  refine Decidable.byContradiction fun hrefl => ?_
  obtain ⟨q, hq, himplies⟩ := Relation.exists_implies_of_resolve hrefl rfl h
  obtain ⟨s, hs, hsr⟩ := has_iff.1 hr
  rw [← Relation.implies_congr hsr] at himplies
  exact hknown q hq s hs himplies

namespace State

variable {s : State}

/-- The states that come of the empty one by assumptions, and by changes after which no more
relations are known than before. -/
inductive Inferred : State → Prop
  | empty : Inferred .empty
  | change {s t : State} : Inferred s → (∀ r, t.relations.has r → s.relations.has r) → Inferred t
  | assume {s t : State} {v : Value} {c : Constraint} {budget : Budget} {states : List State} :
      Inferred s → v.assume c budget s = .ok states → t ∈ states → Inferred t

def Sober (s : State) : Prop := ∀ r, s.relations.has r → ¬ r.Absurd

theorem additive_sober : Additive (fun _ => True) Sober where
  operand _ _ := trivial
  constrain hs _ h := by
    unfold Sober
    rwa [relations_of_constrain? h]

theorem Sober.release (hs : s.Sober) (v : Value) (d : Domain) : (s.release v d).Sober := by
  unfold Sober
  rwa [relations_release]

theorem Sober.learn (hs : s.Sober) {r : Relation} (hr : ¬ r.Absurd) : (s.learn r).Sober := by
  intro q hq habsurd
  rcases Relations.has_insert.1 hq with hrq | hq
  · exact hr (habsurd.congr (Setoid.symm hrq))
  · exact hs q hq habsurd

end State

open Outcomes State

/-- What is recorded is not ruled out by what is known, so it is not absurd. -/
theorem Relation.assumeHolds_sober {assume : Value → Constraint → State → Outcomes}
    (hassume : ∀ v c, Preserves Sober (assume v c)) (budget : Budget) (r : Relation) :
    Preserves Sober (r.assumeHolds assume budget) := by
  intro s states hs h
  rcases assumeHolds_cases h with ⟨_, rfl⟩ | ⟨found, _, ⟨_, rfl⟩ | ⟨hopen, h⟩⟩
  · simpa using hs
  · exact nofun
  · refine Preserves.foldlM (fun i hi => ?_) (by simpa using hs) h
    have hi : ¬ i.Absurd := fun habsurd => hopen i hi (habsurd _)
    exact record_preserves_of_learn (P := fun _ => True) (·.learn hi) (fun hs _ => hs.release _ _)
      (fun v c _ => hassume v c) trivial trivial

theorem Value.assumeAt_sober (budget : Budget) (levels : Nat) (v : Value) (c : Constraint) :
    Preserves Sober (v.assumeAt budget levels c) := by
  induction levels generalizing v c with
  | zero =>
    exact assumeWith_preserves additive_sober (fun _ _ _ _ _ _ _ heq => by contradiction) trivial c
  | succ levels ih =>
    refine assumeWith_preserves additive_sober (fun r b _ _ => ?_) trivial c
    cases b with
    | true => exact r.assumeHolds_sober ih budget
    | false => exact r.inverse.assumeHolds_sober ih budget

theorem State.Inferred.sober {s : State} (h : s.Inferred) : s.Sober := by
  induction h with
  | empty => exact fun r hr => by contradiction
  | change _ hsub ih => exact fun r hr => ih r (hsub r hr)
  | assume _ hstates ht ih => exact Value.assumeAt_sober _ _ _ _ ih hstates _ ht

theorem State.durable_inferred : Durable (fun _ => True) Inferred where
  known _ _ := ⟨trivial, trivial⟩
  constrain hs _ h := hs.change fun _ hr => relations_of_constrain? h ▸ hr
  release hs _ := hs.change fun _ hr => by rwa [relations_release] at hr
  assume _ _ _ _ _ hs hstates _ ht := hs.assume hstates ht
  stacked _ _ := trivial
  bound _ _ := trivial
  constants := ⟨trivial, trivial, trivial⟩
  relational _ _ := trivial
  drop _ hs := hs.change fun _ hr => hr
  push hs _ := hs.change fun _ hr => hr
  put hs _ := hs.change fun _ hr => hr

theorem Exploration.Reached.inferred {detectors : List Detector} {o : Options} {flow : ControlFlow}
    {done : List NodeId} {x : Exploration} {failure? : Option Failure}
    (h : Reached detectors o flow done x failure?)
    (hdetectors : ∀ d ∈ detectors, d.Keeps Inferred) :
    ∀ id n, x.graph.node? id = some n → n.state.Inferred := by
  have hstart : (State.initial flow.parameters {}).1.Inferred :=
    State.initial_induction (I := fun _ s _ => s.Inferred) .empty
      (fun _ _ _ hs => hs.change fun _ hr => hr) flow.parameters
  refine h.forall_node (J := fun _ s => s.Inferred) hstart (fun hs => ⟨?_, ?_⟩) ?_
  · refine hs.change fun r hr => ?_
    obtain ⟨q, hq, hqr⟩ := Relations.has_iff.1 hr
    exact Relations.has_iff.2 ⟨q, (List.mem_filter.1 hq).1, hqr⟩
  · exact hs.change fun _ hr => hr
  · intro p s t supply element successors left hs _ hadjusted hyields
    obtain ⟨made, _, hkept⟩ := hyields.served
    exact hkept durable_inferred (hadjusted.kept hdetectors hs) (fun _ _ => trivial)
      fun hadjusted => hadjusted.kept hdetectors

/-- All states of an exploration are inferred, with any detectors that can be asked for. -/
theorem Exploration.inferred_of_setUpAll {first : Nat} {choices : List Detector.Choice}
    {detectors : List Detector} (hsetUp : Detector.Choice.setUpAll first choices = .ok detectors)
    {o : Options} {flow : ControlFlow} {done : List NodeId} {x : Exploration}
    {failure? : Option Failure} (h : Reached detectors o flow done x failure?) :
    ∀ id n, x.graph.node? id = some n → n.state.Inferred := by
  refine h.inferred fun d hd => ?_
  obtain ⟨c, id, hc⟩ := Detector.Choice.exists_setUp hsetUp hd
  exact Detector.Choice.keeps durable_inferred.toExposed hc

namespace Relation

theorem not_has_of_unfulfilled {r : Relation} {s : State} (hs : s.relations.Concordant)
    (hinferred : r.isReflexive → s.Inferred) (h : r.resolve s.relations = .unfulfilled) :
    ¬ s.relations.has r := by
  intro hknown
  have hrefl := hs.isReflexive hknown h
  exact (hinferred hrefl).sober r hknown (absurd_of_isReflexive hrefl h)

theorem assumeHolds_of_unfulfilled {assume : Value → Constraint → State → Outcomes}
    {budget : Budget} {r : Relation} {s : State} (hnew : ¬ s.relations.has r)
    (h : r.resolve s.relations = .unfulfilled) :
    r.assumeHolds assume budget s = (r.closure s.relations budget).map fun _ => [] := by
  rw [assumeHolds, if_neg hnew]
  cases r.closure s.relations budget with
  | error f => rfl
  | ok found =>
    have hany : (found.insert r).toList.any fun i => i.resolve s.relations == .unfulfilled :=
      List.any_eq_true.2 ⟨r, Relations.mem_insert_self found r, by rw [h]; rfl⟩
    exact if_pos hany

/-- What is known about a relation is the opposite of what is known about its inverse. Where no known
relation rules out another, assuming what is known to be wrong leaves no state, or fails as its
closure does, by running out of budget. A relation of a value with itself is decided whatever is
known, so for those the state has to be inferred, as every explored state is: a value that differs
from itself is known in none. -/
theorem resolve_inverse_and_assume :
    (∀ (r : Relation) (known : Relations), r.inverse.resolve known = (r.resolve known).dual) ∧
    ∀ (s : State) (r : Relation) (budget : Budget), s.relations.Concordant →
      (r.isReflexive → s.Inferred) →
        (s.resolve r = .fulfilled →
          r.assume false budget s = (r.inverse.closure s.relations budget).map fun _ => []) ∧
        (s.resolve r = .unfulfilled →
          r.assume true budget s = (r.closure s.relations budget).map fun _ => []) := by
  refine ⟨resolve_inverse, fun s r budget hs hinferred => ⟨fun h => ?_, fun h => ?_⟩⟩
  · obtain ⟨levels, hassume⟩ := r.exists_assume_eq false budget s
    have hinverse : r.inverse.resolve s.relations = .unfulfilled := by
      rw [resolve_inverse, show r.resolve s.relations = .fulfilled from h]
      rfl
    rw [hassume]
    exact assumeHolds_of_unfulfilled (not_has_of_unfulfilled hs hinferred hinverse) hinverse
  · obtain ⟨levels, hassume⟩ := r.exists_assume_eq true budget s
    rw [hassume]
    exact assumeHolds_of_unfulfilled (not_has_of_unfulfilled hs hinferred h) h

def unmatched : State := (State.empty.put "x" (.simple 3)).put "y" (.simple 4)

def matched : State := unmatched.learn ⟨.equal, .simple 3, .simple 4⟩

theorem matched_inferred : matched.Inferred := by
  have hunmatched : unmatched.Inferred := .change .empty fun _ h => h
  have hassume : (Relation.assume ⟨.equal, .simple 3, .simple 4⟩ true {} unmatched).toOption =
      some [matched] := by
    decide +kernel
  exact hunmatched.assume (eq_ok_of_toOption hassume) (.head _)

theorem resolve_inverse_and_assume_matched :
    matched.resolve ⟨.valueEqual, .simple 4, .simple 3⟩ = .fulfilled ∧
    Relation.assume ⟨.valueEqual, .simple 4, .simple 3⟩ false {} matched = .ok [] ∧
    matched.resolve ⟨.lessThan, .simple 3, .simple 3⟩ = .unfulfilled ∧
    Relation.assume ⟨.lessThan, .simple 3, .simple 3⟩ true {} matched = .ok [] := by
  have hconcordant : matched.relations.Concordant := by decide +kernel
  have hequal : matched.resolve ⟨.valueEqual, .simple 4, .simple 3⟩ = .fulfilled := by
    decide +kernel
  have hless : matched.resolve ⟨.lessThan, .simple 3, .simple 3⟩ = .unfulfilled := by
    decide +kernel
  have hrefuses := fun r => resolve_inverse_and_assume.2 matched r {} hconcordant
    fun _ => matched_inferred
  refine ⟨hequal, ?_, hless, ?_⟩
  · rw [(hrefuses _).1 hequal]
    rfl
  · rw [(hrefuses _).2 hless]
    rfl

/-- A state that knew a value to differ from itself would go on knowing it. -/
example :
    let s := State.empty.learn ⟨.notEqual, .simple 3, .simple 3⟩
    s.relations.Concordant ∧ s.resolve ⟨.notEqual, .simple 3, .simple 3⟩ = .unfulfilled ∧
      (Relation.assume ⟨.notEqual, .simple 3, .simple 3⟩ true {} s).toOption = some [s] := by
  decide +kernel

end Relation

end Pathwise
