import Mathlib.Data.List.Forall2
import Pathwise.Proofs.Congruence

namespace Pathwise

theorem Value.forall₂_equiv_iff {vs ws : List Value} :
    List.Forall₂ (· ≈ ·) vs ws ↔ vs.map normal = ws.map normal := by
  rw [← List.forall₂_eq_eq_eq, List.forall₂_map_left_iff, List.forall₂_map_right_iff]
  rfl

namespace State

inductive Changed : State → State → Prop
  | push (s v) : Changed s (s.push v)
  | pop {s t v} : s.pop = .ok (t, v) → Changed s t
  | unstack {s n t vs} : s.unstack n = .ok (t, vs) → Changed s t
  | put (s var v) : Changed s (s.put var v)
  | constrain {s v c t} : s.constrain? v c = some t → Changed s t
  | constrainEqual {s v c t} : s.constrainEqual? v c = some t → Changed s t
  | release (s v d) : Changed s (s.release v d)
  | learn (s r) : Changed s (s.learn r)
  | exitWith (s v) : Changed s (s.exitWith v)
  | visit (s p) : Changed s (s.visit p)
  | cleanup (s) : Changed s s.cleanup

/-- The states that come of the empty one by any sequence of operations. -/
inductive Built : State → Prop
  | empty : Built .empty
  | change {s t} : Built s → Changed s t → Built t

/-- No entry is without constraints. -/
def Substantial (s : State) : Prop := ∀ e ∈ s.constraints.toList, e.2.toList ≠ []

section

variable {s t : State} {v : Value} {c : Constraint}

theorem Substantial.insert (h : s.Substantial) {held : ConstraintSet} (hheld : held.toList ≠ []) :
    Substantial { s with constraints := s.constraints.insert (v, held) } := by
  intro e he
  rcases Keyed.mem_insert_iff.1 he with rfl | ⟨he, _⟩
  · exact hheld
  · exact h e he

theorem Substantial.filter (h : s.Substantial) (p : Value × ConstraintSet → Bool)
    (relations : Relations) :
    Substantial { s with constraints := s.constraints.filter p, relations } :=
  fun e he => h e (List.mem_filter.1 he).1

theorem Substantial.constrain (h : s.Substantial) (ht : s.constrain? v c = some t) :
    t.Substantial := by
  unfold constrain? at ht
  dsimp only at ht
  split at ht
  next =>
    obtain ⟨_, rfl⟩ := Option.ite_some_none_eq_some.1 ht
    exact h
  next =>
    cases ht
    exact h.insert (List.ne_nil_of_mem (Keyed.mem_insert_iff.2 (.inl rfl)))

theorem Substantial.release (h : s.Substantial) (v : Value) (d : Domain) :
    (s.release v d).Substantial := by
  unfold State.release
  split
  next => exact h
  next held _ =>
    dsimp only
    split
    next => exact h.filter _ s.relations
    next hne => exact h.insert fun hnil => hne (List.isEmpty_iff.2 hnil)

theorem Substantial.change (h : s.Substantial) (hst : Changed s t) : t.Substantial := by
  cases hst with
  | push | put | learn | exitWith | visit => exact h
  | pop hpop =>
    unfold State.pop at hpop
    split at hpop <;> cases hpop
    exact h
  | unstack hunstack =>
    unfold State.unstack at hunstack
    split at hunstack <;> cases hunstack
    exact h
  | constrain hc => exact h.constrain hc
  | constrainEqual hc =>
    exact foldlM_constrain?_induction (I := Substantial) (fun _ hs => hs.constrain) h hc
  | release => exact h.release _ _
  | cleanup => exact h.filter _ _

theorem Built.substantial (h : Built s) : s.Substantial := by
  induction h with
  | empty =>
    unfold Substantial
    decide
  | change _ hst ih => exact ih.change hst

theorem Substantial.constraintsOf?_eq_none (ht : t.Substantial)
    (h : ∀ d, t.constraint? v d = none) : t.constraintsOf? v = none := by
  cases hheld : t.constraintsOf? v with
  | none => rfl
  | some held =>
    obtain ⟨e, he, _, rfl⟩ := constraintsOf?_eq_some.1 hheld
    obtain ⟨c, hc⟩ := List.exists_mem_of_ne_nil _ (ht e he)
    cases (h c.domain).symm.trans (mem_held hheld hc)

theorem Substantial.constraintsOf?_eq (hs : s.Substantial) (ht : t.Substantial)
    (h : ∀ d, s.constraint? v d = t.constraint? v d) : s.constraintsOf? v = t.constraintsOf? v := by
  cases hsv : s.constraintsOf? v with
  | none =>
    refine (ht.constraintsOf?_eq_none fun d => ?_).symm
    rw [← h d, constraint?, hsv]
    rfl
  | some held =>
    cases htv : t.constraintsOf? v with
    | none =>
      rw [← hsv]
      refine hs.constraintsOf?_eq_none fun d => ?_
      rw [h d, constraint?, htv]
      rfl
    | some held' =>
      refine congrArg some (Keyed.ext_find? fun d => ?_)
      have hd := h d
      rw [constraint?, hsv, constraint?, htv] at hd
      exact hd

end

/-- All questions about stack, variables, constraints, relations and exception have the same answers
in both states, up to equivalence of values. -/
structure Indistinct (s t : State) : Prop where
  stack : List.Forall₂ (· ≈ ·) s.stack t.stack
  vars : ∀ name, (s.value? name).Rel (· ≈ ·) (t.value? name)
  constraints : ∀ v d, s.constraint? v d = t.constraint? v d
  relations : ∀ r, s.relations.has r ↔ t.relations.has r
  exit : s.exit?.Rel (· ≈ ·) t.exit?

theorem Substantial.equiv_iff {s t : State} (hs : s.Substantial) (ht : t.Substantial) :
    s ≈ t ↔ s.Indistinct t := by
  constructor
  · intro h
    exact ⟨Value.forall₂_equiv_iff.2 h.1, vars_same_iff.1 h.2.1, constraint?_of_equiv h,
      fun _ => has_of_equiv h, Value.rel_equiv_iff.2 h.2.2.2.2⟩
  · rintro ⟨hstack, hvars, hconstraints, hrelations, hexit⟩
    refine ⟨Value.forall₂_equiv_iff.1 hstack, vars_same_iff.2 hvars, ?_,
      relations_same_iff.2 hrelations, Value.rel_equiv_iff.1 hexit⟩
    exact constraints_same_iff.2 fun v => hs.constraintsOf?_eq ht (hconstraints v)

/-- States that were built by any operations are the same just if nothing that can be asked about
them tells them apart, however often their paths went through any point; and no value is left with
an empty set of constraints. -/
theorem built_equiv_iff_indistinct {s t : State} (hs : Built s) (ht : Built t) :
    (s ≈ t ↔ s.Indistinct t) ∧ s.Substantial ∧ t.Substantial :=
  ⟨hs.substantial.equiv_iff ht.substantial, hs.substantial, ht.substantial⟩

def tied : State :=
  (((empty.put "x" (.simple 3)).put "y" (.simple 4)).learn
    ⟨.equal, .simple 3, .simple 4⟩).constrain (.simple 3) .null

/-- As `tied`, in another order, with a constraint that is dropped again and an equality that is
written the other way round. -/
def tiedAgain : State :=
  ((((((empty.constrain (.simple 4) .notNull).learn ⟨.equal, .simple 4, .simple 3⟩).constrain
    (.simple 3) .null).release (.simple 4) .object).put "y" (.simple 4)).put "x"
      (.simple 3)).cleanup.visit ⟨0, 0⟩

theorem built_equiv_iff_indistinct_tied :
    Built tied ∧ Built tiedAgain ∧ tied.visits ≠ tiedAgain.visits ∧
      tied.Indistinct tiedAgain := by
  have hleft : Built tied := by
    refine .change (.change (.change (.change .empty (.put _ "x" (.simple 3)))
      (.put _ "y" (.simple 4))) (.learn _ ⟨.equal, .simple 3, .simple 4⟩)) ?_
    exact .constrain (v := .simple 3) (c := .null) rfl
  have hright : Built tiedAgain := by
    have hnotNull : Built (empty.constrain (.simple 4) .notNull) :=
      .change .empty (.constrain (v := .simple 4) (c := .notNull) rfl)
    have hnull : Built (((empty.constrain (.simple 4) .notNull).learn
        ⟨.equal, .simple 4, .simple 3⟩).constrain (.simple 3) .null) :=
      .change (.change hnotNull (.learn _ _)) (.constrain (v := .simple 3) (c := .null) rfl)
    exact .change (.change (.change (.change (.change hnull (.release _ _ _)) (.put _ _ _))
      (.put _ _ _)) (.cleanup _)) (.visit _ _)
  refine ⟨hleft, hright, by decide, ?_⟩
  exact (built_equiv_iff_indistinct hleft hright).1.1 (by decide)

end State

end Pathwise
