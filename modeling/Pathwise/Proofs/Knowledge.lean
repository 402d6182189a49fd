import Pathwise.Proofs.Constraints
import Pathwise.Proofs.Frame

namespace Pathwise

open Outcomes

namespace State

/-- `t` knows all that `s` knows, and has the rest in common with it. -/
structure Extends (s t : State) : Prop extends s.SameFrame t where
  constraint : ∀ {v d c}, s.constraint? v d = some c → t.constraint? v d = some c
  relation : ∀ {r}, s.relations.has r → t.relations.has r

variable {s t u : State} {v : Value} {c : Constraint} {d : Domain}

theorem Extends.refl (s : State) : s.Extends s := ⟨.refl s, id, id⟩

theorem Extends.trans (h : s.Extends t) (h' : t.Extends u) : s.Extends u where
  toSameFrame := h.toSameFrame.trans h'.toSameFrame
  constraint hc := h'.constraint (h.constraint hc)
  relation hr := h'.relation (h.relation hr)

theorem extends_of_constrain? (h : s.constrain? v c = some t) : s.Extends t where
  toSameFrame := sameFrame_of_constrain? h
  constraint := by
    intro w d c' hc'
    rw [constraint?_of_constrain? h]
    split
    next hw =>
      obtain ⟨hvw, rfl⟩ := hw
      rw [← constraint?_congr hvw] at hc'
      rw [eq_of_constrain? h hc']
    next => exact hc'
  relation := by
    rw [relations_of_constrain? h]
    exact id

theorem extends_learn (s : State) (r : Relation) : s.Extends (s.learn r) where
  toSameFrame := ⟨rfl, rfl, rfl, rfl⟩
  constraint := id
  relation hr := Relations.has_insert.2 (.inr hr)

theorem Extends.release (h : s.Extends t) (hopen : s.constraint? v d = none) :
    s.Extends (t.release v d) where
  toSameFrame := h.toSameFrame.trans (sameFrame_release t v d)
  constraint := by
    intro w e c hc
    rw [constraint?_release]
    split
    next hw =>
      obtain ⟨hvw, rfl⟩ := hw
      rw [← constraint?_congr hvw, hopen] at hc
      contradiction
    next => exact h.constraint hc
  relation := by
    rw [relations_release]
    exact h.relation

theorem steady_extends (s : State) : Steady (fun _ => True) s.Extends where
  operand _ _ := trivial
  known _ _ := ⟨trivial, trivial⟩
  constrain ht _ h := ht.trans (extends_of_constrain? h)
  learn ht _ _ := ht.trans (extends_learn _ _)

end State

namespace Relation

variable {assume : Value → Constraint → State → Outcomes} {r : Relation} {s : State} {v : Value}

theorem openOperand?_open (h : r.openOperand? s = some v) : s.constraint? v .boolean = none := by
  unfold openOperand? at h
  grind

section

variable (hassume : ∀ (s : State) v c, Preserves s.Extends (assume v c))

include hassume

theorem orNull_extends (hopen : s.constraint? v .boolean = none) {states out : List State}
    (hs : ∀ t ∈ states, s.Extends t) (h : orNull assume v states = .ok out) :
    ∀ t ∈ out, s.Extends t := by
  apply Preserves.each _ hs h
  intro t states ht heq
  obtain ⟨nulls, hnulls, heq⟩ := bind_eq_ok.1 heq
  cases heq
  intro u hu
  rcases List.mem_append.1 hu with hu | hu
  · exact hassume s v .null (ht.release hopen) hnulls u hu
  · exact List.mem_singleton.1 hu ▸ ht

theorem record_extends (s : State) (r : Relation) : Preserves s.Extends (r.record assume) := by
  intro t states ht heq
  unfold record at heq
  dsimp only at heq
  have hlearn : t.Extends (if t.canReach r.left || t.canReach r.right then t.learn r else t) := by
    split
    · exact t.extends_learn r
    · exact .refl t
  -- the operand that may be null is open before anything is carried across
  generalize (if t.canReach r.left || t.canReach r.right then t.learn r else t) = u at hlearn heq
  have hu : s.Extends u := ht.trans hlearn
  obtain ⟨mid, hmid, heq⟩ := bind_eq_ok.1 heq
  have htransfer (a b : Value) : Preserves u.Extends (r.transfer assume a b) :=
    transfer_preserves (P := fun _ => True) (fun v c _ => hassume u v c) trivial trivial
  have hcarried : ∀ w ∈ mid, u.Extends w := (htransfer _ _).both (htransfer _ _) (.refl u) hmid
  intro w hw
  apply hu.trans
  cases hv : r.openOperand? u with
  | none =>
    rw [hv] at heq
    cases heq
    exact hcarried w hw
  | some v =>
    rw [hv] at heq
    exact orNull_extends hassume (openOperand?_open hv) hcarried heq w hw

theorem assumeWith_extends (s : State) (budget : Budget) (r : Relation) (b : Bool) :
    Preserves s.Extends (r.assumeWith assume budget b) :=
  assumeHolds_preserves_of_record s.steady_extends (fun i _ _ => record_extends hassume s i)
    trivial trivial

end

end Relation

/-- Whatever the limit on nesting, the outcomes of an assumption extend a state that is extended by
the state in which it is made. -/
theorem Value.assumeAt_extends (budget : Budget) (levels : Nat) (s : State) (v : Value)
    (c : Constraint) : Preserves s.Extends (v.assumeAt budget levels c) := by
  induction levels generalizing s v c with
  | zero =>
    apply assumeWith_preserves s.steady_extends.toAdditive _ trivial
    intro r b _ _ t states _ h
    contradiction
  | succ levels ih =>
    apply assumeWith_preserves s.steady_extends.toAdditive _ trivial
    exact fun r b _ _ => Relation.assumeWith_extends ih s budget r b

/-- Assuming a constraint of a value, or the truth of a relation, only adds to what is known. -/
theorem assume_extends (budget : Budget) (s : State) :
    (∀ levels v c states, Value.assumeAt budget levels v c s = .ok states →
        ∀ t ∈ states, s.Extends t) ∧
      (∀ v c states, Value.assume v c budget s = .ok states → ∀ t ∈ states, s.Extends t) ∧
      ∀ r b states, Relation.assume r b budget s = .ok states → ∀ t ∈ states, s.Extends t := by
  have hlevels (levels : Nat) (v : Value) (c : Constraint) (states : List State)
      (h : v.assumeAt budget levels c s = .ok states) : ∀ t ∈ states, s.Extends t :=
    v.assumeAt_extends budget levels s c (.refl s) h
  refine ⟨hlevels, fun v c states h => ?_, fun r b states h => ?_⟩
  · exact hlevels _ v c states h
  · exact hlevels _ r.toValue (.truth b) states h

theorem assume_extends_boxed :
    ∃ states, Relation.assume ⟨.notEqual, .boolean 3, .true⟩ true {}
        (State.empty.put "p" (.boolean 3)) = .ok states ∧
      states.map (·.constraint? (.boolean 3) .boolean) = [none, some (.truth false)] ∧
      ∀ t ∈ states, (State.empty.put "p" (.boolean 3)).Extends t := by
  have hrun : (Relation.assume ⟨.notEqual, .boolean 3, .true⟩ true {}
        (State.empty.put "p" (.boolean 3))).toOption.map
      (fun states => states.map (·.constraint? (.boolean 3) .boolean)) =
        some [none, some (.truth false)] := by
    decide +kernel
  obtain ⟨states, hstates, htruths⟩ := Option.map_eq_some_iff.1 hrun
  have hok := eq_ok_of_toOption hstates
  exact ⟨states, hok, htruths, (assume_extends {} _).2.2 _ _ states hok⟩

end Pathwise
