import Pathwise.State

namespace Pathwise

/-- Adds a number to a mark, so that the order matters. -/
def mixMark (m n : UInt64) : UInt64 := m * 0x9E3779B97F4A7C15 + n

def mixMarks (ms : List UInt64) : UInt64 := ms.foldl mixMark 0

theorem map_eq_map_of_imp {α β γ : Type} {f : α → β} {g : α → γ}
    (h : ∀ a b, f a = f b → g a = g b) {as bs : List α} (hf : as.map f = bs.map f) :
    as.map g = bs.map g := by
  induction as generalizing bs with
  | nil => cases bs with
    | nil => rfl
    | cons => simp at hf
  | cons a as ih => cases bs with
    | nil => simp at hf
    | cons b bs =>
      simp only [List.map_cons, List.cons.injEq] at hf ⊢
      exact ⟨h a b hf.1, ih hf.2⟩

namespace Value

/-- A relation's mark does not depend on the order of its operands. -/
def mark : Value → UInt64
  | simple id => .ofNat id
  | boolean id => mixMark 1 (.ofNat id)
  | not id v => mixMark (mixMark 2 (.ofNat id)) v.mark
  | binary id _ l r => mixMark (mixMark (mixMark 3 (.ofNat id)) l.mark) r.mark
  | relational k l r => mixMark (mixMark (.ofNat k.rank) (l.mark + r.mark)) (l.mark * r.mark)

theorem mark_oriented (k : Relation.Kind) (l r : Value) :
    (oriented k l r).mark = (relational k l r).mark := by
  rcases oriented_eq_or k l r with h | ⟨_, h⟩
  · rw [h]
  · rw [h, mark, mark, UInt64.add_comm, UInt64.mul_comm r.mark]

theorem mark_normal (v : Value) : v.normal.mark = v.mark := by
  induction v with
  | simple | boolean => rfl
  | not _ _ ih => simp only [normal, mark, ih]
  | binary _ _ _ _ ihl ihr => simp only [normal, mark, ihl, ihr]
  | relational _ _ _ ihl ihr => simp only [normal, mark_oriented, mark, ihl, ihr]

theorem mark_eq_of_equiv {v w : Value} (h : v ≈ w) : v.mark = w.mark := by
  rw [← mark_normal v, equiv_iff.1 h, mark_normal]

end Value

theorem Relation.mark_eq_of_equiv {r s : Relation} (h : r ≈ s) :
    r.toValue.mark = s.toValue.mark :=
  Value.mark_eq_of_equiv (Relation.toValue_equiv_iff.2 h)

def Constraint.mark (c : Constraint) : UInt64 :=
  mixMark (.ofNat c.domain.rank) (.ofNat c.index)

namespace State

def mark (s : State) : UInt64 :=
  mixMarks [
    mixMarks (s.stack.map Value.mark),
    mixMarks (s.vars.entries.map fun e => e.2.mark),
    mixMarks (s.constraints.entries.map fun e =>
      mixMark e.1.mark (mixMarks (e.2.toList.map Constraint.mark))),
    mixMarks (s.relations.entries.map fun r => r.toValue.mark),
    mixMarks (s.exit?.toList.map Value.mark)]

theorem mark_eq_of_equiv {s t : State} (h : s ≈ t) : s.mark = t.mark := by
  obtain ⟨hstack, hvars, hconstraints, hrelations, hexit⟩ := h
  have hexit' : s.exit?.toList.map Value.normal = t.exit?.toList.map Value.normal := by
    rw [← Option.toList_map, ← Option.toList_map, hexit]
  unfold mark
  rw [map_eq_map_of_imp (fun _ _ => Value.mark_eq_of_equiv) hstack,
    map_eq_map_of_imp (fun _ _ => Value.mark_eq_of_equiv) hexit',
    map_eq_map_of_imp (fun _ _ => Relation.mark_eq_of_equiv) hrelations,
    map_eq_map_of_imp (g := fun e => e.2.mark)
      (fun _ _ h => Value.mark_eq_of_equiv (Prod.mk.inj h).2) hvars,
    map_eq_map_of_imp
      (g := fun e => mixMark e.1.mark (mixMarks (e.2.toList.map Constraint.mark)))
      (fun _ _ h => by
        rw [Value.mark_eq_of_equiv (Prod.mk.inj h).1, (Prod.mk.inj h).2]) hconstraints]

end State

end Pathwise
