import Pathwise.Proofs.Reactions

namespace Pathwise

namespace State

/-- The states differ at most in what is known about values. -/
structure SameFrame (s t : State) : Prop where
  stack : t.stack = s.stack
  vars : t.vars = s.vars
  exit? : t.exit? = s.exit?
  visits : t.visits = s.visits

variable {s t u : State}

theorem SameFrame.refl (s : State) : s.SameFrame s := ⟨rfl, rfl, rfl, rfl⟩

theorem SameFrame.trans (h : s.SameFrame t) (h' : t.SameFrame u) : s.SameFrame u :=
  ⟨h'.stack.trans h.stack, h'.vars.trans h.vars, h'.exit?.trans h.exit?,
    h'.visits.trans h.visits⟩

theorem SameFrame.value?_eq (h : s.SameFrame t) (var : String) : t.value? var = s.value? var := by
  rw [value?, value?, h.vars]

theorem sameFrame_of_constrain? {v : Value} {c : Constraint} (h : s.constrain? v c = some t) :
    s.SameFrame t := by
  obtain ⟨_, rfl⟩ := constrain?_eq_some h
  exact ⟨rfl, rfl, rfl, rfl⟩

theorem sameFrame_constrain (s : State) (v : Value) (c : Constraint) :
    s.SameFrame (s.constrain v c) := by
  unfold constrain
  cases h : s.constrain? v c with
  | none => exact .refl s
  | some t => exact sameFrame_of_constrain? h

theorem sameFrame_release (s : State) (v : Value) (d : Domain) : s.SameFrame (s.release v d) := by
  obtain ⟨_, h⟩ := s.release_eq v d
  rw [h]
  exact ⟨rfl, rfl, rfl, rfl⟩

theorem stable_sameFrame (s : State) : Stable (fun _ => True) s.SameFrame where
  operand _ _ := trivial
  known _ _ := ⟨trivial, trivial⟩
  constrain hs _ h := hs.trans (sameFrame_of_constrain? h)
  release hs _ := hs.trans (sameFrame_release _ _ _)
  learn hs _ _ := hs.trans ⟨rfl, rfl, rfl, rfl⟩

theorem exposed_sameFrame (s : State) : Exposed (fun _ => True) s.SameFrame where
  toEnduring := s.stable_sameFrame.enduring
  stacked _ _ := trivial
  bound _ _ := trivial

end State

theorem Value.sameFrame_of_assume {v : Value} {c : Constraint} {budget : Budget} {s t : State}
    {states : List State} (h : v.assume c budget s = .ok states) (ht : t ∈ states) :
    s.SameFrame t :=
  assume_preserves s.stable_sameFrame trivial c budget (.refl s) h t ht

def Reaction.KeepsFrame (s : State) (r : Reaction) : Prop := ∀ t, r.result = .ok t → s.SameFrame t

namespace Detector

structure KeepsFrame (d : Detector) : Prop where
  before : ∀ w e, (d.before w e).KeepsFrame w.state
  after : ∀ w e, (d.after w e).KeepsFrame w.state

/-- Every detector that can be asked for changes only what is known about values. -/
theorem Choice.keepsFrame_all {cs : List Choice} {id : Nat} {ds : List Detector}
    (h : setUpAll id cs = .ok ds) : ∀ d ∈ ds, d.KeepsFrame := by
  intro d hd
  obtain ⟨c, id, hsetUp⟩ := exists_setUp h hd
  constructor
  · exact fun w e => (keeps w.state.exposed_sameFrame hsetUp).before w e (.refl _)
  · exact fun w e => (keeps w.state.exposed_sameFrame hsetUp).after w e (.refl _)

end Detector

theorem Adjusted.sameFrame {detectors : List Detector}
    (hdetectors : ∀ d ∈ detectors, d.KeepsFrame) {s t : State} (h : Adjusted detectors s t) :
    s.SameFrame t := by
  induction h with
  | refl => exact .refl _
  | before hd hr _ ih => exact ((hdetectors _ hd).before _ _ _ hr).trans ih
  | after hd hr _ ih => exact ((hdetectors _ hd).after _ _ _ hr).trans ih

end Pathwise
