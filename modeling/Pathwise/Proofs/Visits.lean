import Pathwise.Proofs.Frame

namespace Pathwise

theorem State.stable_visits (visits : Visits) :
    Stable (fun _ => True) (fun s => s.visits = visits) where
  operand _ _ := trivial
  known _ _ := ⟨trivial, trivial⟩
  constrain hs _ h := (sameFrame_of_constrain? h).visits.trans hs
  release {s v d} hs _ := (sameFrame_release s v d).visits.trans hs
  learn hs _ _ := hs

theorem State.durable_visits (visits : Visits) :
    Durable (fun _ => True) (fun s => s.visits = visits) where
  toEnduring := (stable_visits visits).enduring
  constants := ⟨trivial, trivial, trivial⟩
  relational _ _ := trivial
  stacked _ _ := trivial
  bound _ _ := trivial
  drop _ hs := hs
  push hs _ := hs
  put hs _ := hs

def Reaction.Leaves (visits : Visits) (r : Reaction) : Prop :=
  ∀ t, r.result = .ok t → t.visits = visits

namespace Detector

structure KeepsVisits (d : Detector) : Prop where
  before : ∀ w e, (d.before w e).Leaves w.state.visits
  after : ∀ w e, (d.after w e).Leaves w.state.visits

theorem KeepsFrame.keepsVisits {d : Detector} (h : d.KeepsFrame) : d.KeepsVisits where
  before w e t ht := (h.before w e t ht).visits
  after w e t ht := (h.after w e t ht).visits

theorem Choice.keepsVisits_all {cs : List Choice} {id : Nat} {ds : List Detector}
    (h : setUpAll id cs = .ok ds) : ∀ d ∈ ds, d.KeepsVisits :=
  fun d hd => (keepsFrame_all h d hd).keepsVisits

end Detector

theorem Adjusted.visits_eq {detectors : List Detector} (hdetectors : ∀ d ∈ detectors, d.KeepsVisits)
    {s t : State} (h : Adjusted detectors s t) : t.visits = s.visits := by
  induction h with
  | refl => rfl
  | before hd hr _ ih => exact ih.trans ((hdetectors _ hd).before _ _ _ hr)
  | after hd hr _ ih => exact ih.trans ((hdetectors _ hd).after _ _ _ hr)

/-- Successors have the visits of the state that they come from. -/
theorem Yields.visits_eq {detectors : List Detector}
    (hdetectors : ∀ d ∈ detectors, d.KeepsVisits) {o : Options} {flow : ControlFlow} {p : Point}
    {s : State} {supply left : Supply} {element : Element} {successors : List Successor}
    (h : Yields detectors o flow p s supply element successors left) :
    ∀ a ∈ successors, a.state.visits = s.visits := by
  obtain ⟨made, _, hkept⟩ := h.served
  exact hkept (State.durable_visits s.visits) rfl (fun _ _ => trivial)
    fun hadjusted ht => (hadjusted.visits_eq hdetectors).trans ht

end Pathwise
