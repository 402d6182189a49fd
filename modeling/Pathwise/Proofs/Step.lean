import Pathwise.Proofs.Atomicity
import Pathwise.Proofs.Growth

namespace Pathwise

inductive Adjusted (detectors : List Detector) : State → State → Prop
  | refl (s : State) : Adjusted detectors s s
  | before {d w e t u} : d ∈ detectors → (d.before w e).result = .ok t → Adjusted detectors t u →
      Adjusted detectors w.state u
  | after {d w e t u} : d ∈ detectors → (d.after w e).result = .ok t → Adjusted detectors t u →
      Adjusted detectors w.state u

theorem Adjusted.trans {detectors : List Detector} {s t u : State} (h : Adjusted detectors s t)
    (h' : Adjusted detectors t u) : Adjusted detectors s u := by
  induction h with
  | refl => exact h'
  | before hd hr _ ih => exact .before hd hr (ih h')
  | after hd hr _ ih => exact .after hd hr (ih h')

theorem Adjusted.eq_of_nil {s t : State} (h : Adjusted [] s t) : s = t := by
  cases h with
  | refl => rfl
  | before hd => contradiction
  | after hd => contradiction

theorem Journal.consult_adjusted {detectors : List Detector} {o : Options} {hook : Hook}
    {react : Detector → State → Reaction} {ds : List Detector}
    (hreact : ∀ d ∈ ds, ∀ s t, (react d s).result = .ok t → Adjusted detectors s t) (s : State)
    (j : Journal) :
    Adjusted detectors s (consult o hook react ds s j).1 ∧
      ((consult o hook react ds s j).2.1 → ds ≠ []) := by
  induction ds generalizing s j with
  | nil => exact ⟨.refl s, fun h => by contradiction⟩
  | cons d ds ih =>
    have hrest := fun d' hd' => hreact d' (.tail _ hd')
    simp only [consult]
    cases hr : (react d s).result with
    | error c =>
      split
      · exact ⟨.refl s, nofun⟩
      · exact ⟨(ih hrest _ _).1, nofun⟩
    | ok t =>
      have ht := hreact d (.head _) s t hr
      split
      · exact ⟨ht, nofun⟩
      · exact ⟨ht.trans (ih hrest _ _).1, nofun⟩

def thrownTo (handlers : List BlockId) (s : State) (exception : Value) : List Successor :=
  handlers.map fun handler => ⟨⟨handler, 0⟩, (s.constrain exception .notNull).push exception, true⟩

/-- The successors by which an instruction throws, and the ids that are left. -/
inductive Throws (o : Options) (flow : ControlFlow) (p : Point) (s : State) (supply : Supply)
    (i : Instruction) : List Successor → Supply → Prop
  | quiet : (o.exceptionalPaths → i.abrupt? s = .ok none) → Throws o flow p s supply i [] supply
  | thrown {t handlers} : o.exceptionalPaths → i.abrupt? s = .ok (some t) →
      flow.handlers p.block = .ok handlers →
      Throws o flow p s supply i (thrownTo handlers t supply.fresh.1) supply.fresh.2

/-- The successors of an element at `p` in the state `s`, and the ids that are left. -/
inductive Yields (detectors : List Detector) (o : Options) (flow : ControlFlow) (p : Point)
    (s : State) (supply : Supply) : Element → List Successor → Supply → Prop
  | next {i thrown left t left' u} : Throws o flow p s supply i thrown left →
      i.execute s left = .ok (t, left') → Adjusted detectors t u →
      Yields detectors o flow p s supply (.instruction i) (thrown ++ [⟨p.next, u, false⟩]) left'
  | stopped {i thrown left t left'} : detectors ≠ [] → Throws o flow p s supply i thrown left →
      i.execute s left = .ok (t, left') →
      Yields detectors o flow p s supply (.instruction i) thrown left'
  | goto {target} :
      Yields detectors o flow p s supply (.terminator (.goto target)) [⟨⟨target, 0⟩, s, false⟩]
        supply
  | branch {trueTarget falseTarget pos t condition falseStates trueStates} :
      s.pop = .ok (t, condition) → condition.assume (.truth false) o.budget t = .ok falseStates →
      condition.assume (.truth true) o.budget t = .ok trueStates →
      Yields detectors o flow p s supply (.terminator (.branch trueTarget falseTarget pos))
        (falseStates.map (⟨⟨falseTarget, 0⟩, ·, false⟩) ++
          trueStates.map (⟨⟨trueTarget, 0⟩, ·, false⟩)) supply
  | ret {value pos} : Yields detectors o flow p s supply (.terminator (.ret value pos)) [] supply
  | exit : Yields detectors o flow p s supply (.terminator .exit) [] supply
  | throw {pos t exception handlers} : s.pop = .ok (t, exception) →
      flow.handlers p.block = .ok handlers →
      Yields detectors o flow p s supply (.terminator (.throw pos))
        (thrownTo handlers t exception) supply

namespace Exploration

/-- What becomes of an exploration when it processes the node `id`. -/
inductive Stepped (detectors : List Detector) (o : Options) (x : Exploration) (id : NodeId)
    (node : Node) : Exploration → Option Failure → Prop
  | failed {y f} : Quiet x y → y.supply = x.supply → Stepped detectors o x id node y (some f)
  | sunk {y} : detectors ≠ [] → Quiet x y → y.supply = x.supply →
      Stepped detectors o x id node y none
  | performed {element s successors y} : x.graph.flow.element node.point = .ok element →
      Adjusted detectors node.state s →
      Yields detectors o x.graph.flow node.point s x.supply element successors y.supply →
      Enqueued o id successors x y → Stepped detectors o x id node y none

variable {detectors : List Detector} {o : Options}

@[simp] theorem supply_enqueue (x : Exploration) (p : Point) (s : State) (e : Edge) :
    (x.enqueue o p s e).supply = x.supply := by
  unfold enqueue
  dsimp only
  split
  · rfl
  · split <;> rfl

theorem supply_foldl_enqueue {α : Type} (f : α → Successor) (id : NodeId) (as : List α)
    (x : Exploration) :
    (as.foldl (fun x a => x.enqueue o (f a).point (f a).state ⟨id, (f a).exceptional⟩) x).supply =
      x.supply := by
  induction as generalizing x with
  | nil => rfl
  | cons a as ih => exact (ih _).trans (supply_enqueue _ _ _ _)

@[simp] theorem supply_endPath (x : Exploration) (id : NodeId) (node : Node) (s : State) :
    (x.endPath detectors o id node s).supply = x.supply := by
  unfold endPath
  dsimp only
  split <;> rfl

theorem raise_enqueued {x y : Exploration} {id : NodeId} {node : Node} {s : State}
    {exception : Value} (h : x.raise detectors o id node s exception = (y, none)) :
    ∃ handlers, x.graph.flow.handlers node.point.block = .ok handlers ∧
      Enqueued o id (thrownTo handlers s exception) x y ∧ y.supply = x.supply := by
  obtain ⟨handlers, hhandlers, h⟩ := attempt_eq_none.1 h
  refine ⟨handlers, hhandlers, ?_⟩
  split at h
  next =>
    cases h
    exact ⟨.nil (endPath_quiet _ _ _ _ _), supply_endPath _ _ _ _⟩
  next =>
    cases h
    exact ⟨Enqueued.foldl (fun handler => ⟨⟨handler, 0⟩, _, true⟩) handlers x,
      supply_foldl_enqueue (fun handler => ⟨⟨handler, 0⟩, _, true⟩) id handlers x⟩

theorem askBefore_adjusted (detectors : List Detector) (o : Options) (x : Exploration)
    (id : NodeId) (node : Node) (element : Element) :
    Adjusted detectors node.state (x.askBefore detectors o id node element).1 ∧
      ((x.askBefore detectors o id node element).2.1 → detectors ≠ []) :=
  Journal.consult_adjusted (fun _ hd _ _ h => .before hd h (.refl _)) node.state x.journal

theorem askAfter_adjusted (detectors : List Detector) (o : Options) (x : Exploration)
    (id : NodeId) (node : Node) (s : State) (element : Element) :
    Adjusted detectors s (x.askAfter detectors o id node s element).1 ∧
      ((x.askAfter detectors o id node s element).2.1 → detectors ≠ []) :=
  Journal.consult_adjusted (fun _ hd _ _ h => .after hd h (.refl _)) s x.journal

theorem throwing_enqueued {x y : Exploration} {id : NodeId} {node : Node} {s : State}
    {i : Instruction} (h : x.throwing detectors o id node s i = (y, none)) :
    ∃ thrown, Throws o x.graph.flow node.point s x.supply i thrown y.supply ∧
      Enqueued o id thrown x y := by
  unfold throwing at h
  split at h
  next ho =>
    obtain ⟨thrown?, habrupt, h⟩ := attempt_eq_none.1 h
    cases thrown? with
    | some thrown =>
      obtain ⟨handlers, hhandlers, henqueued, hsupply⟩ := raise_enqueued h
      refine ⟨_, ?_, henqueued.of_quiet ⟨rfl, rfl, rfl, rfl, rfl⟩⟩
      rw [hsupply]
      exact .thrown ho habrupt hhandlers
    | none =>
      cases h
      exact ⟨[], .quiet fun _ => habrupt, .nil (.refl x)⟩
  next ho =>
    cases h
    exact ⟨[], .quiet fun ho' => absurd ho' ho, .nil (.refl x)⟩

theorem instruct_enqueued {x y : Exploration} {id : NodeId} {node : Node} {s : State}
    {i : Instruction} (h : x.instruct detectors o id node s i = (y, none)) :
    ∃ successors, Yields detectors o x.graph.flow node.point s x.supply (.instruction i)
      successors y.supply ∧ Enqueued o id successors x y := by
  obtain ⟨mid, hmid, h⟩ := instruct_eq_none h
  obtain ⟨thrown, hthrows, henqueued⟩ := throwing_enqueued hmid
  obtain ⟨⟨t, left⟩, hexecute, h⟩ := attempt_eq_none.1 h
  obtain ⟨hadjusted, hsink⟩ := askAfter_adjusted detectors o mid id node t (.instruction i)
  dsimp only at h
  split at h
  next hs =>
    cases h
    exact ⟨thrown, .stopped (hsink hs) hthrows hexecute,
      henqueued.then_quiet ⟨rfl, rfl, rfl, rfl, rfl⟩⟩
  next =>
    cases h
    refine ⟨_, ?_, henqueued.append ((Enqueued.single _ _ _ _).of_quiet ?_)⟩
    · rw [supply_enqueue]
      exact .next hthrows hexecute hadjusted
    · exact ⟨rfl, rfl, rfl, rfl, rfl⟩

theorem branch_enqueued {x y : Exploration} {id : NodeId} {node : Node} {s : State}
    {trueTarget falseTarget : BlockId} {pos : Position}
    (h : x.branch o id node s trueTarget falseTarget = (y, none)) :
    ∃ successors, Yields detectors o x.graph.flow node.point s x.supply
      (.terminator (.branch trueTarget falseTarget pos)) successors y.supply ∧
        Enqueued o id successors x y := by
  obtain ⟨⟨t, condition⟩, hpop, h⟩ := attempt_eq_none.1 h
  obtain ⟨falseStates, hfalse, h⟩ := attempt_eq_none.1 h
  obtain ⟨trueStates, htrue, h⟩ := attempt_eq_none.1 h
  cases h
  refine ⟨_, ?_, ((Enqueued.foldl (⟨⟨falseTarget, 0⟩, ·, false⟩) falseStates _).append
    (Enqueued.foldl (⟨⟨trueTarget, 0⟩, ·, false⟩) trueStates _)).of_quiet ?_⟩
  · rw [supply_foldl_enqueue (⟨⟨trueTarget, 0⟩, ·, false⟩),
      supply_foldl_enqueue (⟨⟨falseTarget, 0⟩, ·, false⟩)]
    exact .branch hpop hfalse htrue
  · exact ⟨rfl, rfl, rfl, rfl, rfl⟩

theorem terminate_enqueued {x y : Exploration} {id : NodeId} {node : Node} {s : State}
    {t : Terminator} (h : x.terminate detectors o id node s t = (y, none)) :
    ∃ successors, Yields detectors o x.graph.flow node.point s x.supply (.terminator t)
      successors y.supply ∧ Enqueued o id successors x y := by
  cases t with
  | goto target =>
    cases h
    refine ⟨_, ?_, .single x _ _ _⟩
    rw [supply_enqueue]
    exact .goto
  | branch trueTarget falseTarget pos => exact branch_enqueued h
  | ret value pos =>
    cases value with
    | false =>
      cases h
      refine ⟨[], ?_, .nil (endPath_quiet _ _ _ _ _)⟩
      rw [supply_endPath]
      exact .ret
    | true =>
      obtain ⟨⟨t, v⟩, _, h⟩ := attempt_eq_none.1 h
      cases h
      refine ⟨[], ?_, .nil (endPath_quiet _ _ _ _ _)⟩
      rw [supply_endPath]
      exact .ret
  | throw pos =>
    obtain ⟨⟨t, exception⟩, hpop, h⟩ := attempt_eq_none.1 h
    obtain ⟨handlers, hhandlers, henqueued, hsupply⟩ := raise_enqueued h
    refine ⟨_, ?_, henqueued⟩
    rw [hsupply]
    exact .throw hpop hhandlers
  | exit =>
    cases h
    refine ⟨[], ?_, .nil (endPath_quiet _ _ _ _ _)⟩
    rw [supply_endPath]
    exact .exit

theorem perform_enqueued {x y : Exploration} {id : NodeId} {node : Node} {s : State}
    {element : Element} (h : x.perform detectors o id node s element = (y, none)) :
    ∃ successors, Yields detectors o x.graph.flow node.point s x.supply element successors
      y.supply ∧ Enqueued o id successors x y := by
  cases element with
  | instruction i => exact instruct_enqueued h
  | terminator t => exact terminate_enqueued h

/-- Processing a node does nothing else. -/
theorem step_stepped {x y : Exploration} {id : NodeId} {node : Node} {failure? : Option Failure}
    (h : x.step detectors o id node = (y, failure?)) :
    Stepped detectors o x id node y failure? := by
  cases step_processed h with
  | missing => exact .failed (.refl x) rfl
  | @stopped element s _ helement hbefore =>
    have hsink := (askBefore_adjusted detectors o x id node element).2
    rw [hbefore] at hsink
    exact .sunk (hsink rfl) ⟨rfl, rfl, rfl, rfl, rfl⟩ rfl
  | failed => exact .failed ⟨rfl, rfl, rfl, rfl, rfl⟩ rfl
  | @performed element s _ _ helement hbefore hperform =>
    have hadjusted := (askBefore_adjusted detectors o x id node element).1
    rw [hbefore] at hadjusted
    obtain ⟨successors, hyields, henqueued⟩ := perform_enqueued hperform
    exact .performed helement hadjusted hyields (henqueued.of_quiet ⟨rfl, rfl, rfl, rfl, rfl⟩)

theorem Stepped.extends {x y : Exploration} {id : NodeId} {node : Node}
    {failure? : Option Failure} (h : Stepped detectors o x id node y failure?) :
    x.graph.Extends y.graph := by
  cases h with
  | failed hquiet _ => exact hquiet.graph ▸ .refl _
  | sunk _ hquiet _ => exact hquiet.graph ▸ .refl _
  | performed _ _ _ henqueued => exact henqueued.extends

end Exploration

end Pathwise
