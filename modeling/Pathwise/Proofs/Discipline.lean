import Pathwise.Proofs.Effects
import Pathwise.Proofs.Faults
import Pathwise.Proofs.Represents

namespace Pathwise

namespace Element

def assigned? : Element → Option String
  | instruction i => i.assigned?
  | terminator _ => none

def read? : Element → Option String
  | instruction (.read var _) => some var
  | _ => none

theorem read?_eq_some {e : Element} {var : String} (h : e.read? = some var) :
    ∃ pos, e = .instruction (.read var pos) := by
  unfold read? at h
  split at h
  next =>
    cases h
    exact ⟨_, rfl⟩
  next => contradiction

/-- How many values are left of a stack of the given height, where the element completes or an
exception takes over. -/
def heightAfter (e : Element) (exceptional : Bool) (height : Nat) : Nat :=
  height - e.operands + if exceptional then 1 else e.results

theorem heightAfter_mono (e : Element) (exceptional : Bool) {m n : Nat} (h : m ≤ n) :
    e.heightAfter exceptional m ≤ e.heightAfter exceptional n :=
  Nat.add_le_add_right (Nat.sub_le_sub_right h _) _

end Element

/-- Heights of the stack and bound variables, point by point, that suffice for the elements and that
control flow respects. -/
structure ControlFlow.Discipline (c : ControlFlow) (o : Options) (height : Point → Nat)
    (defined : Point → String → Prop) : Prop where
  height_entry : height c.entry = 0
  defined_entry : ∀ {var}, defined c.entry var → ∃ p ∈ c.parameters, p.name = var
  operands_le : ∀ {p e}, c.element p = .ok e → e.operands ≤ height p
  read : ∀ {p var pos}, c.element p = .ok (.instruction (.read var pos)) → defined p var
  height_le : ∀ {p e exceptional q}, c.element p = .ok e → c.Follows o p exceptional q →
    height q ≤ e.heightAfter exceptional (height p)
  defined_or : ∀ {p e exceptional q var}, c.element p = .ok e → c.Follows o p exceptional q →
    defined q var → defined p var ∨ e.assigned? = some var

/-- The element leads from one state to the other: enough values are left, and no variable is
unbound that was bound or assigned. -/
structure Element.Leads (e : Element) (exceptional : Bool) (s t : State) : Prop where
  height_le : e.heightAfter exceptional s.stack.length ≤ t.stack.length
  bound : ∀ {var}, (s.value? var).isSome ∨ e.assigned? = some var → (t.value? var).isSome

variable {e : Element} {exceptional : Bool} {s t u : State}

theorem Element.Leads.sameFrame (h : e.Leads exceptional s t) (hframe : t.SameFrame u) :
    e.Leads exceptional s u := by
  refine ⟨hframe.stack ▸ h.height_le, fun hvar => ?_⟩
  rw [hframe.value?_eq]
  exact h.bound hvar

theorem Element.leads_of_vars (hassign : e.assigned? = none)
    (hheight : e.heightAfter exceptional s.stack.length ≤ t.stack.length)
    (hvars : t.vars = s.vars) : e.Leads exceptional s t := by
  refine ⟨hheight, fun hvar => ?_⟩
  rw [State.value?, hvars]
  rw [hassign] at hvar
  exact hvar.resolve_right (Option.some_ne_none _).symm

theorem Executed.leads {i : Instruction} {supply : Supply} (h : Executed i supply s t) :
    (Element.instruction i).Leads false s t := by
  have hheight : (Element.instruction i).heightAfter false s.stack.length ≤ t.stack.length := by
    obtain ⟨vs, hpushed, hstack⟩ := h.stack
    rw [hstack, List.length_append, List.length_drop, Nat.add_comm vs.length, hpushed]
    exact Nat.add_le_add_left i.results_le_pushed _
  refine ⟨hheight, fun {var} hvar => ?_⟩
  rw [h.value?_eq]
  split
  next hassign =>
    obtain ⟨v, hv, _⟩ := h.assigned hassign
    rw [hv]
    rfl
  next hne => exact hvar.resolve_right hne

theorem thrownTo_leads {handlers : List BlockId} {exception : Value} (hassign : e.assigned? = none)
    (hstack : t.stack = s.stack.drop e.operands) (hvars : t.vars = s.vars) :
    ∀ a ∈ thrownTo handlers t exception, e.Leads a.exceptional s a.state := by
  intro a ha
  obtain ⟨handler, _, rfl⟩ := List.mem_map.1 ha
  have hframe := t.sameFrame_constrain exception .notNull
  refine Element.leads_of_vars hassign ?_ (hframe.vars.trans hvars)
  simp [Element.heightAfter, State.push, hframe.stack, hstack]

theorem Throws.leads {o : Options} {flow : ControlFlow} {p : Point} {supply left : Supply}
    {i : Instruction} {thrown : List Successor} (h : Throws o flow p s supply i thrown left) :
    ∀ a ∈ thrown, (Element.instruction i).Leads a.exceptional s a.state := by
  cases h with
  | quiet => exact List.forall_mem_nil _
  | thrown _ habrupt _ =>
    obtain ⟨⟨method, hmethod, _⟩, _, rfl⟩ := Instruction.abrupt?_eq_some habrupt
    have hassign : i.assigned? = none := by
      cases i with
      | assign => contradiction
      | _ => rfl
    exact thrownTo_leads hassign rfl rfl

/-- What an element does to the stack and to the variables, on each way out of it. -/
theorem Yields.leads {detectors : List Detector} (hdetectors : ∀ d ∈ detectors, d.KeepsFrame)
    {o : Options} {flow : ControlFlow} {p : Point} {supply left : Supply}
    {successors : List Successor} (h : Yields detectors o flow p s supply e successors left) :
    ∀ a ∈ successors, e.Leads a.exceptional s a.state := by
  cases h with
  | next hthrows hexecute hadjusted =>
    intro a ha
    rcases List.mem_append.1 ha with ha | ha
    · exact hthrows.leads a ha
    · cases List.mem_singleton.1 ha
      have hleads := (Instruction.execute_executed hexecute).leads
      exact hleads.sameFrame (hadjusted.sameFrame hdetectors)
  | stopped _ hthrows _ => exact hthrows.leads
  | goto =>
    intro a ha
    cases List.mem_singleton.1 ha
    exact Element.leads_of_vars rfl (Nat.le_refl _) rfl
  | @branch trueTarget falseTarget pos _ _ _ _ hpop hfalse htrue =>
    obtain ⟨_, rfl⟩ := State.pop_eq_ok hpop
    have hpopped : (Element.terminator (.branch trueTarget falseTarget pos)).Leads false s
        { s with stack := s.stack.drop 1 } := by
      refine Element.leads_of_vars rfl ?_ rfl
      rw [List.length_drop]
      exact Nat.le_refl _
    intro a ha
    rcases List.mem_append.1 ha with ha | ha
    · obtain ⟨u, hu, rfl⟩ := List.mem_map.1 ha
      exact hpopped.sameFrame (Value.sameFrame_of_assume hfalse hu)
    · obtain ⟨u, hu, rfl⟩ := List.mem_map.1 ha
      exact hpopped.sameFrame (Value.sameFrame_of_assume htrue hu)
  | ret | exit => exact List.forall_mem_nil _
  | throw hpop _ =>
    obtain ⟨_, rfl⟩ := State.pop_eq_ok hpop
    exact thrownTo_leads rfl rfl rfl

theorem State.isSome_value?_initial {parameters : List Parameter} {p : Parameter}
    (h : p ∈ parameters) (supply : Supply) :
    ((State.initial parameters supply).1.value? p.name).isSome := by
  refine State.initial_induction
    (I := fun ps s _ => ∀ p ∈ ps, (s.value? p.name).isSome) (by simp) ?_ parameters p h
  intro ps s left q v _ hs p hp
  rw [State.value?_put]
  split
  · rfl
  next hne =>
    rcases List.mem_append.1 hp with hp | hp
    · exact hs p hp
    · cases List.mem_singleton.1 hp
      exact absurd rfl hne

namespace ControlFlow

structure Obeys (height : Point → Nat) (defined : Point → String → Prop) (p : Point) (s : State) :
    Prop where
  height_le : height p ≤ s.stack.length
  bound : ∀ {var}, defined p var → (s.value? var).isSome

variable {c : ControlFlow} {o : Options} {height : Point → Nat} {defined : Point → String → Prop}
  {p q : Point}

theorem Obeys.sameFrame (h : Obeys height defined p s) (hframe : s.SameFrame t) :
    Obeys height defined p t := by
  refine ⟨hframe.stack ▸ h.height_le, fun hvar => ?_⟩
  rw [hframe.value?_eq]
  exact h.bound hvar

theorem Discipline.obeys_initial (h : c.Discipline o height defined) :
    Obeys height defined c.entry (State.initial c.parameters {}).1 := by
  refine ⟨h.height_entry ▸ Nat.zero_le _, fun hvar => ?_⟩
  obtain ⟨p, hp, rfl⟩ := h.defined_entry hvar
  exact State.isSome_value?_initial hp _

/-- Control leads from states that obey to states that obey. -/
theorem Discipline.obeys_of_leads (h : c.Discipline o height defined)
    (he : c.element p = .ok e) (hfollows : c.Follows o p exceptional q)
    (hs : Obeys height defined p s) (hleads : e.Leads exceptional s t) :
    Obeys height defined q t := by
  refine ⟨?_, fun hvar => ?_⟩
  · calc height q ≤ e.heightAfter exceptional (height p) := h.height_le he hfollows
      _ ≤ e.heightAfter exceptional s.stack.length := e.heightAfter_mono exceptional hs.height_le
      _ ≤ t.stack.length := hleads.height_le
  · exact hleads.bound ((h.defined_or he hfollows hvar).imp_left hs.bound)

/-- Where the discipline is kept, an element fails only by running out of a budget. -/
theorem Discipline.isBudget_of_fault (h : c.Discipline o height defined)
    (he : c.element p = .ok e) (hs : Obeys height defined p s) {f : Failure} (hf : Fault e s f) :
    f.isBudget := by
  cases hf with
  | underflow hlt =>
    have hoperands := h.operands_le he
    have hheight := hs.height_le
    omega
  | unbound hread hnone =>
    cases hread
    have hbound := hs.bound (h.read he)
    rw [hnone] at hbound
    contradiction
  | budget hf => exact hf.isBudget

end ControlFlow

namespace Exploration

variable {detectors : List Detector} {o : Options} {flow : ControlFlow} {done : List NodeId}
  {x : Exploration}

theorem Reached.obeys (hdetectors : ∀ d ∈ detectors, d.KeepsFrame) {height : Point → Nat}
    {defined : Point → String → Prop} (hflow : flow.Discipline o height defined)
    {failure? : Option Failure} (h : Reached detectors o flow done x failure?) :
    ∀ id n, x.graph.node? id = some n → ControlFlow.Obeys height defined n.point n.state := by
  refine h.forall_node hflow.obeys_initial (fun hs => ?_) fun hs he hadjusted hyields a ha => ?_
  · exact ⟨hs.sameFrame ⟨rfl, rfl, rfl, rfl⟩, ⟨hs.height_le, hs.bound⟩⟩
  · have hs' := hs.sameFrame (hadjusted.sameFrame hdetectors)
    exact hflow.obeys_of_leads he (hyields.follows he a ha) hs' (hyields.leads hdetectors a ha)

theorem Ends.of_aborted {limit : Nat} {failure? : Option Failure} {reason : Failure}
    (h : x.Ends o limit failure? (.aborted reason)) :
    ∃ f, failure? = some f ∧ f.isBudget = false ∧ f = reason := by
  generalize hstatus : Status.aborted reason = status at h
  cases h with
  | complete => contradiction
  | exhausted => contradiction
  | failed f =>
    unfold Status.ofFailure at hstatus
    split at hstatus
    next => contradiction
    next hf =>
      cases hstatus
      exact ⟨_, rfl, Bool.eq_false_iff.2 hf, rfl⟩

end Exploration

/-- An exploration is never aborted because of its control flow, and where the routine keeps a
discipline it is not aborted at all and all its states are as the discipline promises. -/
theorem explore_disciplined (detectors : List Detector) (o : Options) (flow : ControlFlow) :
    (∀ cause, (explore detectors o flow).status ≠ .aborted (.malformed cause)) ∧
      ∀ first choices, Detector.Choice.setUpAll first choices = .ok detectors →
        ∀ height defined, flow.Discipline o height defined →
          (∀ reason, (explore detectors o flow).status ≠ .aborted reason) ∧
            ∀ g, (explore detectors o flow).graph? = some g → ∀ id n, g.node? id = some n →
              height n.point ≤ n.state.stack.length ∧
                ∀ var, defined n.point var → (n.state.value? var).isSome := by
  obtain ⟨done, x, failure?, h, hgraph, _, hends⟩ := explore_reached detectors o flow
  refine ⟨fun cause hstatus => ?_, fun first choices hsetUp height defined hflow => ⟨?_, ?_⟩⟩
  · obtain ⟨f, rfl, hf, rfl⟩ := Exploration.Ends.of_aborted (hstatus ▸ hends)
    obtain ⟨_, _, _, _, _, _, _, _, _, _, hfault⟩ := h.fault
    cases hfault with
    | budget hbudget => contradiction
  · intro reason hstatus
    obtain ⟨f, rfl, hf, rfl⟩ := Exploration.Ends.of_aborted (hstatus ▸ hends)
    obtain ⟨_, _, _, n, e, s, hy, hn, he, hadjusted, hfault⟩ := h.fault
    have hdetectors := Detector.Choice.keepsFrame_all hsetUp
    have hs := (hy.obeys hdetectors hflow _ n hn).sameFrame (hadjusted.sameFrame hdetectors)
    rw [hflow.isBudget_of_fault he hs hfault] at hf
    contradiction
  · intro g hg id n hn
    cases hgraph.symm.trans hg
    have hobeys := h.obeys (Detector.Choice.keepsFrame_all hsetUp) hflow id n hn
    exact ⟨hobeys.height_le, fun _ hvar => hobeys.bound hvar⟩

namespace ControlFlow

variable (c : ControlFlow) (o : Options) (height : Point → Nat) (vars : Point → List String)

def catches (p : Point) : List (Bool × Point) :=
  ((c.handlers p.block).toOption.getD []).map fun handler => (true, ⟨handler, 0⟩)

def exits (p : Point) : Element → List (Bool × Point)
  | .instruction i =>
    (false, p.next) :: if o.exceptionalPaths && i.callee?.any (·.mayThrow) then c.catches p else []
  | .terminator (.throw _) => c.catches p
  | .terminator t => t.targets.map fun target => (false, ⟨target, 0⟩)

/-- Whether the heights and the bound variables make a discipline. -/
def keeps : Bool :=
  decide (height c.entry = 0) &&
  (vars c.entry).all (fun var => c.parameters.any fun p => p.name == var) &&
  c.points.all fun p =>
    match c.element p with
    | .error _ => true
    | .ok e =>
      decide (e.operands ≤ height p) && e.read?.all (· ∈ vars p) &&
      (c.exits o p e).all fun exit =>
        decide (height exit.2 ≤ e.heightAfter exit.1 (height p)) &&
        (vars exit.2).all fun var => decide (var ∈ vars p ∨ e.assigned? = some var)

variable {c o height vars}

theorem mem_catches {p q : Point} {exceptional : Bool} :
    (exceptional, q) ∈ c.catches p ↔ ∃ handlers handler, c.handlers p.block = .ok handlers ∧
      handler ∈ handlers ∧ exceptional = true ∧ q = ⟨handler, 0⟩ := by
  cases h : c.handlers p.block <;> simp [catches, h, Except.toOption]
  grind

theorem mem_exits_iff {p q : Point} {e : Element} {exceptional : Bool} (he : c.element p = .ok e) :
    (exceptional, q) ∈ c.exits o p e ↔ c.Follows o p exceptional q := by
  constructor
  · intro h
    cases e with
    | instruction i =>
      rcases List.mem_cons.1 h with h | h
      · cases h
        exact .next he
      · split at h
        next hthrow =>
          simp only [Bool.and_eq_true, Option.any_eq_true] at hthrow
          obtain ⟨ho, method, hmethod, hthrow⟩ := hthrow
          obtain ⟨handlers, handler, hhandlers, hmem, rfl, rfl⟩ := mem_catches.1 h
          exact .call ho he hmethod hthrow hhandlers hmem
        next => contradiction
    | terminator t =>
      cases t with
      | throw pos =>
        obtain ⟨handlers, handler, hhandlers, hmem, rfl, rfl⟩ := mem_catches.1 h
        exact .throw he hhandlers hmem
      | goto | branch | ret | exit =>
        obtain ⟨target, hmem, heq⟩ := List.mem_map.1 h
        cases heq
        exact .jump he hmem
  · intro h
    cases h with
    | next hi =>
      cases he.symm.trans hi
      exact .head _
    | @jump t target ht hmem =>
      cases he.symm.trans ht
      cases t with
      | throw => contradiction
      | goto | branch | ret | exit => exact List.mem_map_of_mem hmem
    | throw ht hhandlers hmem =>
      cases he.symm.trans ht
      exact mem_catches.2 ⟨_, _, hhandlers, hmem, rfl, rfl⟩
    | call ho hi hmethod hthrow hhandlers hmem =>
      cases he.symm.trans hi
      refine List.mem_cons_of_mem _ ?_
      rw [if_pos (by simp [ho, hmethod, hthrow])]
      exact mem_catches.2 ⟨_, _, hhandlers, hmem, rfl, rfl⟩

theorem mem_points_of_element {p : Point} {e : Element} (he : c.element p = .ok e) :
    p ∈ c.points := by
  obtain ⟨b, hb, h⟩ := bind_eq_ok.1 he
  refine mem_points (block_eq_ok hb) ?_
  split at h
  next hi => exact Nat.le_of_lt (List.getElem?_eq_some_iff.1 hi).1
  next =>
    split at h
    next hindex => exact Nat.le_of_eq hindex
    next => cases h

theorem keeps_iff :
    c.keeps o height vars ↔ c.Discipline o height fun p var => var ∈ vars p := by
  simp only [keeps, Bool.and_eq_true, decide_eq_true_iff, List.all_eq_true, List.any_eq_true,
    beq_iff_eq]
  constructor
  · rintro ⟨⟨hheight, hentry⟩, hpoints⟩
    have hpoint {p : Point} {e : Element} (he : c.element p = .ok e) :
        (e.operands ≤ height p ∧ e.read?.all (· ∈ vars p)) ∧ ∀ exit ∈ c.exits o p e,
          height exit.2 ≤ e.heightAfter exit.1 (height p) ∧
            ∀ var ∈ vars exit.2, var ∈ vars p ∨ e.assigned? = some var := by
      have h := hpoints p (mem_points_of_element he)
      rw [he] at h
      simpa using h
    refine ⟨hheight, fun hvar => hentry _ hvar, fun he => (hpoint he).1.1, fun he => ?_,
      fun he hf => ((hpoint he).2 _ ((mem_exits_iff he).2 hf)).1, fun he hf hvar => ?_⟩
    · simpa [Element.read?] using (hpoint he).1.2
    · exact ((hpoint he).2 _ ((mem_exits_iff he).2 hf)).2 _ hvar
  · intro h
    refine ⟨⟨h.height_entry, fun var hvar => h.defined_entry hvar⟩, fun p hp => ?_⟩
    obtain ⟨e, he⟩ := element_of_mem_points hp
    simp only [he, Bool.and_eq_true, decide_eq_true_iff, List.all_eq_true]
    refine ⟨⟨h.operands_le he, ?_⟩, fun exit hexit => ?_⟩
    · cases hread : e.read? with
      | none => rfl
      | some var =>
        obtain ⟨pos, rfl⟩ := Element.read?_eq_some hread
        simpa using h.read he
    · have hf := (mem_exits_iff he).1 hexit
      exact ⟨h.height_le he hf, fun var hvar => h.defined_or he hf hvar⟩

instance : Decidable (c.Discipline o height fun p var => var ∈ vars p) :=
  decidable_of_iff _ keeps_iff

end ControlFlow

def ControlFlow.retry : ControlFlow where
  routine := {
    name := "retry"
    parameters := [{ name := "again", type := .boolean }]
    entry := 0
    blocks := [
      { id := 0
        instructions := [.read "again" .unknown]
        terminator := .branch 1 2 .unknown },
      { id := 1
        instructions := [.newObject ⟨"Job", "<init>", [], .void, true⟩ [] .unknown,
          .assign "job" .unknown, .read "job" .unknown,
          .invoke ⟨"Job", "run", [], .void, true⟩ true [] .unknown]
        terminator := .goto 0
        handlers := [3] },
      { id := 2, instructions := [], terminator := .exit },
      { id := 3
        instructions := [.assign "e" .unknown, .read "e" .unknown]
        terminator := .throw .unknown }] }
  nodup := by decide
  entry_mem := by decide
  targets_mem _ hb _ hid := Routine.missingTarget?_eq_none (by decide) hb hid

namespace ControlFlow

def retryHeight (p : Point) : Nat :=
  if p ∈ [⟨0, 1⟩, ⟨1, 1⟩, ⟨1, 3⟩, ⟨3, 0⟩, ⟨3, 2⟩] then 1 else 0

def retryVars (p : Point) : List String :=
  if p ∈ [⟨1, 2⟩, ⟨1, 3⟩, ⟨1, 4⟩] then ["again", "job"]
  else if p ∈ [⟨3, 1⟩, ⟨3, 2⟩] then ["again", "e"]
  else ["again"]

end ControlFlow

open Detector in
theorem explore_disciplined_retry :
    (ControlFlow.retry.Discipline {} ControlFlow.retryHeight fun p var =>
      var ∈ ControlFlow.retryVars p) ∧
    (∀ reason, (explore [NullDereference.detector, DivisionByZero.detector 0] {} .retry).status ≠
      .aborted reason) ∧
    ∀ g, (explore [NullDereference.detector, DivisionByZero.detector 0] {} .retry).graph? = some g →
      ∀ id n, g.node? id = some n → ControlFlow.retryHeight n.point ≤ n.state.stack.length ∧
        ∀ var, var ∈ ControlFlow.retryVars n.point → (n.state.value? var).isSome := by
  have hflow : ControlFlow.retry.Discipline {} ControlFlow.retryHeight fun p var =>
    var ∈ ControlFlow.retryVars p := by decide +kernel
  exact ⟨hflow, (explore_disciplined _ {} .retry).2 0 [.nullDereference, .divisionByZero] rfl
    ControlFlow.retryHeight _ hflow⟩

end Pathwise
