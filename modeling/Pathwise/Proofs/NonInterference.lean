import Pathwise.Detector.NullDereference
import Pathwise.Proofs.Findings

namespace Pathwise

structure Reaction.Observes (r : Reaction) (s : State) : Prop where
  sink : r.sink = false
  result : ∀ t, r.result = .ok t → t = s

theorem Reaction.Observes.stateFrom_eq {r : Reaction} {s : State} (h : r.Observes s) :
    r.stateFrom s = s := by
  unfold stateFrom
  split
  next t ht => exact h.result t ht
  next => rfl

/-- A detector whose answers about elements are complaints or the state as it is, and that never stops
a path. It may report what it likes. -/
structure Detector.Observes (d : Detector) : Prop where
  before : ∀ w e, (d.before w e).Observes w.state
  after : ∀ w e, (d.after w e).Observes w.state

namespace Finding

def others (name : String) (fs : List Finding) : List Finding := fs.filter (·.check != name)

theorem others_cons_self {name : String} {f : Finding} (h : f.check = name) (fs : List Finding) :
    others name (f :: fs) = others name fs := by
  rw [others, List.filter_cons, h]
  simp [others]

theorem others_cons_of_ne {name : String} {f : Finding} (h : f.check ≠ name) (fs : List Finding) :
    others name (f :: fs) = f :: others name fs := by
  rw [others, List.filter_cons, if_pos (bne_iff_ne.2 h), others]

theorem check_eq_of_isAbout {f : Finding} {check : String} {issue : Issue}
    (h : f.isAbout check issue) : f.check = check :=
  congrArg Prod.fst (isAbout_iff.1 h)

theorem others_report_self (limit : Nat) (name : String) (issue : Issue) (fs : List Finding) :
    others name (report limit name issue fs) = others name fs := by
  induction fs with
  | nil => exact others_cons_self rfl []
  | cons f fs ih =>
    rw [report]
    split
    next hf =>
      have hcheck := check_eq_of_isAbout hf
      rw [others_cons_self hcheck fs]
      apply others_cons_self
      exact hcheck
    next =>
      by_cases hcheck : f.check = name
      · rw [others_cons_self hcheck, others_cons_self hcheck, ih]
      · rw [others_cons_of_ne hcheck, others_cons_of_ne hcheck, ih]

theorem others_report_of_ne {name check : String} (h : check ≠ name) (limit : Nat) (issue : Issue)
    (fs : List Finding) :
    others name (report limit check issue fs) = report limit check issue (others name fs) := by
  induction fs with
  | nil => exact others_cons_of_ne h []
  | cons f fs ih =>
    by_cases hcheck : f.check = name
    · have hf : ¬ f.isAbout check issue := by
        intro hf
        exact h ((check_eq_of_isAbout hf).symm.trans hcheck)
      rw [report, if_neg hf, others_cons_self hcheck, others_cons_self hcheck, ih]
    · rw [report, others_cons_of_ne hcheck, report]
      split
      · apply others_cons_of_ne
        exact hcheck
      · rw [others_cons_of_ne hcheck, ih]

end Finding

namespace Journal

def Omits (name : String) (j k : Journal) : Prop := k.findings = Finding.others name j.findings

variable {name : String} {j k : Journal} {d : Detector} {ds es : List Detector} (o : Options)
  (hook : Hook)

theorem Omits.add_self (h : Omits name j k) (r : Reaction) : Omits name (j.add o name hook r) k := by
  have hreport (issues : List Issue) (fs : List Finding) :
      Finding.others name (issues.foldl (fun fs i => Finding.report o.maxFlows name i fs) fs) =
        Finding.others name fs := by
    induction issues generalizing fs with
    | nil => rfl
    | cons i issues ih => rw [List.foldl_cons, ih, Finding.others_report_self]
  rw [Omits, findings_add, hreport]
  exact h

theorem Omits.add_of_ne {check : String} (h : Omits name j k) (hne : check ≠ name) (r : Reaction) :
    Omits name (j.add o check hook r) (k.add o check hook r) := by
  have hreport (issues : List Issue) (fs : List Finding) :
      Finding.others name (issues.foldl (fun fs i => Finding.report o.maxFlows check i fs) fs) =
        issues.foldl (fun fs i => Finding.report o.maxFlows check i fs) (Finding.others name fs) := by
    induction issues generalizing fs with
    | nil => rfl
    | cons i issues ih => rw [List.foldl_cons, ih, Finding.others_report_of_ne hne, List.foldl_cons]
  rw [Omits, findings_add, findings_add, hreport, h]

theorem Omits.foldl_add (h : Omits name j k) (react : Detector → Reaction)
    (hnames : ∀ e ∈ ds, e.name ≠ name) :
    Omits name (ds.foldl (fun j d => j.add o d.name hook (react d)) j)
      (ds.foldl (fun j d => j.add o d.name hook (react d)) k) := by
  induction ds generalizing j k with
  | nil => exact h
  | cons e ds ih =>
    have hadd := h.add_of_ne o hook (hnames e (.head _)) (react e)
    exact ih hadd fun e' he' => hnames e' (.tail _ he')

theorem Omits.foldl_insert (h : Omits d.name j k) (react : Detector → Reaction)
    (hnames : ∀ e ∈ ds ++ es, e.name ≠ d.name) :
    Omits d.name ((ds ++ d :: es).foldl (fun j d => j.add o d.name hook (react d)) j)
      ((ds ++ es).foldl (fun j d => j.add o d.name hook (react d)) k) := by
  rw [List.foldl_append, List.foldl_append, List.foldl_cons]
  have hbefore := h.foldl_add o hook react fun e he => hnames e (List.mem_append_left _ he)
  have hself := hbefore.add_self o hook (react d)
  exact hself.foldl_add o hook react fun e he => hnames e (List.mem_append_right _ he)

structure Consulted (name : String) (p q : State × Bool × Journal) : Prop where
  state : q.1 = p.1
  sink : q.2.1 = p.2.1
  journal : Omits name p.2.2 q.2.2

theorem consult_of_ne (react : Detector → State → Reaction) (hnames : ∀ e ∈ ds, e.name ≠ name)
    (h : Omits name j k) (s : State) :
    Consulted name (consult o hook react ds s j) (consult o hook react ds s k) := by
  induction ds generalizing s j k with
  | nil => exact ⟨rfl, rfl, h⟩
  | cons e ds ih =>
    have hadd := h.add_of_ne o hook (hnames e (.head _)) (react e s)
    rw [consult_cons, consult_cons]
    split
    · exact ⟨rfl, rfl, hadd⟩
    · exact ih (fun e' he' => hnames e' (.tail _ he')) hadd _

theorem consult_insert {react : Detector → State → Reaction} (hd : ∀ s, (react d s).Observes s)
    (hnames : ∀ e ∈ ds ++ es, e.name ≠ d.name) (h : Omits d.name j k) (s : State) :
    Consulted d.name (consult o hook react (ds ++ d :: es) s j)
      (consult o hook react (ds ++ es) s k) := by
  induction ds generalizing s j k with
  | nil =>
    rw [List.nil_append, List.nil_append, consult_cons, (hd s).sink, (hd s).stateFrom_eq]
    exact consult_of_ne o hook react hnames (h.add_self o hook _) s
  | cons e ds ih =>
    have hadd := h.add_of_ne o hook (hnames e (.head _)) (react e s)
    rw [List.cons_append, List.cons_append, consult_cons, consult_cons]
    split
    · exact ⟨rfl, rfl, hadd⟩
    · exact ih (fun e' he' => hnames e' (.tail _ he')) hadd _

end Journal

namespace Exploration

/-- The second exploration is the first one, less the findings of the detector `name` and whatever the
logs say. -/
inductive Omits (name : String) (x : Exploration) : Exploration → Prop
  | intro {j : Journal} : x.journal.Omits name j → Omits name x { x with journal := j }

structure OutcomesOmit (name : String) (p q : Exploration × Option Failure) : Prop where
  exploration : Omits name p.1 q.1
  failure : q.2 = p.2

variable {name : String} {x y : Exploration} (o : Options) (id : NodeId) (node : Node) (s : State)

theorem Omits.attempt {α : Type} (h : Omits name x y) (call : Except Failure α)
    {next next' : α → Exploration × Option Failure}
    (hnext : ∀ a, OutcomesOmit name (next a) (next' a)) :
    OutcomesOmit name (x.attempt call next) (y.attempt call next') := by
  cases call with
  | ok a => exact hnext a
  | error f => exact ⟨h, rfl⟩

theorem Omits.enqueue (h : Omits name x y) (p : Point) (s : State) (e : Edge) :
    Omits name (x.enqueue o p s e) (y.enqueue o p s e) := by
  cases h with
  | intro hj =>
    unfold Exploration.enqueue
    dsimp only
    split
    · exact .intro hj
    · split
      · exact .intro hj
      · exact .intro hj

theorem Omits.foldl_enqueue {α : Type} (h : Omits name x y) (p : α → Point) (s : α → State)
    (e : Edge) (as : List α) :
    Omits name (as.foldl (fun x a => x.enqueue o (p a) (s a) e) x)
      (as.foldl (fun x a => x.enqueue o (p a) (s a) e) y) := by
  induction as generalizing x y with
  | nil => exact h
  | cons a as ih => exact ih (h.enqueue o _ _ _)

theorem Omits.proceed (h : Omits name x y) (pending : Worklist) :
    Omits name (x.proceed pending) (y.proceed pending) := by
  cases h with
  | intro hj => exact .intro hj

theorem Omits.recordFailure (h : Omits name x y) (node : Node) (f : Failure) :
    Omits name (x.recordFailure node f) (y.recordFailure node f) := by
  cases h with
  | intro hj =>
    unfold Exploration.recordFailure
    split
    · exact .intro hj
    · exact .intro hj

theorem Omits.branch (h : Omits name x y) (trueTarget falseTarget : BlockId) :
    OutcomesOmit name (x.branch o id node s trueTarget falseTarget)
      (y.branch o id node s trueTarget falseTarget) := by
  refine h.attempt _ fun popped => h.attempt _ fun falseStates => h.attempt _ fun trueStates =>
    ⟨Omits.foldl_enqueue o (Omits.foldl_enqueue o ?_ _ _ _ _) _ _ _ _, rfl⟩
  cases h with
  | intro hj => exact .intro hj

section

variable {d : Detector} {ds es : List Detector} (hd : d.Observes)
  (hnames : ∀ e ∈ ds ++ es, e.name ≠ d.name)

include hnames

theorem Omits.endPath (h : Omits d.name x y) :
    Omits d.name (x.endPath (ds ++ d :: es) o id node s) (y.endPath (ds ++ es) o id node s) := by
  cases h with
  | intro hj =>
    unfold Exploration.endPath
    dsimp only
    split
    · exact .intro hj
    · exact .intro (hj.foldl_insert o .pathEnd _ hnames)

theorem Omits.raise (h : Omits d.name x y) (exception : Value) :
    OutcomesOmit d.name (x.raise (ds ++ d :: es) o id node s exception)
      (y.raise (ds ++ es) o id node s exception) := by
  have hflow : y.graph.flow = x.graph.flow := by
    cases h with
    | intro => rfl
  unfold Exploration.raise
  rw [hflow]
  refine h.attempt _ fun handlers => ?_
  cases handlers with
  | nil => exact ⟨h.endPath o id node _ hnames, rfl⟩
  | cons handler handlers => exact ⟨h.foldl_enqueue o _ _ _ _, rfl⟩

theorem Omits.throwing (h : Omits d.name x y) (i : Instruction) :
    OutcomesOmit d.name (x.throwing (ds ++ d :: es) o id node s i)
      (y.throwing (ds ++ es) o id node s i) := by
  unfold Exploration.throwing
  split
  · refine h.attempt _ fun thrown? => ?_
    cases thrown? with
    | some thrown =>
      cases h with
      | intro hj =>
        have hnext : Omits d.name { x with supply := x.supply.fresh.2 }
          { x with supply := x.supply.fresh.2, journal := _ } := .intro hj
        exact hnext.raise o id node thrown hnames _
    | none => exact ⟨h, rfl⟩
  · exact ⟨h, rfl⟩

theorem Omits.terminate (h : Omits d.name x y) (t : Terminator) :
    OutcomesOmit d.name (x.terminate (ds ++ d :: es) o id node s t)
      (y.terminate (ds ++ es) o id node s t) := by
  cases t with
  | goto target => exact ⟨h.enqueue o _ _ _, rfl⟩
  | branch trueTarget falseTarget pos => exact h.branch o id node s trueTarget falseTarget
  | ret value pos =>
    cases value with
    | false => exact ⟨h.endPath o id node _ hnames, rfl⟩
    | true => exact h.attempt _ fun popped => ⟨h.endPath o id node _ hnames, rfl⟩
  | throw pos => exact h.attempt _ fun popped => h.raise o id node popped.1 hnames popped.2
  | exit => exact ⟨h.endPath o id node _ hnames, rfl⟩

include hd

theorem Omits.askBefore (h : Omits d.name x y) (e : Element) :
    Journal.Consulted d.name (x.askBefore (ds ++ d :: es) o id node e)
      (y.askBefore (ds ++ es) o id node e) := by
  cases h with
  | intro hj =>
    apply Journal.consult_insert o _ _ hnames hj
    intro s
    exact hd.before _ e

theorem Omits.askAfter (h : Omits d.name x y) (e : Element) :
    Journal.Consulted d.name (x.askAfter (ds ++ d :: es) o id node s e)
      (y.askAfter (ds ++ es) o id node s e) := by
  cases h with
  | intro hj =>
    apply Journal.consult_insert o _ _ hnames hj
    intro t
    exact hd.after _ e

theorem Omits.completing (h : Omits d.name x y) (i : Instruction) :
    OutcomesOmit d.name (x.completing (ds ++ d :: es) o id node s i)
      (y.completing (ds ++ es) o id node s i) := by
  have hsupply : y.supply = x.supply := by
    cases h with
    | intro => rfl
  unfold Exploration.completing
  rw [hsupply]
  refine h.attempt _ fun (t, left) => ?_
  have hasked := h.askAfter o id node t hd hnames (.instruction i)
  dsimp only
  generalize x.askAfter (ds ++ d :: es) o id node t (.instruction i) = p at hasked ⊢
  generalize y.askAfter (ds ++ es) o id node t (.instruction i) = q at hasked ⊢
  obtain ⟨u, sink, j⟩ := p
  obtain ⟨u', sink', k⟩ := q
  obtain ⟨rfl, rfl, hj⟩ := hasked
  cases h with
  | intro =>
    split
    · exact ⟨.intro hj, rfl⟩
    · refine ⟨Omits.enqueue o ?_ _ _ _, rfl⟩
      exact .intro hj

theorem Omits.instruct (h : Omits d.name x y) (i : Instruction) :
    OutcomesOmit d.name (x.instruct (ds ++ d :: es) o id node s i)
      (y.instruct (ds ++ es) o id node s i) := by
  have hthrown := h.throwing o id node s hnames i
  unfold Exploration.instruct
  generalize x.throwing (ds ++ d :: es) o id node s i = p at hthrown ⊢
  generalize y.throwing (ds ++ es) o id node s i = q at hthrown ⊢
  obtain ⟨x', _⟩ := p
  obtain ⟨y', failure?⟩ := q
  obtain ⟨h', rfl⟩ := hthrown
  cases failure? with
  | none => exact h'.completing o id node s hd hnames i
  | some f => exact ⟨h', rfl⟩

theorem Omits.perform (h : Omits d.name x y) (e : Element) :
    OutcomesOmit d.name (x.perform (ds ++ d :: es) o id node s e)
      (y.perform (ds ++ es) o id node s e) := by
  cases e with
  | instruction i => exact h.instruct o id node s hd hnames i
  | terminator t => exact h.terminate o id node s hnames t

/-- One step keeps the two explorations together. -/
theorem Omits.step (h : Omits d.name x y) :
    OutcomesOmit d.name (x.step (ds ++ d :: es) o id node) (y.step (ds ++ es) o id node) := by
  have hflow : y.graph.flow = x.graph.flow := by
    cases h with
    | intro => rfl
  unfold Exploration.step
  rw [hflow]
  cases x.graph.flow.element node.point with
  | error f => exact ⟨h, rfl⟩
  | ok e =>
    have hasked := h.askBefore o id node hd hnames e
    dsimp only
    generalize x.askBefore (ds ++ d :: es) o id node e = p at hasked ⊢
    generalize y.askBefore (ds ++ es) o id node e = q at hasked ⊢
    obtain ⟨s, sink, j⟩ := p
    obtain ⟨s', sink', k⟩ := q
    obtain ⟨rfl, rfl, hj⟩ := hasked
    cases h with
    | intro =>
      have hnext : Omits d.name { x with journal := j } { x with journal := k } := .intro hj
      split
      · exact ⟨.intro hj, rfl⟩
      · exact hnext.perform o id node _ hd hnames e

theorem Omits.run (h : Omits d.name x y) (left : Nat) :
    Omits d.name (x.run (ds ++ d :: es) o left).1 (y.run (ds ++ es) o left).1 ∧
      (y.run (ds ++ es) o left).2 = (x.run (ds ++ d :: es) o left).2 := by
  induction left generalizing x y with
  | zero =>
    cases h with
    | intro hj =>
      rw [Exploration.run, Exploration.run]
      dsimp only
      split
      · exact ⟨.intro hj, rfl⟩
      · exact ⟨.intro hj, rfl⟩
  | succ left ih =>
    have hsame : y.pending = x.pending ∧ y.graph = x.graph := by
      cases h with
      | intro => exact ⟨rfl, rfl⟩
    rw [Exploration.run, Exploration.run, hsame.1, hsame.2]
    cases x.pending.next? with
    | none => exact ⟨h, rfl⟩
    | some next =>
      obtain ⟨id, pending⟩ := next
      dsimp only
      cases x.graph.node? id with
      | none =>
        apply ih
        cases h with
        | intro hj => exact .intro hj
      | some node =>
        have hstep := (h.proceed pending).step o id node hd hnames
        dsimp only
        generalize (x.proceed pending).step (ds ++ d :: es) o id node = p at hstep ⊢
        generalize (y.proceed pending).step (ds ++ es) o id node = q at hstep ⊢
        obtain ⟨x', _⟩ := p
        obtain ⟨y', failure?⟩ := q
        obtain ⟨h', rfl⟩ := hstep
        cases failure? with
        | none => exact ih h'
        | some f => exact ⟨h'.recordFailure node f, rfl⟩

end

end Exploration

/-- A detector that only looks on, and whose name no other has, does not interfere with the others,
wherever it stands among them. -/
theorem analyze_insert_observer {d : Detector} {ds es : List Detector} (hd : d.Observes)
    (hnames : ∀ e ∈ ds ++ es, e.name ≠ d.name) (o : Options) (r : Routine) :
    (r.analyze (ds ++ d :: es) o).graph? = (r.analyze (ds ++ es) o).graph? ∧
      (r.analyze (ds ++ d :: es) o).status = (r.analyze (ds ++ es) o).status ∧
      (r.analyze (ds ++ d :: es) o).statistics = (r.analyze (ds ++ es) o).statistics ∧
      Finding.others d.name (r.analyze (ds ++ d :: es) o).journal.findings =
        (r.analyze (ds ++ es) o).journal.findings := by
  unfold Routine.analyze
  cases ControlFlow.ofRoutine r with
  | error f => exact ⟨rfl, rfl, rfl, rfl⟩
  | ok flow =>
    have hstart : Exploration.Omits d.name (.start o flow) (.start o flow) := .intro rfl
    obtain ⟨hrun, hstatus⟩ := hstart.run o hd hnames o.maxSteps
    simp only [explore]
    generalize (Exploration.start o flow).run (ds ++ d :: es) o o.maxSteps = p at hrun hstatus ⊢
    generalize (Exploration.start o flow).run (ds ++ es) o o.maxSteps = q at hrun hstatus ⊢
    obtain ⟨x, _⟩ := p
    obtain ⟨y, status⟩ := q
    cases hstatus
    cases hrun with
    | intro hj => exact ⟨rfl, rfl, rfl, hj.symm⟩

/-- A detector that reports every element that is about to be executed, and then fails. -/
def Detector.grumbler : Detector where
  name := "grumbler"
  before _ e := { result := .error (.internal "not again"), issues := [⟨e.pos, "again", []⟩] }

theorem Detector.grumbler_observes : grumbler.Observes where
  before _ _ := ⟨rfl, fun _ h => by cases h⟩
  after _ _ := ⟨rfl, fun _ h => by cases h; rfl⟩

def Routine.dereference : Routine where
  name := "dereference"
  entry := 0
  blocks := [
    { id := 0
      instructions := [
        .literal .null (.source 1 1),
        .invoke ⟨"Object", "hashCode", [], .int, false⟩ true [] (.source 1 5)]
      terminator := .exit }]

open Detector in
theorem analyze_insert_observer_grumbler :
    grumbler.Observes ∧
      (Routine.dereference.analyze [grumbler, NullDereference.detector] {}).graph? =
        (Routine.dereference.analyze [NullDereference.detector] {}).graph? ∧
      Finding.others "grumbler"
          (Routine.dereference.analyze [grumbler, NullDereference.detector] {}).journal.findings =
        (Routine.dereference.analyze [NullDereference.detector] {}).journal.findings ∧
      (Routine.dereference.analyze [NullDereference.detector] {}).journal.findings.length = 1 ∧
      (Routine.dereference.analyze [grumbler, NullDereference.detector] {}).journal.findings.length =
        3 := by
  have hnames : ∀ e ∈ [] ++ [NullDereference.detector], e.name ≠ grumbler.name := by
    intro e he
    cases List.mem_singleton.1 he
    decide
  have hcounts :
      (Routine.dereference.analyze [NullDereference.detector] {}).journal.findings.length = 1 ∧
      (Routine.dereference.analyze [grumbler, NullDereference.detector] {}).journal.findings.length =
        3 := by
    decide +kernel
  obtain ⟨hgraph, _, _, hfindings⟩ :=
    analyze_insert_observer grumbler_observes hnames {} Routine.dereference
  exact ⟨grumbler_observes, hgraph, hfindings, hcounts⟩

end Pathwise
