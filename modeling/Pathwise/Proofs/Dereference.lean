import Pathwise.Detector.NullDereference
import Pathwise.Proofs.Congruence
import Pathwise.Proofs.Edges
import Pathwise.Proofs.Effects

namespace Pathwise

theorem State.object_cases {s : State} {v : Value} {c : Constraint}
    (h : s.constraint? v .object = some c) : c = .null ∨ c = .notNull := by
  have hdomain := constraint?_domain h
  cases c with
  | null => exact .inl rfl
  | notNull => exact .inr rfl
  | truth | custom => contradiction

namespace Detector.NullDereference

/-- Nothing is known of the value, but one that is known to be the same is null. -/
def Clashes (s : State) (v : Value) : Prop :=
  s.constraint? v .object = none ∧ ∃ w ∈ s.equalValues v, s.constraint? w .object = some .null

variable {w : View} {element : Element} {depth : Nat} {v : Value}

theorem constrainEqual?_eq_none {s : State} (hv : s.constraint? v .object = none) :
    s.constrainEqual? v .notNull = none ↔
      ∃ u ∈ s.equalValues v, s.constraint? u .object = some .null := by
  rw [← Option.not_isSome_iff_eq_none, Option.isSome_iff_exists, State.constrainEqual?,
    State.foldlM_constrain?, List.forall_mem_cons]
  constructor
  · intro h
    refine Classical.byContradiction fun hnone => h ⟨fun c hc => ?_, fun u hu c hc => ?_⟩
    · rw [Constraint.domain, hv] at hc
      contradiction
    · exact (State.object_cases hc).resolve_left fun hnull => hnone ⟨u, hu, hnull ▸ hc⟩
  · rintro ⟨u, hu, hnull⟩ ⟨_, h⟩
    have hsame := h u hu .null hnull
    contradiction

/-- Where the path goes on, the receiver is known not to be null, unless that clashes. -/
theorem before_stateFrom (hdepth : receiverDepth? element = some depth)
    (hv : w.state.stack[depth]? = some v) (hsink : (before w element).sink = false) :
    w.state.constraint? v .object ≠ some .null ∧
      (((before w element).stateFrom w.state).constraint? v .object = some .notNull ↔
        ¬ Clashes w.state v) := by
  have hpeek : w.state.peek depth = .ok v := by
    rw [State.peek, hv]
  simp only [before, hdepth, hpeek] at hsink ⊢
  cases hheld : w.state.constraint? v .object with
  | some c =>
    rcases State.object_cases hheld with rfl | rfl
    · simp only [hheld] at hsink
      contradiction
    · simp only [hheld, Reaction.stateFrom, Reaction.keep, Clashes]
      simp
  | none =>
    simp only [hheld, Reaction.stateFrom, Reaction.keep, Clashes, true_and,
      ← constrainEqual?_eq_none hheld]
    refine ⟨(Option.some_ne_none _).symm, ?_⟩
    cases hall : w.state.constrainEqual? v .notNull with
    | some t =>
      rw [Option.getD_some, State.constraint?_of_foldlM hall,
        if_pos ⟨⟨v, .head _, Setoid.refl v⟩, rfl⟩]
      exact iff_of_true rfl (Option.some_ne_none t)
    | none =>
      rw [Option.getD_none, hheld]
      exact iff_of_false (Option.some_ne_none _).symm (not_not_intro rfl)

theorem not_creates {i : Instruction} (h : receiverDepth? (.instruction i) = some depth) :
    ¬ i.Creates := by
  rintro (⟨_, _, rfl⟩ | ⟨_, _, _, rfl⟩) <;> contradiction

end Detector.NullDereference

open Detector NullDereference Exploration

theorem Exploration.Continues.dereferenced {o : Options} {x : Exploration} {id : NodeId} {m : Node}
    {element : Element} {q : Point} {t : State} {depth : Nat} {v : Value}
    (h : Continues [detector] o x id m element q t) (hdepth : receiverDepth? element = some depth)
    (hv : m.state.stack[depth]? = some v) :
    m.state.constraint? v .object ≠ some .null ∧
      (t.constraint? v .object = some .notNull ↔ ¬ Clashes m.state v) := by
  cases h with
  | goto => contradiction
  | branch => contradiction
  | next hbefore hexecute hafter =>
    obtain ⟨hsink, rfl⟩ := Journal.consult_singleton hbefore
    obtain ⟨_, rfl⟩ := Journal.consult_singleton hafter
    obtain ⟨hnull, hnotNull⟩ := before_stateFrom (w := x.view o id m m.state) hdepth hv hsink
    refine ⟨hnull, Iff.trans ?_ hnotNull⟩
    -- the instruction itself tells nothing
    have hconstraints := (Instruction.execute_executed hexecute).constraints.resolve_right
      fun h => not_creates hdepth h.1
    simp only [State.constraint?, State.constraintsOf?, detector, Reaction.stateFrom, Reaction.keep]
      at hconstraints ⊢
    rw [hconstraints]
    rfl

/-- In any exploration that looks for null dereferences, a regular edge from a dereference starts
where the receiver is not known to be null. As long as the receiver can be observed after it, it is
known not to be null, exactly unless nothing was known of it and a value that is known to be the
same is null. -/
theorem explore_dereferenced {o : Options} {flow : ControlFlow} {g : Graph} {i : NodeId}
    {m n : Node} {e : Edge} {element : Element} {depth : Nat} {v : Value}
    (hg : (explore [detector] o flow).graph? = some g) (hn : g.node? i = some n)
    (he : e ∈ n.parents) (hregular : e.exceptional = false) (hm : g.node? e.parent = some m)
    (helement : flow.element m.point = .ok element) (hdepth : receiverDepth? element = some depth)
    (hv : m.state.stack[depth]? = some v) (hreach : n.state.canReach v) :
    m.state.constraint? v .object ≠ some .null ∧
      (n.state.constraint? v .object = some .notNull ↔
        ¬ (m.state.constraint? v .object = none ∧
          ∃ w ∈ m.state.equalValues v, m.state.constraint? w .object = some .null)) := by
  obtain ⟨done, x, failure?, hx, hgraph, _, _⟩ := explore_reached [detector] o flow
  cases hgraph.symm.trans hg
  obtain ⟨hextends, hm₀, helement₀, hcontinues, hstate⟩ := hx.allTaken hn he hregular
  obtain ⟨m', hm', hsame⟩ := hextends.node hm₀
  cases hm.symm.trans hm'
  rw [hx.flow_eq, ← hsame.point, helement] at helement₀
  cases helement₀
  have hafter := hcontinues.dereferenced hdepth (hsame.state ▸ hv)
  rw [State.canReach_of_equiv hstate, State.canReach_cleanup] at hreach
  rw [hsame.state, State.constraint?_of_equiv hstate, State.constraint?_cleanup hreach]
  exact hafter

def ControlFlow.alias : ControlFlow where
  routine := {
    name := "alias"
    parameters := [
      { name := "a", type := .reference "Object" }, { name := "b", type := .reference "Object" }]
    entry := 0
    blocks := [
      { id := 0
        instructions := [.read "a" .unknown, .read "b" .unknown, .binary .equal .unknown]
        terminator := .branch 1 2 .unknown },
      { id := 1
        instructions := [.read "a" .unknown,
          .invoke ⟨"Object", "notify", [], .void, false⟩ true [] .unknown]
        terminator := .ret false .unknown },
      { id := 2, instructions := [], terminator := .exit }] }
  nodup := by decide
  entry_mem := by decide
  targets_mem _ hb _ hid := Routine.missingTarget?_eq_none (by decide) hb hid

theorem explore_dereferenced_alias :
    ∃ g m n, (explore [detector] {} .alias).graph? = some g ∧ g.node? 6 = some m ∧
      g.node? 7 = some n ∧ ⟨6, false⟩ ∈ n.parents ∧ m.state.stack = [.simple 3] ∧
      m.state.constraint? (.simple 3) .object = none ∧
      m.state.equalValues (.simple 3) = [.simple 4] ∧
      n.state.constraint? (.simple 3) .object = some .notNull := by
  have hnodes : (explore [detector] {} .alias).graph?.any fun g =>
      (g.node? 6).any fun m => (g.node? 7).any fun n =>
        ⟨6, false⟩ ∈ n.parents ∧ m.point = ⟨1, 1⟩ ∧ m.state.stack = [.simple 3] ∧
          m.state.constraint? (.simple 3) .object = none ∧
          m.state.equalValues (.simple 3) = [.simple 4] ∧
          m.state.constraint? (.simple 4) .object = none ∧ n.state.canReach (.simple 3) := by
    decide +kernel
  obtain ⟨g, hg, hnodes⟩ := (Option.any_eq_true _ _).1 hnodes
  obtain ⟨m, hm, hnodes⟩ := (Option.any_eq_true _ _).1 hnodes
  obtain ⟨n, hn, hnodes⟩ := (Option.any_eq_true _ _).1 hnodes
  obtain ⟨he, hpoint, hstack, hnone, hequal, hother, hreach⟩ := of_decide_eq_true hnodes
  refine ⟨g, m, n, hg, hm, hn, he, hstack, hnone, hequal, ?_⟩
  have helement : ControlFlow.alias.element m.point = .ok (.instruction
      (.invoke ⟨"Object", "notify", [], .void, false⟩ true [] .unknown)) := by
    rw [hpoint]
    rfl
  have hreceiver : m.state.stack[0]? = some (.simple 3) := by
    rw [hstack]
    rfl
  have hlearned := explore_dereferenced hg hn he rfl hm helement rfl hreceiver hreach
  refine hlearned.2.2 ?_
  rintro ⟨_, w, hw, hnull⟩
  rw [hequal, List.mem_singleton] at hw
  rw [hw, hother] at hnull
  cases hnull

/-- A boxed boolean that is not `true` is `false` or null. Here it is also the receiver of a call. -/
def ControlFlow.boxed : ControlFlow where
  routine := {
    name := "boxed"
    parameters := [
      { name := "v", type := .reference "Object" }, { name := "w", type := .boxedBoolean }]
    entry := 0
    blocks := [
      { id := 0
        instructions := [.read "v" .unknown, .read "w" .unknown, .binary .equal .unknown]
        terminator := .branch 1 3 .unknown },
      { id := 1
        instructions := [.read "w" .unknown, .literal (.bool true) .unknown,
          .binary .notEqual .unknown]
        terminator := .branch 2 3 .unknown },
      { id := 2
        instructions := [.read "v" .unknown,
          .invoke ⟨"Object", "hashCode", [], .void, false⟩ true [] .unknown]
        terminator := .ret false .unknown },
      { id := 3, instructions := [], terminator := .ret false .unknown }] }
  nodup := by decide
  entry_mem := by decide
  targets_mem _ hb _ hid := Routine.missingTarget?_eq_none (by decide) hb hid

/-- The call is made, its receiver can still be observed, and it is not known not to be null. -/
theorem boxed_receiver_stays_unknown :
    ∃ g m n, (explore [detector] {} .boxed).graph? = some g ∧ g.node? 14 = some m ∧
      g.node? 15 = some n ∧ ⟨14, false⟩ ∈ n.parents ∧
      (ControlFlow.boxed.element m.point).toOption.bind receiverDepth? = some 0 ∧
      m.state.stack = [.simple 3] ∧ n.state.canReach (.simple 3) ∧
      n.state.constraint? (.simple 3) .object = none := by
  have hnodes : (explore [detector] {} .boxed).graph?.any fun g =>
      (g.node? 14).any fun m => (g.node? 15).any fun n =>
        ⟨14, false⟩ ∈ n.parents ∧
          (ControlFlow.boxed.element m.point).toOption.bind receiverDepth? = some 0 ∧
          m.state.stack = [.simple 3] ∧ n.state.canReach (.simple 3) ∧
          n.state.constraint? (.simple 3) .object = none := by
    decide +kernel
  obtain ⟨g, hg, hnodes⟩ := (Option.any_eq_true _ _).1 hnodes
  obtain ⟨m, hm, hnodes⟩ := (Option.any_eq_true _ _).1 hnodes
  obtain ⟨n, hn, hnodes⟩ := (Option.any_eq_true _ _).1 hnodes
  exact ⟨g, m, n, hg, hm, hn, of_decide_eq_true hnodes⟩

end Pathwise
