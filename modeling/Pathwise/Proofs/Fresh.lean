import Pathwise.Proofs.Registry
import Pathwise.Proofs.Soundness

namespace Pathwise

variable {m n : Nat} {ρ σ : Valuation}

namespace Value

def Below (n : Nat) : Value → Prop
  | simple id | boolean id => id < n
  | not id v => id < n ∧ v.Below n
  | binary id _ l r => id < n ∧ l.Below n ∧ r.Below n
  | relational _ l r => l.Below n ∧ r.Below n

theorem below_iff {v : Value} : v.Below n ↔ ∀ w ∈ v.parts, ∀ id, w.id? = some id → id < n := by
  induction v with
  | simple | boolean => simp [Below, parts, id?]
  | not _ _ ih => simp [Below, parts, id?, ih]
  | binary _ _ _ _ ihl ihr | relational _ _ _ ihl ihr =>
    simp [Below, parts, id?, ihl, ihr, or_imp, forall_and]

theorem Below.mono {v : Value} (h : v.Below m) (hmn : m ≤ n) : v.Below n :=
  below_iff.2 fun w hw id hid => Nat.lt_of_lt_of_le (below_iff.1 h w hw id hid) hmn

theorem Below.operand {v w : Value} (h : v.Below n) (hw : w ∈ v.operands) : w.Below n :=
  below_iff.2 fun u hu => below_iff.1 h u (mem_parts.2 (.inr ⟨w, hw, hu⟩))

theorem Listed.below {made : List Value} {v : Value} (h : v.Listed made) : v.Below made.length :=
  below_iff.2 fun w hw id hid => (List.getElem?_eq_some_iff.1 (h w hw id hid)).1

theorem eval_of_below {v : Value} (h : v.Below n) (hρ : ∀ id < n, ρ id = σ id) :
    v.eval ρ = v.eval σ := by
  induction v with
  | simple id =>
    match id, h with
    | 0, _ | 1, _ | 2, _ => rfl
    | id + 3, h => exact congrArg some (hρ _ h)
  | boolean id => exact congrArg some (hρ id h)
  | not _ _ ih => rw [eval, eval, ih h.2]
  | binary _ _ _ _ ihl ihr => rw [eval, eval, ihl h.2.1, ihr h.2.2]
  | relational _ _ _ ihl ihr => rw [eval, eval, ihl h.1, ihr h.2]

end Value

namespace State

abbrev Below (n : Nat) (s : State) : Prop := s.All (Value.Below n)

theorem Below.mono {s : State} (h : s.Below m) (hmn : m ≤ n) : s.Below n :=
  h.imp fun _ hv => hv.mono hmn

theorem Below.put_fresh {s : State} {supply : Supply} (h : s.Below supply.next) (var : String)
    {v : Value} (hv : v = .simple supply.next ∨ v = .boolean supply.next) :
    (s.put var v).Below (supply.next + 1) := by
  apply All.put (h.mono (Nat.le_succ _))
  rcases hv with rfl | rfl <;> exact Nat.lt_succ_self _

theorem below_constants (hn : Value.firstFreeId ≤ n) :
    Value.null.Below n ∧ Value.true.Below n ∧ Value.false.Below n :=
  ⟨Nat.lt_of_lt_of_le (by decide) hn, Nat.lt_of_lt_of_le (by decide) hn,
    Nat.lt_of_lt_of_le (by decide) hn⟩

theorem below_empty (hn : Value.firstFreeId ≤ n) : State.empty.Below n :=
  all_empty (below_constants hn)

theorem durable_below (hn : Value.firstFreeId ≤ n) : Durable (Value.Below n) (State.Below n) :=
  durable_all Value.Below.operand (below_constants hn) fun hl hr => ⟨hl, hr⟩

theorem Models.of_below {M : Meaning} {s : State} (h : s.Models M ρ) (hbelow : s.Below n)
    (hρ : ∀ id < n, ρ id = σ id) : s.Models M σ where
  constraints e he := by
    rw [← Value.eval_of_below (hbelow.constraints e he) hρ]
    exact h.constraints e he
  relations r hr := by
    rw [Relation.Holds, ← Value.eval_of_below (v := r.toValue) (hbelow.relations r hr) hρ]
    exact h.relations r hr

end State

namespace Exploration

variable {o : Options} {flow : ControlFlow} {done : List NodeId} {x : Exploration}

/-- No node depends on an id that is still to come. -/
structure Fresh (x : Exploration) : Prop where
  free : Value.firstFreeId ≤ x.supply.next
  below : ∀ {id node}, x.graph.node? id = some node → node.state.Below x.supply.next

theorem Recorded.fresh {made : List Value} (h : x.Recorded made) : x.Fresh where
  free := h.issued.length ▸ h.issued.constants.length_le
  below hn := by
    rw [h.issued.length]
    exact (h.node hn).imp fun _ hv => hv.below

theorem Reached.fresh {failure? : Option Failure} (h : Reached [] o flow done x failure?) :
    x.Fresh := by
  obtain ⟨made, hmade⟩ := h.recorded fun _ _ hd => by contradiction
  exact hmade.fresh

end Exploration

end Pathwise
