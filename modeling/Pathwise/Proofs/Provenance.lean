import Mathlib.Data.List.Induction
import Mathlib.Data.Stream.Init
import Pathwise.ControlFlow

namespace Pathwise

inductive Provenance where
  /-- It was there when the block was entered. -/
  | entry
  /-- The instruction at this index of the block pushed it. -/
  | instruction (index : Nat)
  deriving DecidableEq, Repr

namespace Provenance

def index? : Provenance → Option Nat
  | entry => none
  | instruction index => some index

theorem index?_eq_some {source : Provenance} {k : Nat} :
    source.index? = some k ↔ source = .instruction k := by
  cases source with
  | entry => simp [index?]
  | instruction index => simp [index?]

theorem index?_eq_none {source : Provenance} : source.index? = none ↔ source = .entry := by
  cases source with
  | entry => simp [index?]
  | instruction index => simp [index?]

end Provenance

/-- For each slot of a stack, the top first, where its value comes from. It never runs out. -/
abbrev ProvenanceStack := Stream' Provenance

namespace ProvenanceStack

/-- The instruction at `index` takes its operands and leaves its results. -/
def step (stack : ProvenanceStack) (i : Instruction) (index : Nat) : ProvenanceStack :=
  List.replicate i.results (.instruction index) ++ₛ stack.drop i.operands

def after (instructions : List Instruction) : ProvenanceStack :=
  instructions.zipIdx.foldl (fun stack e => stack.step e.1 e.2) (.const .entry)

theorem after_concat (instructions : List Instruction) (i : Instruction) :
    after (instructions ++ [i]) = (after instructions).step i instructions.length := by
  unfold after
  rw [List.zipIdx_append, List.foldl_append, Nat.zero_add]
  rfl

variable {stack : ProvenanceStack} {i : Instruction} {index depth : Nat}

theorem get_step_of_lt (h : depth < i.results) :
    (stack.step i index).get depth = .instruction index := by
  unfold step
  rw [Stream'.get_append_left _ _ _ (by rwa [List.length_replicate]), List.getElem_replicate]

theorem get_step_of_le (h : i.results ≤ depth) :
    (stack.step i index).get depth = stack.get (depth - i.results + i.operands) := by
  obtain ⟨below, rfl⟩ := Nat.exists_eq_add_of_le h
  have hget := Stream'.get_append_right below
    (List.replicate i.results (Provenance.instruction index)) (stack.drop i.operands)
  rw [List.length_replicate] at hget
  rw [step, hget, Stream'.get_drop, Nat.add_sub_cancel_left, Nat.add_comm]

end ProvenanceStack

namespace ControlFlow

open ProvenanceStack

/-- Walking back from a slot leads to the instruction that filled it. -/
theorem producer?_reverse (instructions : List Instruction) (depth : Nat) :
    producer? instructions.reverse depth = ((after instructions).get depth).index? := by
  induction instructions using List.reverseRecOn generalizing depth with
  | nil => rfl
  | append_singleton instructions i ih =>
    rw [List.reverse_concat, producer?, after_concat]
    split
    next hlt =>
      rw [get_step_of_lt hlt, List.length_reverse]
      rfl
    next hle => rw [get_step_of_le (Nat.le_of_not_lt hle), ih]

theorem lt_length_of_producer? {instructions : List Instruction} {depth k : Nat}
    (h : producer? instructions depth = some k) : k < instructions.length := by
  induction instructions generalizing depth with
  | nil => cases h
  | cons i earlier ih =>
    rw [producer?] at h
    split at h
    · cases h
      exact Nat.lt_succ_self _
    · exact Nat.lt_succ_of_lt (ih h)

variable {c : ControlFlow} {b : Block} {index depth k : Nat}

theorem operandIndex?_eq {id : BlockId} (hb : c.block? id = some b) (index depth : Nat) :
    c.operandIndex? ⟨id, index⟩ depth =
      ((after (b.instructions.take index)).get depth).index? := by
  rw [← producer?_reverse, operandIndex?, hb]
  rfl

theorem exists_operandSource? {id : BlockId} (hb : c.block? id = some b)
    (h : c.operandIndex? ⟨id, index⟩ depth = some k) :
    ∃ i, b.instructions[k]? = some i ∧ c.operandSource? ⟨id, index⟩ depth = some i := by
  have hlt : k < b.instructions.length := by
    have hproducer := h
    rw [operandIndex?, hb] at hproducer
    have hlt := lt_length_of_producer? hproducer
    rw [List.length_reverse, List.length_take] at hlt
    exact Nat.lt_of_lt_of_le hlt (Nat.min_le_right _ _)
  have hget := List.getElem?_eq_getElem hlt
  refine ⟨b.instructions[k], hget, ?_⟩
  rw [operandSource?, hb, h]
  exact hget

theorem operandSource?_eq_none_iff {id : BlockId} (hb : c.block? id = some b) :
    c.operandSource? ⟨id, index⟩ depth = none ↔ c.operandIndex? ⟨id, index⟩ depth = none := by
  cases h : c.operandIndex? ⟨id, index⟩ depth with
  | none =>
    rw [operandSource?, hb, h]
    exact iff_of_true rfl rfl
  | some k =>
    obtain ⟨i, _, hi⟩ := exists_operandSource? hb h
    rw [hi]
    exact iff_of_false (Option.some_ne_none i) (Option.some_ne_none k)

/-- The search for the producer of an operand names exactly the instruction that filled the slot, and
none where the slot was filled before the block was entered. -/
theorem operandSource?_names_producer {id : BlockId} (hb : c.block? id = some b)
    (index depth : Nat) :
    (∀ k, c.operandIndex? ⟨id, index⟩ depth = some k ↔
        (after (b.instructions.take index)).get depth = .instruction k) ∧
      (∀ k, (after (b.instructions.take index)).get depth = .instruction k →
        ∃ i, b.instructions[k]? = some i ∧ c.operandSource? ⟨id, index⟩ depth = some i) ∧
      (c.operandSource? ⟨id, index⟩ depth = none ↔
        (after (b.instructions.take index)).get depth = .entry) := by
  refine ⟨fun k => ?_, fun k h => ?_, ?_⟩
  · rw [operandIndex?_eq hb, Provenance.index?_eq_some]
  · apply exists_operandSource? hb
    rw [operandIndex?_eq hb, h]
    rfl
  · rw [operandSource?_eq_none_iff hb, operandIndex?_eq hb, Provenance.index?_eq_none]

def nested : ControlFlow where
  routine := {
    name := "nested"
    entry := 0
    blocks := [
      { id := 0
        instructions := [.read "r" .unknown, .read "a" .unknown, .read "b" .unknown,
          .binary .plus .unknown, .read "c" .unknown,
          .invoke ⟨"A", "m", ["int", "int"], .void, false⟩ true [{}, {}] .unknown]
        terminator := .exit }] }
  nodup := by decide
  entry_mem := by decide
  targets_mem _ hb _ hid := Routine.missingTarget?_eq_none (by decide) hb hid

theorem operandSource?_names_producer_nested :
    ∃ b, nested.block? 0 = some b ∧
      (after (b.instructions.take 5)).get 1 = .instruction 3 ∧
      (after (b.instructions.take 5)).get 2 = .instruction 0 ∧
      (after (b.instructions.take 5)).get 3 = .entry ∧
      nested.operandSource? ⟨0, 5⟩ 2 = some (.read "r" .unknown) := by
  have hb : nested.block? 0 = some _ := rfl
  obtain ⟨hsum, _⟩ := operandSource?_names_producer hb 5 1
  obtain ⟨hreceiver, hsource, _⟩ := operandSource?_names_producer hb 5 2
  obtain ⟨_, _, hnone⟩ := operandSource?_names_producer hb 5 3
  have hslot := (hreceiver 0).1 rfl
  refine ⟨_, hb, (hsum 3).1 rfl, hslot, hnone.1 rfl, ?_⟩
  obtain ⟨i, hi, hfound⟩ := hsource 0 hslot
  rw [hfound, ← hi]
  rfl

end ControlFlow

end Pathwise
