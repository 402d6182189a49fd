import Pathwise.Failure
import Pathwise.Program

namespace Pathwise

inductive Element where
  | instruction (i : Instruction)
  | terminator (t : Terminator)
  deriving DecidableEq

namespace Element

def pos : Element → Position
  | instruction i => i.pos
  | terminator t => t.pos

def operands : Element → Nat
  | instruction i => i.operands
  | terminator t => t.operands

def results : Element → Nat
  | instruction i => i.results
  | terminator _ => 0

def kind : Element → String
  | instruction (.literal ..) => "literal"
  | instruction (.read ..) => "read"
  | instruction (.assign ..) => "assign"
  | instruction (.pop ..) => "pop"
  | instruction (.newObject ..) => "new_object"
  | instruction (.invoke ..) => "invoke"
  | instruction (.memberSelect ..) => "member_select"
  | instruction (.binary ..) => "binary"
  | instruction (.unary ..) => "unary"
  | terminator (.goto ..) => "goto"
  | terminator (.branch ..) => "branch"
  | terminator (.ret ..) => "return"
  | terminator (.throw ..) => "throw"
  | terminator .exit => "exit"

end Element

namespace Routine

def blockIds (r : Routine) : List BlockId := r.blocks.map Block.id

/-- The first id that stands in the list, or in `seen`, before. -/
def repeated? (seen : List BlockId) : List BlockId → Option BlockId
  | [] => none
  | id :: ids => if id ∈ seen then some id else repeated? (id :: seen) ids

theorem repeated?_eq_none {seen ids : List BlockId} (h : repeated? seen ids = none) :
    ids.Nodup ∧ ∀ id ∈ ids, id ∉ seen := by
  induction ids generalizing seen with
  | nil => simp
  | cons id ids ih =>
    simp only [repeated?] at h
    split at h
    · contradiction
    next hid =>
      have ⟨hnodup, hseen⟩ := ih h
      refine ⟨List.nodup_cons.2 ⟨fun hmem => hseen id hmem (.head _), hnodup⟩, fun x hx => ?_⟩
      rcases List.mem_cons.1 hx with rfl | hx
      · exact hid
      · exact fun hmem => hseen x hx (.tail _ hmem)

/-- The first jump target that is no block of the routine. -/
def missingTarget? (r : Routine) : Option BlockId :=
  (r.blocks.flatMap Block.targets).find? fun id => decide (id ∉ r.blockIds)

theorem missingTarget?_eq_none {r : Routine} (h : r.missingTarget? = none) {b : Block}
    (hb : b ∈ r.blocks) {id : BlockId} (hid : id ∈ b.targets) : id ∈ r.blockIds := by
  have := List.find?_eq_none.1 h id (List.mem_flatMap.2 ⟨b, hb, hid⟩)
  simpa using this

end Routine

/-- A routine whose blocks have distinct ids and whose entry and jump targets exist. -/
structure ControlFlow where
  routine : Routine
  nodup : routine.blockIds.Nodup
  entry_mem : routine.entry ∈ routine.blockIds
  targets_mem : ∀ b ∈ routine.blocks, ∀ id ∈ b.targets, id ∈ routine.blockIds

namespace ControlFlow

def ofRoutine (r : Routine) : Except Failure ControlFlow :=
  match hdup : Routine.repeated? [] r.blockIds with
  | some id => .error (.malformed (.duplicateBlock id))
  | none =>
    if hentry : r.entry ∈ r.blockIds then
      match hmiss : r.missingTarget? with
      | some id => .error (.malformed (.missingBlock id))
      | none =>
        .ok ⟨r, (Routine.repeated?_eq_none hdup).1, hentry,
          fun _ hb _ hid => Routine.missingTarget?_eq_none hmiss hb hid⟩
    else .error (.malformed (.missingBlock r.entry))

def name (c : ControlFlow) : String := c.routine.name

def parameters (c : ControlFlow) : List Parameter := c.routine.parameters

def entry (c : ControlFlow) : Point := ⟨c.routine.entry, 0⟩

def block? (c : ControlFlow) (id : BlockId) : Option Block :=
  c.routine.blocks.find? fun b => b.id == id

theorem mem_of_block? {c : ControlFlow} {id : BlockId} {b : Block} (h : c.block? id = some b) :
    b ∈ c.routine.blocks ∧ b.id = id :=
  ⟨List.mem_of_find?_eq_some h, by simpa using List.find?_some h⟩

theorem exists_block {c : ControlFlow} {id : BlockId} (h : id ∈ c.routine.blockIds) :
    ∃ b, c.block? id = some b := by
  obtain ⟨b, hb, rfl⟩ := List.mem_map.1 h
  exact Option.isSome_iff_exists.1 (List.find?_isSome.2 ⟨b, hb, by simp⟩)

def block (c : ControlFlow) (id : BlockId) : Except Failure Block :=
  match c.block? id with
  | some b => .ok b
  | none => .error (.malformed (.missingBlock id))

def element (c : ControlFlow) (p : Point) : Except Failure Element := do
  let b ← c.block p.block
  match b.instructions[p.index]? with
  | some i => .ok (.instruction i)
  | none =>
    if p.index = b.instructions.length then .ok (.terminator b.terminator)
    else .error (.malformed (.pointOutOfRange p))

/-- Where control goes when an instruction of a block throws. -/
def handlers (c : ControlFlow) (id : BlockId) : Except Failure (List BlockId) :=
  return (← c.block id).handlers

def successors (c : ControlFlow) (id : BlockId) : Except Failure (List BlockId) :=
  return (← c.block id).terminator.targets

/-- The index of the instruction that pushed the value `depth` slots below the top, given the
instructions that ran, the last one first. -/
def producer? : List Instruction → Nat → Option Nat
  | [], _ => none
  | i :: earlier, depth =>
    if depth < i.results then some earlier.length
    else producer? earlier (depth - i.results + i.operands)

/-- The index in the same block of the instruction that pushed the value found `depth` slots below
the top of the stack right before `p`. -/
def operandIndex? (c : ControlFlow) (p : Point) (depth : Nat) : Option Nat := do
  let b ← c.block? p.block
  producer? (b.instructions.take p.index).reverse depth

/-- The instruction of the same block that pushed the value found `depth` slots below the top of
the stack right before `p`. -/
def operandSource? (c : ControlFlow) (p : Point) (depth : Nat) : Option Instruction := do
  let b ← c.block? p.block
  b.instructions[← c.operandIndex? p depth]?

/-- The variable read to produce the operand `depth` slots below the top, if it was read in the
same block. -/
def operandVariable? (c : ControlFlow) (p : Point) (depth : Nat) : Option String :=
  match c.operandSource? p depth with
  | some (.read var _) => some var
  | _ => none

def blockIds (c : ControlFlow) : List BlockId := c.routine.blockIds.mergeSort

end ControlFlow

end Pathwise
