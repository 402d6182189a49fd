import Pathwise.Graph
import Pathwise.Options

namespace Pathwise

structure Worklist where
  heuristic : Heuristic
  /-- The next node comes first. -/
  front : List NodeId := []
  /-- The nodes after those in front, the last one first. -/
  back : List NodeId := []
  deriving DecidableEq, Repr

namespace Worklist

/-- The pending nodes, the next one first. -/
def toList (w : Worklist) : List NodeId := w.front ++ w.back.reverse

def size (w : Worklist) : Nat := w.front.length + w.back.length

@[simp] theorem length_toList (w : Worklist) : w.toList.length = w.size := by
  simp [toList, size]

/-- Adds a node: as the next one in depth-first order, as the last one in breadth-first order. -/
def add (w : Worklist) (id : NodeId) : Worklist :=
  match w.heuristic with
  | .depthFirst => { w with front := id :: w.front }
  | .breadthFirst => { w with back := id :: w.back }

theorem toList_add (w : Worklist) (id : NodeId) :
    (w.add id).toList =
      match w.heuristic with
      | .depthFirst => id :: w.toList
      | .breadthFirst => w.toList ++ [id] := by
  cases h : w.heuristic <;> simp [add, toList, h]

@[simp] theorem mem_toList_add {w : Worklist} {id j : NodeId} :
    j ∈ (w.add id).toList ↔ j = id ∨ j ∈ w.toList := by
  rw [toList_add]
  split <;> simp [or_comm]

def next? (w : Worklist) : Option (NodeId × Worklist) :=
  match w.front with
  | id :: rest => some (id, { w with front := rest })
  | [] =>
    match w.back.reverse with
    | id :: rest => some (id, { w with front := rest, back := [] })
    | [] => none

theorem next?_eq_none_iff {w : Worklist} : w.next? = none ↔ w.toList = [] := by
  unfold next? toList
  split
  · simp_all
  · split <;> simp_all

theorem toList_of_next? {w v : Worklist} {id : NodeId} (h : w.next? = some (id, v)) :
    w.toList = id :: v.toList := by
  unfold next? at h
  unfold toList
  split at h
  next hf =>
    cases h
    rw [hf]
    rfl
  next hf =>
    split at h
    next hb =>
      cases h
      simp [hf, hb]
    next => contradiction

end Worklist

end Pathwise
