namespace Pathwise

/-- A place in the source text. -/
inductive Position where
  | unknown
  | source (line col : UInt64)
  deriving DecidableEq, Repr, Inhabited

namespace Position

def text : Position → String
  | unknown => "<unknown>"
  | source line col => toString line.toNat ++ ":" ++ toString col.toNat

/-- Unknown positions come first, the others follow by line, then by column. -/
def compare : Position → Position → Ordering
  | unknown, unknown => .eq
  | unknown, source _ _ => .lt
  | source _ _, unknown => .gt
  | source l c, source m d => (Ord.compare l m).then (Ord.compare c d)

/-- In order of position; equal positions keep their order. -/
def sort (ps : List Position) : List Position := ps.mergeSort fun p q => (compare p q).isLE

end Position

abbrev BlockId := UInt64

/-- The `index`-th element of a block. The index one past the last instruction is the block's
terminator. -/
structure Point where
  block : BlockId
  index : Nat
  deriving DecidableEq, Repr, Inhabited

namespace Point

def next (p : Point) : Point := { p with index := p.index + 1 }

def text (p : Point) : String := "B" ++ toString p.block.toNat ++ "." ++ toString p.index

instance : Ord Point := ⟨compareLex (compareOn Point.block) (compareOn Point.index)⟩

instance : Std.TransOrd Point :=
  inferInstanceAs (Std.TransCmp (compareLex (compareOn Point.block) (compareOn Point.index)))

instance : Std.LawfulEqOrd Point where
  eq_of_compare {p q} h := by
    have h : (Ord.compare p.block q.block).then (Ord.compare p.index q.index) = .eq := h
    have hb : p.block = q.block := Std.LawfulEqCmp.compare_eq_iff_eq.1 (Ordering.then_eq_eq.1 h).1
    have hi : p.index = q.index := Nat.compare_eq_eq.1 (Ordering.then_eq_eq.1 h).2
    cases p; cases q; cases hb; cases hi; rfl

end Point

end Pathwise
