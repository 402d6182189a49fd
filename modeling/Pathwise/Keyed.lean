namespace Pathwise

universe u v

/-- Entries in increasing order of `key`, one for each key. The key of a set's member is the member
up to equality, that of a map's entry is its first component. -/
structure Keyed {ε : Type u} {κ : Type v} [Ord κ] (key : ε → κ) where
  entries : List ε
  increasing : entries.Pairwise fun a b => compare (key a) (key b) = .lt

namespace Keyed

variable {ε : Type u} {κ : Type v} [Ord κ] {key : ε → κ}

def empty : Keyed key := ⟨[], .nil⟩

instance : EmptyCollection (Keyed key) := ⟨empty⟩

instance : Inhabited (Keyed key) := ⟨empty⟩

theorem ext {c d : Keyed key} (h : c.entries = d.entries) : c = d := by
  cases c; cases d; cases h; rfl

instance [DecidableEq ε] : DecidableEq (Keyed key) := fun c d =>
  decidable_of_iff (c.entries = d.entries) ⟨ext, fun h => h ▸ rfl⟩

def toList (c : Keyed key) : List ε := c.entries

def size (c : Keyed key) : Nat := c.entries.length

def isEmpty (c : Keyed key) : Bool := c.entries.isEmpty

def find? (c : Keyed key) (k : κ) : Option ε :=
  c.entries.find? fun e => compare (key e) k == .eq

def contains (c : Keyed key) (k : κ) : Bool := (c.find? k).isSome

def filter (c : Keyed key) (p : ε → Bool) : Keyed key :=
  ⟨c.entries.filter p, c.increasing.filter p⟩

/-- Drops the entry with key `k`. -/
def erase (c : Keyed key) (k : κ) : Keyed key :=
  c.filter fun e => compare (key e) k != .eq

/-- Puts `e` at its place, instead of the entry that has its key. -/
def place (key : ε → κ) (e : ε) : List ε → List ε
  | [] => [e]
  | x :: xs =>
    match compare (key e) (key x) with
    | .lt => e :: x :: xs
    | .eq => e :: xs
    | .gt => x :: place key e xs

theorem mem_place {e a : ε} {xs : List ε} (h : a ∈ place key e xs) : a = e ∨ a ∈ xs := by
  induction xs with
  | nil => simpa [place] using h
  | cons x xs ih =>
    simp only [place] at h
    split at h
    · simpa using h
    · simp only [List.mem_cons] at h ⊢
      exact h.imp_right .inr
    · simp only [List.mem_cons] at h ⊢
      rcases h with h | h
      · exact .inr (.inl h)
      · exact (ih h).imp_right .inr

theorem place_increasing [Std.TransOrd κ] (e : ε) {xs : List ε}
    (h : xs.Pairwise fun a b => compare (key a) (key b) = .lt) :
    (place key e xs).Pairwise fun a b => compare (key a) (key b) = .lt := by
  induction xs with
  | nil => simp [place]
  | cons x xs ih =>
    have hx := (List.pairwise_cons.1 h).1
    have hxs := (List.pairwise_cons.1 h).2
    simp only [place]
    split
    next hlt =>
      refine List.pairwise_cons.2 ⟨fun a ha => ?_, h⟩
      rcases List.mem_cons.1 ha with rfl | ha
      · exact hlt
      · exact Std.TransCmp.lt_trans hlt (hx a ha)
    next heq =>
      exact List.pairwise_cons.2 ⟨fun a ha => Std.TransCmp.lt_of_eq_of_lt heq (hx a ha), hxs⟩
    next hgt =>
      refine List.pairwise_cons.2 ⟨fun a ha => ?_, ih hxs⟩
      rcases mem_place ha with rfl | ha
      · exact Std.OrientedCmp.gt_iff_lt.1 hgt
      · exact hx a ha

/-- Adds `e`, instead of the entry that has its key. -/
def insert [Std.TransOrd κ] (e : ε) (c : Keyed key) : Keyed key :=
  ⟨place key e c.entries, place_increasing e c.increasing⟩

def ofList [Std.TransOrd κ] (xs : List ε) : Keyed key :=
  xs.foldl (fun c e => c.insert e) ∅

end Keyed

end Pathwise
