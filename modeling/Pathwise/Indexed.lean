import Std.Data.TreeMap.Lemmas

namespace Pathwise

universe u

/-- Members in the order they were added, and for each mark the places of those that carry it. -/
structure Indexed {α : Type u} (mark : α → UInt64) where
  items : Array α
  places : Std.TreeMap UInt64 (List Nat)
  places_eq : ∀ m, places.getD m [] =
    (List.range items.size).filter fun i => items[i]?.any fun a => mark a == m

namespace Indexed

variable {α : Type u} {mark : α → UInt64}

def empty : Indexed mark := ⟨#[], ∅, fun _ => by simp⟩

instance : EmptyCollection (Indexed mark) := ⟨empty⟩

instance : Inhabited (Indexed mark) := ⟨empty⟩

def size (c : Indexed mark) : Nat := c.items.size

def toList (c : Indexed mark) : List α := c.items.toList

def get? (c : Indexed mark) (i : Nat) : Option α := c.items[i]?

theorem places_push (items : Array α) (a : α) (m : UInt64) :
    ((List.range (items.push a).size).filter fun i => (items.push a)[i]?.any (mark · == m)) =
      ((List.range items.size).filter fun i => items[i]?.any (mark · == m)) ++
        if mark a == m then [items.size] else [] := by
  rw [Array.size_push, List.range_succ, List.filter_append]
  congr 1
  · refine List.filter_congr fun i hi => ?_
    rw [Array.getElem?_push, if_neg (Nat.ne_of_lt (List.mem_range.1 hi))]
  · simp only [List.filter_cons, Array.getElem?_push, if_true, Option.any_some, List.filter_nil]

theorem getD_insert_push (c : Indexed mark) (a : α) (m : UInt64) :
    (c.places.insert (mark a) (c.places.getD (mark a) [] ++ [c.items.size])).getD m [] =
      (List.range (c.items.push a).size).filter fun i =>
        (c.items.push a)[i]?.any (mark · == m) := by
  rw [places_push, ← c.places_eq, Std.TreeMap.getD_insert]
  by_cases h : mark a = m <;> simp [h]

/-- Adds a member at the end. -/
def push (c : Indexed mark) (a : α) : Indexed mark :=
  let places := c.places.insert (mark a) (c.places.getD (mark a) [] ++ [c.items.size])
  ⟨c.items.push a, places, c.getD_insert_push a⟩

/-- Changes the member at a place, but not its mark. -/
def modify (c : Indexed mark) (i : Nat) (f : α → α) (h : ∀ a, mark (f a) = mark a) :
    Indexed mark where
  items := c.items.modify i f
  places := c.places
  places_eq m := by
    rw [c.places_eq, Array.size_modify]
    refine List.filter_congr fun j _ => ?_
    rw [Array.getElem?_modify]
    split
    · cases c.items[j]? <;> simp [h]
    · rfl

/-- The first place of a member with mark `m` that satisfies `p`. -/
def find? (c : Indexed mark) (m : UInt64) (p : α → Bool) : Option Nat :=
  (c.places.getD m []).find? fun i => c.items[i]?.any p

@[simp] theorem items_empty : (∅ : Indexed mark).items = #[] := rfl

@[simp] theorem items_push (c : Indexed mark) (a : α) : (c.push a).items = c.items.push a := rfl

@[simp] theorem items_modify (c : Indexed mark) (i : Nat) (f : α → α)
    (h : ∀ a, mark (f a) = mark a) : (c.modify i f h).items = c.items.modify i f := rfl

theorem find?_range_eq_findIdx? (items : Array α) (p : α → Bool) :
    ((List.range items.size).find? fun i => items[i]?.any p) = items.findIdx? p := by
  apply Option.ext
  intro i
  rw [List.find?_range_eq_some, Array.findIdx?_eq_some_iff_getElem, List.mem_range]
  constructor
  · rintro ⟨hp, hi, hlt⟩
    refine ⟨hi, by simpa [hi] using hp, fun j hj => ?_⟩
    have hj' : j < items.size := Nat.lt_trans hj hi
    simpa [hj'] using hlt j hj
  · rintro ⟨hi, hp, hlt⟩
    refine ⟨by simpa [hi] using hp, hi, fun j hj => ?_⟩
    have hj' : j < items.size := Nat.lt_trans hj hi
    simpa [hj'] using hlt j hj

/-- Where all that is searched for carries the mark, the index loses nothing. -/
theorem find?_eq_findIdx? {c : Indexed mark} {m : UInt64} {p : α → Bool}
    (h : ∀ a, p a → mark a = m) : c.find? m p = c.items.findIdx? p := by
  rw [find?, places_eq, List.find?_filter, ← find?_range_eq_findIdx?]
  congr 1
  funext i
  cases hi : c.items[i]? with
  | none => simp
  | some a =>
    by_cases hp : p a
    · simp [hp, h a hp]
    · simp [hp]

end Indexed

end Pathwise
