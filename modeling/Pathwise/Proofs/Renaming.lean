import Pathwise.Proofs.Closure

namespace Pathwise

namespace Keyed

universe u v

variable {ε ε' : Type u} {κ κ' : Type v} [Ord κ] [Ord κ'] {key : ε → κ} {key' : ε' → κ'}

def map (f : ε → ε') (hf : ∀ a b, compare (key' (f a)) (key' (f b)) = compare (key a) (key b))
    (c : Keyed key) : Keyed key' where
  entries := c.entries.map f
  increasing := List.pairwise_map.2 (c.increasing.imp fun h => (hf _ _).trans h)

variable {f : ε → ε'} {hf : ∀ a b, compare (key' (f a)) (key' (f b)) = compare (key a) (key b)}
  {c : Keyed key}

@[simp] theorem toList_map : (c.map f hf).toList = c.toList.map f := rfl

@[simp] theorem size_map : (c.map f hf).size = c.size := List.length_map ..

theorem find?_map {k : κ} {k' : κ'} (hk : ∀ e, compare (key' (f e)) k' = compare (key e) k) :
    (c.map f hf).find? k' = (c.find? k).map f := by
  simp only [find?, map, List.find?_map, Function.comp_def, hk]

theorem contains_map {k : κ} {k' : κ'} (hk : ∀ e, compare (key' (f e)) k' = compare (key e) k) :
    (c.map f hf).contains k' = c.contains k := by
  rw [contains, find?_map hk, Option.isSome_map, contains]

theorem map_filter {p : ε → Bool} {p' : ε' → Bool} (hp : ∀ e, p' (f e) = p e) :
    (c.map f hf).filter p' = (c.filter p).map f hf := by
  apply ext
  simp only [filter, map, List.filter_map, Function.comp_def, hp]

theorem map_erase {k : κ} {k' : κ'} (hk : ∀ e, compare (key' (f e)) k' = compare (key e) k) :
    (c.map f hf).erase k' = (c.erase k).map f hf :=
  map_filter fun e => by rw [hk]

theorem map_insert [Std.TransOrd κ] [Std.TransOrd κ'] (e : ε) :
    (c.map f hf).insert (f e) = (c.insert e).map f hf := by
  apply ext
  change place key' (f e) (c.entries.map f) = (place key e c.entries).map f
  induction c.entries with
  | nil => rfl
  | cons x xs ih =>
    simp only [List.map_cons, place, hf]
    cases compare (key e) (key x) with
    | lt => rfl
    | eq => rfl
    | gt => exact congrArg _ ih

end Keyed

/-- A change of ids that keeps their order and the literal constants. Along one path ids increase,
so the ids of two runs differ by such a change. -/
structure Renaming where
  toFun : Nat → Nat
  increases : ∀ {a b}, a < b → toFun a < toFun b
  constants : ∀ {id}, id < Value.firstFreeId → toFun id = id

namespace Renaming

instance : CoeFun Renaming fun _ => Nat → Nat := ⟨toFun⟩

theorem compare_eq (π : Renaming) (a b : Nat) : compare (π a) (π b) = compare a b := by
  rcases Nat.lt_trichotomy a b with h | rfl | h
  · rw [Nat.compare_eq_lt.2 h, Nat.compare_eq_lt.2 (π.increases h)]
  · rw [Nat.compare_eq_eq.2 rfl, Nat.compare_eq_eq.2 rfl]
  · rw [Nat.compare_eq_gt.2 h, Nat.compare_eq_gt.2 (π.increases h)]

theorem le_apply (π : Renaming) (id : Nat) : id ≤ π id := by
  induction id with
  | zero => exact Nat.zero_le _
  | succ id ih => exact Nat.lt_of_le_of_lt ih (π.increases (Nat.lt_succ_self id))

theorem lt_firstFreeId_iff (π : Renaming) (id : Nat) :
    π id < Value.firstFreeId ↔ id < Value.firstFreeId := by
  constructor
  · exact Nat.lt_of_le_of_lt (π.le_apply id)
  · intro h
    rwa [π.constants h]

end Renaming

namespace Value

variable (π : Renaming)

def rename (π : Renaming) : Value → Value
  | simple id => simple (π id)
  | boolean id => boolean (π id)
  | not id v => not (π id) (v.rename π)
  | binary id op l r => binary (π id) op (l.rename π) (r.rename π)
  | relational k l r => relational k (l.rename π) (r.rename π)

@[simp] theorem rename_null : null.rename π = null := congrArg simple (π.constants (by decide))

@[simp] theorem rename_true : true.rename π = true := congrArg simple (π.constants (by decide))

@[simp] theorem rename_false : false.rename π = false := congrArg simple (π.constants (by decide))

theorem order_rename (v w : Value) : order (v.rename π) (w.rename π) = order v w := by
  induction v generalizing w with
  | simple | boolean => cases w <;> simp only [rename, order, π.compare_eq]
  | not _ _ ih => cases w <;> simp only [rename, order, π.compare_eq, ih]
  | binary _ _ _ _ ihl ihr => cases w <;> simp only [rename, order, π.compare_eq, ihl, ihr]
  | relational _ _ _ ihl ihr => cases w <;> simp only [rename, order, ihl, ihr]

theorem oriented_rename (k : Relation.Kind) (l r : Value) :
    oriented k (l.rename π) (r.rename π) = (oriented k l r).rename π := by
  simp only [oriented, order_rename]
  split <;> rfl

theorem normal_rename (v : Value) : (v.rename π).normal = v.normal.rename π := by
  induction v with
  | simple | boolean => rfl
  | not _ _ ih => simp only [rename, normal, ih]
  | binary _ _ _ _ ihl ihr => simp only [rename, normal, ihl, ihr]
  | relational _ _ _ ihl ihr => simp only [rename, normal, ihl, ihr, oriented_rename]

theorem rename_inj {v w : Value} : v.rename π = w.rename π ↔ v = w := by
  rw [← order_eq_iff, order_rename, order_eq_iff]

@[simp] theorem rename_equiv_iff {v w : Value} : v.rename π ≈ w.rename π ↔ v ≈ w := by
  rw [equiv_iff, equiv_iff, normal_rename, normal_rename, rename_inj]

theorem compare_rename (v w : Value) :
    compare (v.rename π).toClass (w.rename π).toClass = compare v.toClass w.toClass := by
  rw [compare_toClass, compare_toClass, normal_rename, normal_rename, order_rename]

@[simp] theorem references_rename (v w : Value) :
    (v.rename π).references (w.rename π) = v.references w := by
  have hself (v : Value) : decide (v.rename π ≈ w.rename π) = decide (v ≈ w) :=
    decide_eq_decide.2 (rename_equiv_iff π)
  induction v with
  | simple | boolean => exact congrArg (· || .false) (hself _)
  | not id v ih =>
    change (decide ((not id v).rename π ≈ _) || (v.rename π).references _) = _
    rw [hself, ih]
    rfl
  | binary id op l r ihl ihr =>
    change (decide ((binary id op l r).rename π ≈ _) ||
      ((l.rename π).references _ || (r.rename π).references _)) = _
    rw [hself, ihl, ihr]
    rfl
  | relational k l r ihl ihr =>
    change (decide ((relational k l r).rename π ≈ _) ||
      ((l.rename π).references _ || (r.rename π).references _)) = _
    rw [hself, ihl, ihr]
    rfl

@[simp] theorem isConstant_rename (v : Value) : (v.rename π).isConstant = v.isConstant := by
  cases v with
  | simple id => simp only [rename, isConstant, π.lt_firstFreeId_iff]
  | _ => rfl

@[simp] theorem size_rename (v : Value) : (v.rename π).size = v.size := by
  induction v with
  | simple | boolean => rfl
  | not _ _ ih => simp only [rename, size, ih]
  | binary _ _ _ _ ihl ihr => simp only [rename, size, ihl, ihr]
  | relational _ _ _ ihl ihr => simp only [rename, size, ihl, ihr]

end Value

namespace Relation

variable (π : Renaming) (r s : Relation)

def rename (π : Renaming) (r : Relation) : Relation := ⟨r.kind, r.left.rename π, r.right.rename π⟩

@[simp] theorem kind_rename : (r.rename π).kind = r.kind := rfl

@[simp] theorem left_rename : (r.rename π).left = r.left.rename π := rfl

@[simp] theorem right_rename : (r.rename π).right = r.right.rename π := rfl

theorem inverse_rename : (r.rename π).inverse = r.inverse.rename π := rfl

@[simp] theorem rename_equiv_iff : r.rename π ≈ s.rename π ↔ r ≈ s :=
  map_equiv_iff (Value.rename_equiv_iff π) r s

theorem compare_rename :
    compare (r.rename π).toValue.toClass (s.rename π).toValue.toClass =
      compare r.toValue.toClass s.toValue.toClass :=
  Value.compare_rename π r.toValue s.toValue

@[simp] theorem isReflexive_rename : (r.rename π).isReflexive = r.isReflexive :=
  isReflexive_map (Value.rename_equiv_iff π) r

@[simp] theorem sameOperands_rename :
    (r.rename π).sameOperands (s.rename π) = r.sameOperands s :=
  sameOperands_map (Value.rename_equiv_iff π) r s

@[simp] theorem implies_rename : (r.rename π).implies (s.rename π) = r.implies s := by
  simp only [implies, inverse_rename, rename_equiv_iff, sameOperands_rename, kind_rename,
    left_rename, Value.rename_equiv_iff]

theorem deduce?_rename : (r.rename π).deduce? (s.rename π) = (r.deduce? s).map (rename π) :=
  deduce?_map (Value.rename_equiv_iff π) r s

end Relation

namespace Relations

variable (π : Renaming) (K : Relations)

def rename (π : Renaming) (K : Relations) : Relations :=
  K.map (Relation.rename π) (Relation.compare_rename π)

@[simp] theorem toList_rename : (K.rename π).toList = K.toList.map (Relation.rename π) := rfl

@[simp] theorem size_rename : (K.rename π).size = K.size := Keyed.size_map

@[simp] theorem has_rename (r : Relation) : (K.rename π).has (r.rename π) = K.has r :=
  Keyed.contains_map fun e => Relation.compare_rename π e r

theorem insert_rename (r : Relation) :
    (K.rename π).insert (r.rename π) = Relations.rename π (K.insert r) :=
  Keyed.map_insert r

end Relations

namespace Relation

open Relations

variable (π : Renaming)

@[simp] theorem resolve_rename (r : Relation) (K : Relations) :
    (r.rename π).resolve (K.rename π) = r.resolve K := by
  simp only [resolve, isReflexive_rename, kind_rename, toList_rename, List.map_map,
    Function.comp_def, implies_rename]

theorem combine_rename (K : Relations) (r : Relation) (found : Relations) :
    combine (K.rename π) (r.rename π) (found.rename π) =
      ((combine K r found).1.rename π, (combine K r found).2.map (rename π)) := by
  let both (p : Relations × List Relation) := (p.1.rename π, p.2.map (rename π))
  unfold combine
  rw [Relations.toList_rename, List.foldl_map]
  change List.foldl _ (both (found, [])) K.toList = both _
  apply List.foldl_hom both
  intro p k
  dsimp only [both]
  rw [deduce?_rename]
  cases r.deduce? k with
  | none => rfl
  | some d =>
    simp only [Option.map_some, has_rename, insert_rename]
    split
    · rfl
    · split
      · rfl
      · simp only [List.map_append, List.map_cons, List.map_nil]

theorem saturate_rename (K : Relations) (budget : Budget) (left : Nat) (queue : List Relation)
    (found : Relations) :
    saturate (K.rename π) budget left (queue.map (rename π)) (found.rename π) =
      (saturate K budget left queue found).map (Relations.rename π) := by
  induction left generalizing queue found with
  | zero =>
    cases queue with
    | nil => rfl
    | cons => simp only [List.map_cons, saturate, size_rename]; rfl
  | succ left ih =>
    cases queue with
    | nil => rfl
    | cons r queue =>
      simp only [List.map_cons, saturate, size_rename, combine_rename]
      split
      · rfl
      · rw [← List.map_append]
        exact ih _ _

/-- What follows from relations follows them under a renaming, within the same budget. -/
theorem closure_rename (r : Relation) (K : Relations) (budget : Budget) :
    (r.rename π).closure (K.rename π) budget =
      (r.closure K budget).map (Relations.rename π) :=
  saturate_rename π K budget _ [r] ∅

end Relation

end Pathwise
