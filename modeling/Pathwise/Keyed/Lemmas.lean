import Pathwise.Keyed

namespace Pathwise.Keyed

universe u v w

variable {ε : Type u} {κ : Type v} [Ord κ] {key : ε → κ}

@[simp] theorem toList_empty : (∅ : Keyed key).toList = [] := rfl

@[simp] theorem find?_empty (k : κ) : (∅ : Keyed key).find? k = none := rfl

@[simp] theorem toList_filter (c : Keyed key) (p : ε → Bool) :
    (c.filter p).toList = c.toList.filter p := rfl

theorem filter_filter_self (c : Keyed key) (p : ε → Bool) : (c.filter p).filter p = c.filter p :=
  ext (by simp [filter])

section

variable [Std.TransOrd κ]

theorem compare_eq_congr {j k : κ} (h : compare j k = .eq) (l : κ) :
    compare j l = .eq ↔ compare k l = .eq := by
  rw [Std.TransCmp.congr_left h]

theorem find?_place (e : ε) (k : κ) (xs : List ε) :
    (place key e xs).find? (fun x => compare (key x) k == .eq) =
      if compare (key e) k = .eq then some e
      else xs.find? fun x => compare (key x) k == .eq := by
  induction xs with
  | nil => by_cases h : compare (key e) k = .eq <;> simp [place, h]
  | cons x xs ih =>
    simp only [place]
    split
    · by_cases h : compare (key e) k = .eq <;> simp [List.find?_cons, h]
    next heq =>
      by_cases h : compare (key e) k = .eq
      · simp [h]
      · have hx : ¬ compare (key x) k = .eq := fun hx => h ((compare_eq_congr heq k).2 hx)
        simp [h, hx]
    next hgt =>
      by_cases hx : compare (key x) k = .eq
      · have h : ¬ compare (key e) k = .eq := by
          intro h
          have hex : compare (key e) (key x) = .eq :=
            Std.TransCmp.eq_trans h (Std.OrientedCmp.eq_symm hx)
          rw [hgt] at hex
          contradiction
        simp [hx, h]
      · simp [hx, ih]

/-- An inserted entry is found by its key, and all other keys lead where they led before. -/
theorem find?_insert (e : ε) (c : Keyed key) (k : κ) :
    (c.insert e).find? k = if compare (key e) k = .eq then some e else c.find? k :=
  find?_place e k c.entries

@[simp] theorem find?_insert_self (e : ε) (c : Keyed key) :
    (c.insert e).find? (key e) = some e := by
  rw [find?_insert, if_pos Std.ReflCmp.compare_self]

/-- An erased key is not found, and all others lead where they led before. -/
theorem find?_erase (c : Keyed key) (j k : κ) :
    (c.erase j).find? k = if compare j k = .eq then none else c.find? k := by
  simp only [erase, find?, filter, List.find?_filter]
  by_cases h : compare j k = .eq
  · rw [if_pos h, List.find?_eq_none]
    intro x _ hx
    simp only [bne_iff_ne, beq_iff_eq, decide_eq_true_eq] at hx
    exact hx.1 (Std.TransCmp.eq_trans hx.2 (Std.OrientedCmp.eq_symm h))
  · rw [if_neg h]
    congr 1
    funext x
    by_cases hx : compare (key x) k = .eq
    · have : ¬ compare (key x) j = .eq := fun hj =>
        h (Std.TransCmp.eq_trans (Std.OrientedCmp.eq_symm hj) hx)
      simp [hx, this]
    · simp [hx]

theorem find?_eq_some_iff {c : Keyed key} {k : κ} {e : ε} :
    c.find? k = some e ↔ e ∈ c.toList ∧ compare (key e) k = .eq := by
  obtain ⟨xs, h⟩ := c
  simp only [find?, toList]
  induction xs with
  | nil => simp
  | cons x xs ih =>
    have hx := (List.pairwise_cons.1 h).1
    rw [List.find?_cons]
    split
    next hk =>
      rw [beq_iff_eq] at hk
      constructor
      · rintro ⟨⟩
        exact ⟨.head _, hk⟩
      · rintro ⟨he, hek⟩
        rcases List.mem_cons.1 he with rfl | he
        · rfl
        · have := hx e he
          rw [Std.TransCmp.eq_trans hk (Std.OrientedCmp.eq_symm hek)] at this
          contradiction
    next hk =>
      rw [beq_eq_false_iff_ne] at hk
      rw [ih (List.pairwise_cons.1 h).2, List.mem_cons]
      constructor
      · exact fun ⟨he, hek⟩ => ⟨.inr he, hek⟩
      · rintro ⟨rfl | he, hek⟩
        · exact absurd hek hk
        · exact ⟨he, hek⟩

theorem mem_toList_iff {c : Keyed key} {e : ε} : e ∈ c.toList ↔ c.find? (key e) = some e := by
  rw [find?_eq_some_iff, and_iff_left Std.ReflCmp.compare_self]

theorem mem_insert_iff {c : Keyed key} {e a : ε} :
    a ∈ (c.insert e).toList ↔ a = e ∨ a ∈ c.toList ∧ compare (key e) (key a) ≠ .eq := by
  rw [mem_toList_iff, find?_insert, mem_toList_iff]
  split
  next h =>
    constructor
    · rintro ⟨⟩
      exact .inl rfl
    · rintro (rfl | ⟨_, hne⟩)
      · rfl
      · contradiction
  next h =>
    constructor
    · exact fun ha => .inr ⟨ha, h⟩
    · rintro (rfl | ⟨ha, _⟩)
      · exact absurd Std.ReflCmp.compare_self h
      · exact ha

theorem contains_iff {c : Keyed key} {k : κ} :
    c.contains k ↔ ∃ e ∈ c.toList, compare (key e) k = .eq := by
  rw [contains, Option.isSome_iff_exists]
  exact exists_congr fun e => find?_eq_some_iff

theorem contains_insert {c : Keyed key} {e : ε} {k : κ} :
    (c.insert e).contains k ↔ compare (key e) k = .eq ∨ c.contains k := by
  rw [contains, find?_insert, contains]
  split
  next h => simp [h]
  next h => simp [h]

theorem length_place (e : ε) {xs : List ε}
    (h : xs.Pairwise fun a b => compare (key a) (key b) = .lt) :
    (place key e xs).length =
      if (xs.find? fun x => compare (key x) (key e) == .eq).isSome then xs.length
      else xs.length + 1 := by
  induction xs with
  | nil => rfl
  | cons x xs ih =>
    obtain ⟨hx, hxs⟩ := List.pairwise_cons.1 h
    simp only [place]
    split
    next hlt =>
      have hnone : (x :: xs).find? (fun y => compare (key y) (key e) == .eq) = none := by
        rw [List.find?_eq_none]
        intro y hy
        have hey : compare (key e) (key y) = .lt := by
          rcases List.mem_cons.1 hy with rfl | hy
          · exact hlt
          · exact Std.TransCmp.lt_trans hlt (hx y hy)
        simp [Std.OrientedCmp.gt_of_lt hey]
      simp [hnone]
    next heq => simp [Std.OrientedCmp.eq_symm heq]
    next hgt =>
      have hne : (compare (key x) (key e) == .eq) = false := by
        simp [Std.OrientedCmp.gt_iff_lt.1 hgt]
      rw [List.find?_cons, hne, List.length_cons, ih hxs]
      dsimp only
      split <;> rfl

theorem size_insert (e : ε) (c : Keyed key) :
    (c.insert e).size = if c.contains (key e) then c.size else c.size + 1 :=
  length_place e c.increasing

/-- Every entry of the first list has an entry of the second list with its key, and the same to say
through `f`. -/
def Matched {δ : Type w} (key : ε → κ) (f : ε → δ) (xs ys : List ε) : Prop :=
  ∀ x ∈ xs, ∃ y ∈ ys, compare (key y) (key x) = .eq ∧ f y = f x

theorem matched_of_find? {δ : Type w} {f : ε → δ} {c d : Keyed key}
    (h : ∀ k, (c.find? k).map f = (d.find? k).map f) : Matched key f c.entries d.entries := by
  intro x hx
  have hfind := h (key x)
  rw [find?_eq_some_iff.2 ⟨hx, Std.ReflCmp.compare_self⟩, Option.map_some, eq_comm] at hfind
  obtain ⟨y, hy, hf⟩ := Option.map_eq_some_iff.1 hfind
  obtain ⟨hmem, hkey⟩ := find?_eq_some_iff.1 hy
  exact ⟨y, hmem, hkey, hf⟩

theorem Matched.tail {δ : Type w} {f : ε → δ} {x y : ε} {xs ys : List ε}
    (h : Matched key f (x :: xs) (y :: ys)) (hxy : compare (key y) (key x) = .eq)
    (hx : ∀ e ∈ xs, compare (key x) (key e) = .lt) : Matched key f xs ys := by
  intro e he
  obtain ⟨e', he', hkey, hf⟩ := h e (.tail _ he)
  rcases List.mem_cons.1 he' with rfl | he'
  · have hlt := Std.TransCmp.lt_of_eq_of_lt hxy (hx e he)
    rw [hkey] at hlt
    contradiction
  · exact ⟨e', he', hkey, hf⟩

/-- The first entries of lists that match each other have one key, since neither key is smaller. -/
theorem Matched.compare_head {δ : Type w} {f : ε → δ} {x y : ε} {xs ys : List ε}
    (h : Matched key f (x :: xs) (y :: ys)) (h' : Matched key f (y :: ys) (x :: xs))
    (hx : ∀ e ∈ xs, compare (key x) (key e) = .lt) (hy : ∀ e ∈ ys, compare (key y) (key e) = .lt) :
    compare (key y) (key x) = .eq := by
  obtain ⟨e, he, hex, _⟩ := h x (.head _)
  obtain ⟨e', he', hey, _⟩ := h' y (.head _)
  rcases List.mem_cons.1 he with rfl | he
  · exact hex
  · rcases List.mem_cons.1 he' with rfl | he'
    · exact Std.OrientedCmp.eq_symm hey
    · have hyx := Std.TransCmp.lt_of_lt_of_eq (hy e he) hex
      have hxy := Std.TransCmp.lt_of_lt_of_eq (hx e' he') hey
      rw [Std.OrientedCmp.gt_of_lt hxy] at hyx
      contradiction

/-- Collections look alike through `f`, entry by entry, if every key leads to entries that do. -/
theorem map_toList_eq {δ : Type w} {f : ε → δ} {c d : Keyed key}
    (h : ∀ k, (c.find? k).map f = (d.find? k).map f) : c.toList.map f = d.toList.map f := by
  have hcd := matched_of_find? h
  have hdc := matched_of_find? fun k => (h k).symm
  clear h
  obtain ⟨xs, hxs⟩ := c
  obtain ⟨ys, hys⟩ := d
  simp only [toList] at hcd hdc ⊢
  induction xs generalizing ys with
  | nil =>
    cases ys with
    | nil => rfl
    | cons y ys => simpa using hdc y (.head _)
  | cons x xs ih =>
    cases ys with
    | nil => simpa using hcd x (.head _)
    | cons y ys =>
      obtain ⟨hx, hxs'⟩ := List.pairwise_cons.1 hxs
      obtain ⟨hy, hys'⟩ := List.pairwise_cons.1 hys
      have hxy := hcd.compare_head hdc hx hy
      have hyx := Std.OrientedCmp.eq_symm hxy
      obtain ⟨e, he, hex, hf⟩ := hcd x (.head _)
      rcases List.mem_cons.1 he with rfl | he
      · rw [List.map_cons, List.map_cons, hf, ih hxs' ys hys' (hcd.tail hxy hx) (hdc.tail hyx hy)]
      · have hlt := Std.TransCmp.lt_of_lt_of_eq (hy e he) hex
        rw [hxy] at hlt
        contradiction

/-- Collections that look alike lead every key to entries that do, if `f` tells keys apart. -/
theorem map_find?_eq {δ : Type w} {f : ε → δ} {c d : Keyed key}
    (hf : ∀ {a b}, f a = f b → compare (key a) (key b) = .eq)
    (h : c.toList.map f = d.toList.map f) (k : κ) : (c.find? k).map f = (d.find? k).map f := by
  have hsome {c d : Keyed key} (h : c.toList.map f = d.toList.map f) {a : δ}
      (ha : (c.find? k).map f = some a) : (d.find? k).map f = some a := by
    obtain ⟨e, he, rfl⟩ := Option.map_eq_some_iff.1 ha
    obtain ⟨hmem, hkey⟩ := find?_eq_some_iff.1 he
    obtain ⟨e', hmem', hfe⟩ := List.mem_map.1 (h ▸ List.mem_map_of_mem hmem)
    rw [find?_eq_some_iff.2 ⟨hmem', Std.TransCmp.eq_trans (hf hfe) hkey⟩, Option.map_some, hfe]
  exact Option.ext fun a => ⟨hsome h, hsome h.symm⟩

theorem map_toList_eq_iff {δ : Type w} {f : ε → δ} {c d : Keyed key}
    (hf : ∀ {a b}, f a = f b → compare (key a) (key b) = .eq) :
    c.toList.map f = d.toList.map f ↔ ∀ k, (c.find? k).map f = (d.find? k).map f :=
  ⟨map_find?_eq hf, map_toList_eq⟩

/-- Collections that have the same entry for every key are equal. -/
theorem ext_find? {c d : Keyed key} (h : ∀ k, c.find? k = d.find? k) : c = d := by
  apply ext
  have hmap := map_toList_eq (f := id) fun k => congrArg (Option.map id) (h k)
  rwa [List.map_id, List.map_id] at hmap

end

end Pathwise.Keyed
