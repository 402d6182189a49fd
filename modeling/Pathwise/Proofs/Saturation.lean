import Mathlib.Data.Finset.Prod
import Mathlib.Order.Bounds.Defs
import Pathwise.Proofs.Congruence

namespace Pathwise.Relation

variable {known : Relations} {budget : Budget} {r : Relation}

/-- What follows from `r` by way of relations that are not known. -/
inductive Derives (known : Relations) (r : Relation) : Relation → Prop
  | first {k e : Relation} (hk : k ∈ known.toList) (he : r.deduce? k = some e)
      (hnew : ¬ known.has e) : Derives known r e
  | next {d k e : Relation} (hd : Derives known r d) (hk : k ∈ known.toList)
      (he : d.deduce? k = some e) (hnew : ¬ known.has e) : Derives known r e

theorem Derives.new {e : Relation} (h : Derives known r e) : ¬ known.has e := by
  cases h with
  | first _ _ hnew => exact hnew
  | next _ _ _ hnew => exact hnew

/-- A set of relations without known ones that takes up all that follows from `r` or a member of the
set and a known relation. -/
structure ClosedUnder (known : Relations) (r : Relation) (S : Set Relation) : Prop where
  respects : ∀ {d e}, d ≈ e → d ∈ S → e ∈ S
  disjoint : ∀ {e}, e ∈ S → ¬ known.has e
  deduced : ∀ {d k e}, d = r ∨ d ∈ S → known.has k → d.deduce? k = some e → known.has e ∨ e ∈ S

theorem ClosedUnder.mem_of_derives {S : Set Relation} (h : ClosedUnder known r S) {e : Relation}
    (he : Derives known r e) : e ∈ S := by
  induction he with
  | first hk he hnew => exact (h.deduced (.inl rfl) (Relations.has_of_mem hk) he).resolve_left hnew
  | next _ hk he hnew ih =>
    exact (h.deduced (.inr ih) (Relations.has_of_mem hk) he).resolve_left hnew

def operands (r : Relation) (known : Relations) : List Value :=
  (r :: known.toList).flatMap fun s => [s.left, s.right]

def operandCount (r : Relation) (known : Relations) : Nat :=
  ((operands r known).map Value.toClass).toFinset.card

theorem mem_operands {s : Relation} (h : s = r ∨ s ∈ known.toList) :
    s.left ∈ operands r known ∧ s.right ∈ operands r known := by
  have hs : s ∈ r :: known.toList := List.mem_cons.2 h
  constructor
  · exact List.mem_flatMap.2 ⟨s, hs, by simp⟩
  · exact List.mem_flatMap.2 ⟨s, hs, by simp⟩

theorem Derives.operands {e : Relation} (h : Derives known r e) :
    e.left ∈ operands r known ∧ e.right ∈ operands r known := by
  induction h with
  | first hk he _ => exact deduce?_operands (mem_operands (.inl rfl)) (mem_operands (.inr hk)) he
  | next _ hk he _ ih => exact deduce?_operands ih (mem_operands (.inr hk)) he

def kinds : Finset Kind :=
  {.equal, .notEqual, .greaterOrEqual, .lessThan, .valueEqual, .valueNotEqual}

theorem mem_kinds (k : Kind) : k ∈ kinds := by cases k <;> decide

/-- What tells relations apart: the kind and the operands, in whatever way these are written. -/
def shape (r : Relation) : Kind × Value.Class × Value.Class :=
  (r.kind, r.left.toClass, r.right.toClass)

theorem equiv_of_shape_eq {r s : Relation} (h : r.shape = s.shape) : r ≈ s := by
  obtain ⟨hk, hl, hr⟩ : r.kind = s.kind ∧ r.left.toClass = s.left.toClass ∧
      r.right.toClass = s.right.toClass := by simpa [shape] using h
  rw [Value.toClass_eq_iff] at hl hr
  exact toValue_equiv_iff.1 (Value.relational_equiv_iff.2 ⟨hk, .inl ⟨hl, hr⟩⟩)

theorem nodup_shapes (found : Relations) : (found.toList.map shape).Nodup := by
  apply List.pairwise_map.2
  apply found.increasing.imp
  intro d e hlt hshape
  have heq : d.toValue.toClass = e.toValue.toClass :=
    Value.toClass_eq_iff.2 (toValue_equiv_iff.2 (equiv_of_shape_eq hshape))
  have hself : compare e.toValue.toClass e.toValue.toClass = .eq := Std.ReflCmp.compare_self
  rw [heq, hself] at hlt
  contradiction

/-- Between `n` operands there are no more than `6 * n * n` relations. -/
theorem size_le_of_operands {found : Relations}
    (h : ∀ e ∈ found.toList, e.left ∈ operands r known ∧ e.right ∈ operands r known) :
    found.size ≤ 6 * operandCount r known * operandCount r known := by
  let classes := ((operands r known).map Value.toClass).toFinset
  have hclass {v : Value} (hv : v ∈ operands r known) : v.toClass ∈ classes :=
    List.mem_toFinset.2 (List.mem_map_of_mem hv)
  have hsub : (found.toList.map shape).toFinset ⊆ kinds ×ˢ classes ×ˢ classes := by
    intro x hx
    obtain ⟨e, he, rfl⟩ := List.mem_map.1 (List.mem_toFinset.1 hx)
    simp only [shape, Finset.mem_product]
    exact ⟨mem_kinds _, hclass (h e he).1, hclass (h e he).2⟩
  calc found.size = (found.toList.map shape).toFinset.card := by
        rw [List.toFinset_card_of_nodup (nodup_shapes found), List.length_map]
        rfl
    _ ≤ (kinds ×ˢ classes ×ˢ classes).card := Finset.card_le_card hsub
    _ = 6 * operandCount r known * operandCount r known := by
        rw [Finset.card_product, Finset.card_product, Nat.mul_assoc]
        rfl

def saturateCounted (known : Relations) (budget : Budget) :
    (left taken : Nat) → List Relation → Relations → Except Failure Relations × Nat
  | _, taken, [], found => (.ok found, taken)
  | 0, taken, _ :: _, found =>
    (.error (.relationsExceeded (found.size * known.size) (budget.iterations + 1)), taken + 1)
  | left + 1, taken, r :: queue, found =>
    if found.size * known.size > budget.deduced then
      (.error (.relationsExceeded (found.size * known.size) (budget.iterations - left)), taken + 1)
    else
      let (found, fresh) := combine known r found
      saturateCounted known budget left (taken + 1) (queue ++ fresh) found

/-- `closure` along with the number of relations that its loop takes from the queue. -/
def closureCounted (r : Relation) (known : Relations) (budget : Budget) :
    Except Failure Relations × Nat :=
  saturateCounted known budget (budget.iterations + 1) 0 [r] ∅

theorem saturateCounted_fst (left taken : Nat) (queue : List Relation) (found : Relations) :
    (saturateCounted known budget left taken queue found).1 =
      saturate known budget left queue found := by
  induction left generalizing taken queue found with
  | zero => cases queue <;> rfl
  | succ left ih =>
    cases queue with
    | nil => rfl
    | cons d queue =>
      simp only [saturateCounted, saturate]
      split
      · rfl
      · exact ih ..

theorem closureCounted_fst (r : Relation) (known : Relations) (budget : Budget) :
    (r.closureCounted known budget).1 = r.closure known budget :=
  saturateCounted_fst ..

/-- The found relations and the queue when `taken` relations have been taken from it: `r` and each
relation found have been queued once. -/
structure Saturating (known : Relations) (r : Relation) (taken : Nat)
    (p : Relations × List Relation) : Prop where
  found : ∀ e ∈ p.1.toList, Derives known r e
  queue : ∀ d ∈ p.2, d = r ∨ Derives known r d
  counted : taken + p.2.length = p.1.size + 1

namespace Saturating

variable {taken : Nat} {p : Relations × List Relation}

theorem init (known : Relations) (r : Relation) : Saturating known r 0 (∅, [r]) where
  found := by simp
  queue := by simp
  counted := rfl

theorem absorb {d : Relation} (h : Saturating known r taken p)
    (hd : ¬ known.has d → Derives known r d) : Saturating known r taken (absorb known p d) := by
  have hinsert (hnew : ¬ known.has d) :
      ∀ e ∈ Keyed.toList (p.1.insert d), Derives known r e := by
    intro e he
    rcases Relations.mem_insert he with rfl | he
    · exact hd hnew
    · exact h.found e he
  unfold Relation.absorb
  split
  next hfound =>
    -- some form of `d` was found before, so `d` is not known
    obtain ⟨e, he, hed⟩ := Relations.has_iff.1 hfound
    have hnew : ¬ known.has d := by
      rw [← Relations.has_congr hed]
      exact (h.found e he).new
    have hsize : Keyed.size (p.1.insert d) = p.1.size :=
      (Keyed.size_insert d p.1).trans (if_pos hfound)
    exact ⟨hinsert hnew, h.queue, h.counted.trans (by rw [hsize])⟩
  next hfound =>
    split
    next => exact h
    next hnew =>
      have hsize : Keyed.size (p.1.insert d) = p.1.size + 1 :=
        (Keyed.size_insert d p.1).trans (if_neg hfound)
      constructor
      · exact hinsert hnew
      · intro e he
        rcases List.mem_append.1 he with he | he
        · exact h.queue e he
        · cases List.mem_singleton.1 he
          exact .inr (hd hnew)
      · have hcounted := h.counted
        simp only [List.length_append, List.length_singleton, hsize]
        omega

theorem foldl_absorb {ds : List Relation} (h : Saturating known r taken p)
    (hds : ∀ d ∈ ds, ¬ known.has d → Derives known r d) :
    Saturating known r taken (ds.foldl (Relation.absorb known) p) := by
  induction ds generalizing p with
  | nil => exact h
  | cons d ds ih =>
    apply ih (h.absorb (hds d (.head _)))
    intro e he
    exact hds e (.tail _ he)

end Saturating

theorem foldl_absorb_append (ds queue : List Relation) (p : Relations × List Relation) :
    ds.foldl (absorb known) (p.1, queue ++ p.2) =
      ((ds.foldl (absorb known) p).1, queue ++ (ds.foldl (absorb known) p).2) := by
  induction ds generalizing p with
  | nil => rfl
  | cons d ds ih =>
    have hstep : absorb known (p.1, queue ++ p.2) d =
        ((absorb known p d).1, queue ++ (absorb known p d).2) := by
      unfold absorb
      dsimp only
      split
      · rfl
      · split
        · rfl
        · rw [List.append_assoc]
    rw [List.foldl_cons, hstep, ih]
    rfl

theorem Saturating.combine {taken : Nat} {d : Relation} {queue : List Relation} {found : Relations}
    (h : Saturating known r taken (found, d :: queue)) :
    Saturating known r (taken + 1)
      ((combine known d found).1, queue ++ (combine known d found).2) := by
  have htaken : Saturating known r (taken + 1) (found, queue ++ []) := by
    constructor
    · exact h.found
    · intro e he
      rw [List.append_nil] at he
      exact h.queue e (.tail _ he)
    · have hcounted := h.counted
      simp only [List.length_cons, List.append_nil] at hcounted ⊢
      omega
  rw [combine_eq, ← foldl_absorb_append _ queue (found, [])]
  apply htaken.foldl_absorb
  intro e he hnew
  obtain ⟨k, hk, he⟩ := List.mem_filterMap.1 he
  rcases h.queue d (.head _) with rfl | hd
  · exact .first hk he hnew
  · exact .next hd hk he hnew

theorem Saturating.size_le {taken : Nat} {p : Relations × List Relation}
    (h : Saturating known r taken p) : p.1.size ≤ 6 * operandCount r known * operandCount r known :=
  size_le_of_operands fun e he => (h.found e he).operands

/-- How the loop ends: with an empty queue, or else with one more relation taken from it after
`limit` of them, or with too many relations found. -/
inductive Stops (known : Relations) (r : Relation) (budget : Budget) (limit : Nat) :
    Except Failure Relations × Nat → Prop
  | complete {taken : Nat} {found : Relations} (h : Saturating known r taken (found, [])) :
      Stops known r budget limit (.ok found, taken)
  | exceeded {taken : Nat} {found : Relations} {d : Relation} {queue : List Relation} {f : Failure}
      (h : Saturating known r taken (found, d :: queue))
      (hlimit : taken = limit ∨ budget.deduced < found.size * known.size) :
      Stops known r budget limit (.error f, taken + 1)

theorem Saturating.stops {left taken : Nat} {queue : List Relation} {found : Relations}
    (h : Saturating known r taken (found, queue)) :
    Stops known r budget (taken + left)
      (saturateCounted known budget left taken queue found) := by
  induction left generalizing taken queue found with
  | zero =>
    cases queue with
    | nil => exact .complete h
    | cons => exact .exceeded h (.inl rfl)
  | succ left ih =>
    cases queue with
    | nil => exact .complete h
    | cons d queue =>
      simp only [saturateCounted]
      split
      next hlimit => exact .exceeded h (.inr hlimit)
      next =>
        rw [← Nat.add_assoc, Nat.add_right_comm]
        exact ih h.combine

theorem closureCounted_stops (r : Relation) (known : Relations) (budget : Budget) :
    Stops known r budget (budget.iterations + 1) (r.closureCounted known budget) := by
  rw [← Nat.zero_add (budget.iterations + 1)]
  exact (Saturating.init known r).stops

namespace Stops

variable {limit : Nat} {o : Except Failure Relations × Nat}

theorem saturating {T : Relations} (h : Stops known r budget limit o) (hT : o.1 = .ok T) :
    ∃ taken, Saturating known r taken (T, []) := by
  cases h with
  | complete h =>
    cases hT
    exact ⟨_, h⟩
  | exceeded => contradiction

theorem taken_le (h : Stops known r budget limit o) :
    o.2 ≤ 6 * operandCount r known * operandCount r known + 1 := by
  cases h with
  | complete h =>
    have hcounted := h.counted
    have hsize := h.size_le
    simp only [List.length_nil] at hcounted hsize ⊢
    omega
  | exceeded h _ =>
    have hcounted := h.counted
    have hsize := h.size_le
    simp only [List.length_cons] at hcounted hsize ⊢
    omega

theorem exists_ok (h : Stops known r budget limit o)
    (hlimit : 6 * operandCount r known * operandCount r known < limit)
    (hdeduced : 6 * operandCount r known * operandCount r known * known.size ≤ budget.deduced) :
    ∃ T, o.1 = .ok T := by
  cases h with
  | complete => exact ⟨_, rfl⟩
  | exceeded h hexceeded =>
    have hcounted := h.counted
    have hsize := h.size_le
    have hused := Nat.mul_le_mul_right known.size hsize
    simp only [List.length_cons] at hcounted hsize hused
    omega

end Stops

theorem closure_saturating {T : Relations} (h : r.closure known budget = .ok T) :
    ∃ taken, Saturating known r taken (T, []) :=
  (closureCounted_stops r known budget).saturating ((closureCounted_fst ..).trans h)

/-- Nothing leads out of the closure, in whatever way its members are written. -/
theorem closure_closedUnder {T : Relations} (h : r.closure known budget = .ok T) :
    ClosedUnder known r {e | T.has e} where
  respects hde hd := (Relations.has_congr hde).1 hd
  disjoint := by
    intro e he
    obtain ⟨taken, hsaturating⟩ := closure_saturating h
    obtain ⟨d, hd, hde⟩ := Relations.has_iff.1 he
    rw [← Relations.has_congr hde]
    exact (hsaturating.found d hd).new
  deduced := by
    intro d k e hd hk he
    obtain ⟨all, hall, hr⟩ := closure_exhausted h
    obtain ⟨d', hd', hdd⟩ : ∃ d' ∈ all, d' ≈ d := by
      rcases hd with rfl | hd
      · exact ⟨d, hr, Setoid.refl d⟩
      · exact hall.found hd
    obtain ⟨k', hk', hkk⟩ := Relations.has_iff.1 hk
    have hnormal : (d'.deduce? k').map normal = some e.normal := by
      rw [deduce?_congr hdd hkk, he, Option.map_some]
    obtain ⟨e', he', (hee : e' ≈ e)⟩ := Option.map_eq_some_iff.1 hnormal
    rw [← Relations.has_congr hee]
    exact (hall.deduced hd' hk' he').imp_right (Relations.has_congr hee).1

/-- The closure of `r` under deduction from the known relations is the least fixpoint of deduction,
its operands are those of `r` and of the known relations, and their number bounds both the loop and
the budget it needs. -/
theorem closure_least_fixpoint (r : Relation) (known : Relations) (budget : Budget) :
    (∀ T, r.closure known budget = .ok T →
      IsLeast {S | ClosedUnder known r S} {e | T.has e} ∧
        ∀ e ∈ T.toList, e.left ∈ operands r known ∧ e.right ∈ operands r known) ∧
    ((r.closureCounted known budget).1 = r.closure known budget ∧
      (r.closureCounted known budget).2 ≤
        6 * operandCount r known * operandCount r known + 1) ∧
    (6 * operandCount r known * operandCount r known + 1 ≤ budget.iterations →
      6 * operandCount r known * operandCount r known * known.size ≤ budget.deduced →
      ∃ T, r.closure known budget = .ok T) := by
  have hstops := closureCounted_stops r known budget
  have hresult := closureCounted_fst r known budget
  refine ⟨?_, ⟨hresult, hstops.taken_le⟩, ?_⟩
  · intro T hT
    obtain ⟨taken, hsaturating⟩ := closure_saturating hT
    refine ⟨⟨closure_closedUnder hT, ?_⟩, fun e he => (hsaturating.found e he).operands⟩
    intro S hS e he
    obtain ⟨d, hd, hde⟩ := Relations.has_iff.1 he
    exact hS.respects hde (hS.mem_of_derives (hsaturating.found d hd))
  · intro hiterations hdeduced
    rw [← hresult]
    exact hstops.exists_ok (by omega) hdeduced

def below : Relation := ⟨.lessThan, .simple 3, .simple 4⟩

def beyond : Relations :=
  .ofList [⟨.lessThan, .simple 4, .simple 5⟩, ⟨.equal, .simple 6, .simple 5⟩]

theorem closure_least_fixpoint_below :
    ∃ T, below.closure beyond {} = .ok T ∧ T.has ⟨.lessThan, .simple 3, .simple 6⟩ ∧
      IsLeast {S | ClosedUnder beyond below S} {e | T.has e} ∧
      (below.closureCounted beyond {}).2 ≤ 97 := by
  have hcount : operandCount below beyond = 4 := by decide +kernel
  obtain ⟨hleast, ⟨_, hbound⟩, htotal⟩ := closure_least_fixpoint below beyond {}
  rw [hcount] at hbound htotal
  obtain ⟨T, hT⟩ := htotal (by decide) (by decide +kernel)
  have hhas : (below.closure beyond {}).toOption.map
      (Relations.has · ⟨.lessThan, .simple 3, .simple 6⟩) = some true := by decide +kernel
  rw [hT] at hhas
  exact ⟨T, hT, Option.some.inj hhas, (hleast T hT).1, hbound⟩

end Pathwise.Relation
