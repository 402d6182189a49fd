import Mathlib.Combinatorics.Colex
import Pathwise.Proofs.Closure
import Pathwise.Proofs.Orders

namespace Pathwise

namespace Relations

variable {V : Nat → Prop} {K K' : Relations} {r k : Relation} {b c : Bool} {x y z : Nat}

/-- The relations say `x ≤ y`, and `x < y` if it is to be strict. -/
def Bounds (K : Relations) (strict : Bool) (x y : Nat) : Prop :=
  strict = false ∧ x = y ∨ ∃ k ∈ K.toList, k.Orders strict x y

theorem Bounds.refl : K.Bounds false x x := .inl ⟨rfl, rfl⟩

theorem bounds_of_mem (h : k ∈ K.toList) (hk : k.Orders c x y) : K.Bounds c x y := .inr ⟨k, h, hk⟩

theorem bounds_of_has (h : K.has k) (hk : k.Orders c x y) : K.Bounds c x y := by
  obtain ⟨l, hl, hlk⟩ := has_iff.1 h
  exact bounds_of_mem hl (hk.congr (Setoid.symm hlk))

theorem Bounds.weaken (h : K.Bounds c x y) : K.Bounds false x y := by
  rcases h with ⟨_, rfl⟩ | ⟨k, hk, hxy⟩
  · exact .refl
  · exact bounds_of_mem hk hxy.weaken

theorem Bounds.exists_orders (h : K.Bounds c x y) (hne : x ≠ y) :
    ∃ k ∈ K.toList, k.Orders c x y :=
  h.resolve_left fun h => hne h.2

/-- Bounds lead on to bounds, and no value is strictly below itself. -/
structure Closed (K : Relations) : Prop where
  trans : ∀ {b c x y z}, K.Bounds b x y → K.Bounds c y z → K.Bounds (b || c) x z
  irrefl : ∀ {x}, ¬ K.Bounds true x x

theorem closed_empty : Closed ∅ := by
  have heq {c x y} (h : Bounds ∅ c x y) : c = false ∧ x = y := h.resolve_right (by simp)
  refine ⟨fun h h' => ?_, fun h => ?_⟩
  · obtain ⟨rfl, rfl⟩ := heq h
    exact h'
  · cases (heq h).1

theorem Closed.eq_false (hK : K.Closed) (h : K.Bounds c x x) : c = false := by
  cases c with
  | false => rfl
  | true => exact absurd h hK.irrefl

theorem exists_ids_le (ks : List Relation) :
    ∃ m, ∀ k ∈ ks, ∀ {c x y}, k.Orders c x y → x ≤ m := by
  induction ks with
  | nil => exact ⟨0, by simp⟩
  | cons k ks ih =>
    obtain ⟨m, hm⟩ := ih
    by_cases hk : ∃ c x y, k.Orders c x y
    · obtain ⟨c, x, y, hxy⟩ := hk
      refine ⟨max m (max x y), fun l hl c' x' y' h => ?_⟩
      rcases List.mem_cons.1 hl with rfl | hl
      · have hx := hxy.unique h
        omega
      · exact le_max_of_le_left (hm l hl h)
    · refine ⟨m, fun l hl c x y h => ?_⟩
      rcases List.mem_cons.1 hl with rfl | hl
      · exact absurd ⟨c, x, y, h⟩ hk
      · exact hm l hl h

structure Graded (B : Bool → Nat → Nat → Prop) : Prop where
  refl : ∀ x, B false x x
  weaken : ∀ {c x y}, B c x y → B false x y
  trans : ∀ {b c x y z}, B b x y → B c y z → B (b || c) x z
  irrefl : ∀ {x}, ¬ B true x x
  finite : ∃ m, ∀ {c x y}, B c x y → x = y ∨ x ≤ m

/-- Graded bounds have a solution in which only those values are equal that have to be: each value
is the sum of distinct powers of two, one for each value that is at most this one. -/
theorem Graded.exists_solution {B : Bool → Nat → Nat → Prop} (hB : Graded B) :
    ∃ a : Nat → Int, (∀ {x y}, B true x y → a x < a y) ∧ (∀ {x y}, B false x y → a x ≤ a y) ∧
      ∀ {x y}, a x = a y → B false x y ∧ B false y x := by
  classical
  obtain ⟨m, hm⟩ := hB.finite
  let below (x : Nat) : Finset Nat := {z ∈ Finset.range (x + m + 1) | B false z x}
  have hbelow {z x : Nat} : z ∈ below x ↔ B false z x := by
    simp only [below, Finset.mem_filter, Finset.mem_range, and_iff_right_iff_imp]
    intro h
    have := hm h
    omega
  have hmono {x y : Nat} (h : B false x y) : below x ⊆ below y :=
    fun z hz => hbelow.2 (hB.trans (hbelow.1 hz) h)
  have hself (x : Nat) : x ∈ below x := hbelow.2 (hB.refl x)
  refine ⟨fun x => ((∑ z ∈ below x, 2 ^ z : Nat) : Int), fun {x y} h => ?_, fun {x y} h => ?_,
    fun {x y} h => ?_⟩
  · have hy : y ∉ below x := fun hy => hB.irrefl (hB.trans h (hbelow.1 hy))
    have hssub : below x ⊂ below y :=
      (Finset.ssubset_iff_of_subset (hmono (hB.weaken h))).2 ⟨y, hself y, hy⟩
    exact Int.ofNat_lt.2 (Finset.sum_lt_sum_of_subset hssub.subset (hself y) hy
      (Nat.two_pow_pos y) fun _ _ _ => Nat.zero_le _)
  · exact Int.ofNat_le.2 (Finset.sum_le_sum_of_subset (hmono h))
  · have heq : below x = below y := Finset.geomSum_injective le_rfl (Int.ofNat.inj h)
    exact ⟨hbelow.1 (heq ▸ hself x), hbelow.1 (heq ▸ hself y)⟩

theorem Closed.graded (hK : K.Closed) : Graded K.Bounds where
  refl _ := .refl
  weaken := Bounds.weaken
  trans := hK.trans
  irrefl := hK.irrefl
  finite := by
    obtain ⟨m, hm⟩ := exists_ids_le K.toList
    refine ⟨m, fun {c x y} h => ?_⟩
    rcases h with ⟨_, rfl⟩ | ⟨k, hk, hxy⟩
    · exact .inl rfl
    · exact .inr (hm k hk hxy)

theorem Closed.exists_solution (hK : K.Closed) :
    ∃ a : Nat → Int, (∀ {x y}, K.Bounds true x y → a x < a y) ∧
      (∀ {x y}, K.Bounds false x y → a x ≤ a y) ∧
      ∀ {x y}, a x = a y → K.Bounds false x y ∧ K.Bounds false y x :=
  hK.graded.exists_solution

def Compatible (K : Relations) (r : Relation) : Prop :=
  ∀ ⦃b c x y⦄, r.Orders b x y → K.Bounds c y x → (b || c) = false

theorem compatible_of_resolve (hK : K.Closed) (hcomparison : ∀ k ∈ K.toList, k.IsComparison V)
    (hV : ∀ {x}, V x → Value.firstFreeId ≤ x) (hr : r.IsComparison V)
    (h : r.resolve K ≠ .unfulfilled) : K.Compatible r := by
  intro b c x y hxy hyx
  cases hr with
  | notEqual => contradiction
  | ordering hr =>
    by_contra hstrict
    rw [Bool.not_eq_false] at hstrict
    by_cases hne : x = y
    · cases hne
      rw [hK.eq_false hyx, Bool.or_false] at hstrict
      cases hstrict
      cases hxy
      exact h (by simp [Relation.resolve, Relation.isReflexive, Setoid.refl])
    obtain ⟨k, hk, hyx⟩ := hyx.exists_orders (Ne.symm hne)
    have hexcludes := hyx.implies hxy (Ne.symm hne) (by rwa [Bool.or_comm])
    obtain ⟨a, hlt, hle, _⟩ := hK.exists_solution
    have hholds {k : Relation} (hk : k ∈ K.toList) (hordering : k.IsOrdering V) :
        k.Holds fun id => .int (a id) :=
      hordering.holds hV (fun h => hlt (bounds_of_mem hk h)) fun h => hle (bounds_of_mem hk h)
    obtain ⟨g, hg⟩ := hr.exists_admits
    have hreflexive := hxy.not_isReflexive hne
    refine h (Relation.resolve_of_implies (fun l hl hfulfilled => ?_) hreflexive hg hk
      (hholds hk ?_) hexcludes)
    · cases hcomparison l hl with
      | ordering hordering => exact hholds hl hordering
      | notEqual => exact absurd hfulfilled (Relation.implies_ne_of_notEqual hr.kind_ne _ _)
    · cases hcomparison k hk with
      | ordering hordering => exact hordering
      | notEqual => contradiction

/-- The relations say so together with `r`: they do on their own, or lead to `r` and on from it. -/
def Reaches (K : Relations) (r : Relation) (strict : Bool) (x y : Nat) : Prop :=
  K.Bounds strict x y ∨ ∃ s t u a b, K.Bounds s x a ∧ r.Orders t a b ∧ K.Bounds u b y ∧
    strict = (s || t || u)

theorem reaches_self (h : r.Orders c x y) : K.Reaches r c x y :=
  .inr ⟨false, c, false, x, y, .refl, h, .refl, by simp⟩

theorem Closed.reaches_append (hK : K.Closed) (h : K.Reaches r b x y) (hc : K.Bounds c y z) :
    K.Reaches r (b || c) x z := by
  rcases h with h | ⟨s, t, u, v, w, hs, hr, hu, rfl⟩
  · exact .inl (hK.trans h hc)
  · exact .inr ⟨s, t, u || c, v, w, hs, hr, hK.trans hu hc, Bool.or_assoc ..⟩

theorem Closed.reaches_cons (hK : K.Closed) (hb : K.Bounds b x y) (h : K.Reaches r c y z) :
    K.Reaches r (b || c) x z := by
  rcases h with h | ⟨s, t, u, v, w, hs, hr, hu, rfl⟩
  · exact .inl (hK.trans hb h)
  · exact .inr ⟨b || s, t, u, v, w, hK.trans hb hs, hr, hu, by simp only [Bool.or_assoc]⟩

theorem Compatible.reaches_irrefl (hr : K.Compatible r) (hK : K.Closed) :
    ¬ K.Reaches r true x x := by
  rintro (h | ⟨s, t, u, v, w, hs, horders, hu, hstrict⟩)
  · exact hK.irrefl h
  · have hfalse := hr horders (hK.trans hu hs)
    simp only [Bool.or_eq_false_iff] at hfalse
    simp [hfalse] at hstrict

theorem Compatible.reaches_trans (hr : K.Compatible r) (hK : K.Closed) (h : K.Reaches r b x y)
    (h' : K.Reaches r c y z) : K.Reaches r (b || c) x z := by
  rcases h with h | ⟨s, t, u, v, w, hs, horders, hu, rfl⟩
  · exact hK.reaches_cons h h'
  rcases h' with h' | ⟨s', t', u', v', w', hs', horders', hu', rfl⟩
  · exact hK.reaches_append (.inr ⟨s, t, u, v, w, hs, horders, hu, rfl⟩) h'
  have hmiddle := hK.trans hu hs'
  rcases horders.unique horders' with ⟨rfl, rfl⟩ | ⟨rfl, rfl, rfl, rfl⟩
  · -- passing `r` twice is going round once, which is not strict
    have hfalse := hr horders hmiddle
    simp only [Bool.or_eq_false_iff] at hfalse
    exact .inr ⟨s, t', u', _, _, hs, horders', hu', by simp [hfalse, Bool.or_assoc]⟩
  · -- passing an equality back and forth is not needed
    have hfalse := hK.eq_false hmiddle
    simp only [Bool.or_eq_false_iff] at hfalse
    refine .inl ?_
    simpa [hfalse] using hK.trans hs hu'

structure Completes (K : Relations) (r : Relation) (all : List Relation) (K' : Relations) :
    Prop where
  mono : ∀ {e}, K.has e → K'.has e
  added : ∀ {e}, K'.has e → K.has e ∨ ∃ d ∈ all, d ≈ e
  start : r ∈ all
  has_start : K'.has r
  deduced : ∀ {d k e}, d ∈ all → k ∈ K.toList → d.deduce? k = some e → K'.has e

theorem exists_completes {found : Relations} {budget : Budget}
    (hfound : r.closure K budget = .ok found)
    (hhas : ∀ {e}, K'.has e ↔ Relations.has (found.insert r) e ∨ K.has e) :
    ∃ all, Completes K r all K' := by
  obtain ⟨all, hall, hr⟩ := Relation.closure_exhausted hfound
  refine ⟨all, fun he => hhas.2 (.inr he), fun he => ?_, hr, ?_, fun hd hk he => ?_⟩
  · rcases hhas.1 he with he | he
    · rcases has_insert.1 he with hre | he
      · exact .inr ⟨r, hr, hre⟩
      · exact .inr (hall.found he)
    · exact .inl he
  · exact hhas.2 (.inl (has_insert.2 (.inl (Setoid.refl r))))
  · rcases hall.deduced hd hk he with h | h
    · exact hhas.2 (.inr h)
    · exact hhas.2 (.inl (has_insert.2 (.inr h)))

section

variable {all : List Relation} (hcompletes : Completes K r all K')

include hcompletes

theorem bounds_mono (h : K.Bounds c x y) : K'.Bounds c x y := by
  rcases h with ⟨rfl, rfl⟩ | ⟨k, hk, hxy⟩
  · exact .refl
  · exact bounds_of_has (hcompletes.mono (has_of_mem hk)) hxy

theorem bounds_cases (h : K'.Bounds c x y) :
    K.Bounds c x y ∨ ∃ d ∈ all, K'.has d ∧ d.Orders c x y := by
  rcases h with h | ⟨e, he, hxy⟩
  · exact .inl (.inl h)
  rcases hcompletes.added (has_of_mem he) with he' | ⟨d, hd, hde⟩
  · exact .inl (bounds_of_has he' hxy)
  · exact .inr ⟨d, hd, (has_congr hde).2 (has_of_mem he), hxy.congr (Setoid.symm hde)⟩

theorem bounds_append (hK : K.Closed) (h : K'.Bounds b x y) (hc : K.Bounds c y z)
    (hxy : x = y → b = false) (hxz : x = z → (b || c) = false) : K'.Bounds (b || c) x z := by
  by_cases hxy' : x = y
  · cases hxy'
    rw [hxy rfl]
    exact bounds_mono hcompletes hc
  by_cases hxz' : x = z
  · cases hxz'
    rw [hxz rfl]
    exact .refl
  by_cases hyz' : y = z
  · cases hyz'
    rwa [hK.eq_false hc, Bool.or_false]
  rcases bounds_cases hcompletes h with h | ⟨d, hd, _, h⟩
  · exact bounds_mono hcompletes (hK.trans h hc)
  · obtain ⟨k, hk, hc⟩ := hc.exists_orders hyz'
    obtain ⟨⟨e, he, hxz⟩, _⟩ := Relation.deduce?_of_orders h hc hxy' hyz' hxz'
    exact bounds_of_has (hcompletes.deduced hd hk he) hxz

theorem bounds_cons (hK : K.Closed) (hb : K.Bounds b x y) (h : K'.Bounds c y z)
    (hyz : y = z → c = false) (hxz : x = z → (b || c) = false) : K'.Bounds (b || c) x z := by
  by_cases hyz' : y = z
  · cases hyz'
    rw [hyz rfl, Bool.or_false]
    exact bounds_mono hcompletes hb
  by_cases hxz' : x = z
  · cases hxz'
    rw [hxz rfl]
    exact .refl
  by_cases hxy' : x = y
  · cases hxy'
    rwa [hK.eq_false hb]
  rcases bounds_cases hcompletes h with h | ⟨d, hd, _, h⟩
  · exact bounds_mono hcompletes (hK.trans hb h)
  · obtain ⟨k, hk, hb⟩ := hb.exists_orders hxy'
    obtain ⟨_, e, he, hxz⟩ := Relation.deduce?_of_orders hb h hxy' hyz' hxz'
    exact bounds_of_has (hcompletes.deduced hd hk he) hxz

theorem bounds_of_reaches (hK : K.Closed) (hcompatible : K.Compatible r) (h : K.Reaches r c x y) :
    K'.Bounds c x y := by
  rcases h with h | ⟨s, t, u, v, w, hs, horders, hu, rfl⟩
  · exact bounds_mono hcompletes h
  -- a relation found is combined with known ones only, so `r` is extended on one side, then on the
  -- other
  have hnew : K'.Bounds t v w := bounds_of_has hcompletes.has_start horders
  have hright : K'.Bounds (t || u) v y := by
    refine bounds_append hcompletes hK hnew hu (fun hvw => ?_) fun hvy => ?_
    · cases hvw
      exact (Bool.or_eq_false_iff.1 (hcompatible horders .refl)).1
    · cases hvy
      exact hcompatible horders hu
  rw [Bool.or_assoc]
  refine bounds_cons hcompletes hK hs hright (fun hvy => ?_) fun hxy => ?_
  · cases hvy
    exact hcompatible horders hu
  · cases hxy
    have hfalse := hcompatible horders (hK.trans hu hs)
    simp only [Bool.or_eq_false_iff] at hfalse
    simp [hfalse]

end

/-- A comparison that says nothing about the order of values but what the relations and `r` lead
to. -/
structure Led (K : Relations) (r : Relation) (V : Nat → Prop) (e : Relation) : Prop where
  comparison : e.IsComparison V
  reaches : ∀ {c x y}, e.Orders c x y → K.Reaches r c x y

theorem led_self (hr : r.IsComparison V) : K.Led r V r := ⟨hr, reaches_self⟩

theorem Led.deduce? {d e : Relation} (hK : K.Closed) (hd : K.Led r V d) (hk : k ∈ K.toList)
    (hcomparison : k.IsComparison V) (he : d.deduce? k = some e) : K.Led r V e := by
  obtain ⟨he, hjoins⟩ := Relation.deduce?_joins hd.comparison hcomparison he
  refine ⟨he, fun hxy => ?_⟩
  rcases hjoins hxy with h | h | ⟨z, a, b, h, h', rfl⟩ | ⟨z, a, b, h, h', rfl⟩
  · exact hd.reaches h
  · exact .inl (bounds_of_mem hk h)
  · exact hK.reaches_append (hd.reaches h) (bounds_of_mem hk h')
  · exact hK.reaches_cons (bounds_of_mem hk h) (hd.reaches h')

theorem led_of_closure {found : Relations} {budget : Budget} (hK : K.Closed)
    (hcomparison : ∀ k ∈ K.toList, k.IsComparison V) (hr : r.IsComparison V)
    (hfound : r.closure K budget = .ok found) : ∀ e ∈ (found.insert r).toList, K.Led r V e :=
  Relation.closure_insert_induction hfound (led_self hr)
    fun hd hk he => hd.deduce? hK hk (hcomparison _ hk) he

theorem Closed.bounds_iff_reaches {found : Relations} {budget : Budget} (hK : K.Closed)
    (hcomparison : ∀ k ∈ K.toList, k.IsComparison V) (hr : r.IsComparison V)
    (hcompatible : K.Compatible r) (hfound : r.closure K budget = .ok found)
    (hhas : ∀ {e}, K'.has e ↔ Relations.has (found.insert r) e ∨ K.has e) :
    K'.Bounds c x y ↔ K.Reaches r c x y := by
  constructor
  · rintro (h | ⟨e, he, h⟩)
    · exact .inl (.inl h)
    rcases hhas.1 (has_of_mem he) with he | he
    · obtain ⟨d, hd, hde⟩ := has_iff.1 he
      exact (led_of_closure hK hcomparison hr hfound d hd).reaches (h.congr (Setoid.symm hde))
    · exact .inl (bounds_of_has he h)
  · obtain ⟨all, hcompletes⟩ := exists_completes hfound hhas
    exact bounds_of_reaches hcompletes hK hcompatible

/-- Adding a relation that is not excluded, with its closure, keeps a set closed. -/
theorem Closed.add (hK : K.Closed) (hcompatible : K.Compatible r)
    (hbounds : ∀ {c x y}, K'.Bounds c x y ↔ K.Reaches r c x y) : K'.Closed where
  trans h h' := hbounds.2 (hcompatible.reaches_trans hK (hbounds.1 h) (hbounds.1 h'))
  irrefl h := hcompatible.reaches_irrefl hK (hbounds.1 h)

end Relations

end Pathwise
