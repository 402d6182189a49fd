import Pathwise.Proofs.Feasibility

namespace Pathwise

namespace Relations

variable {V : Nat → Prop} {K K' : Relations} {r k : Relation} {all : List Relation}
  {x y z p q : Nat}

/-- A relation is known together with its inverse. -/
def Contradictory (K : Relations) : Prop := ∃ r, K.has r ∧ K.has r.inverse

/-- The relations leave no choice but that `x = y`. -/
def Ties (K : Relations) (x y : Nat) : Prop := K.Bounds false x y ∧ K.Bounds false y x

theorem Ties.refl : K.Ties x x := ⟨.refl, .refl⟩

theorem Ties.symm (h : K.Ties x y) : K.Ties y x := ⟨h.2, h.1⟩

theorem Ties.trans (hK : K.Closed) (h : K.Ties x y) (h' : K.Ties y z) : K.Ties x z :=
  ⟨hK.trans h.1 h'.1, hK.trans h'.2 h.2⟩

def Equates (K : Relations) (x y : Nat) : Prop :=
  x = y ∨ K.has ⟨.equal, .simple x, .simple y⟩

theorem Equates.symm (h : K.Equates x y) : K.Equates y x := by
  rcases h with rfl | h
  · exact .inl rfl
  · exact .inr ((has_congr (Relation.equiv_swap rfl x y)).1 h)

theorem Equates.ties (h : K.Equates x y) : K.Ties x y := by
  rcases h with rfl | h
  · exact .refl
  · exact ⟨bounds_of_has h .equal, bounds_of_has h .equal_symm⟩

structure Coherent (K : Relations) (V : Nat → Prop) : Prop where
  comparison : ∀ k ∈ K.toList, k.IsComparison V
  closed : K.Closed
  linked : ∀ {x y}, K.Ties x y → ∃ z, K.Equates z x ∧ K.Equates z y
  clash : ∀ {x y}, K.has ⟨.notEqual, .simple x, .simple y⟩ → K.Ties x y → K.Contradictory

theorem contradictory_of_equal (heq : K.has ⟨.equal, .simple x, .simple y⟩)
    (hne : K.has ⟨.notEqual, .simple x, .simple y⟩) : K.Contradictory :=
  ⟨_, heq, hne⟩

theorem coherent_empty : Coherent ∅ V where
  comparison := by simp
  closed := closed_empty
  linked := by
    rintro x y ⟨⟨_, rfl⟩ | ⟨k, hk, _⟩, _⟩
    · exact ⟨x, .inl rfl, .inl rfl⟩
    · simp at hk
  clash := by simp [has_iff]

section

variable (hcompletes : Completes K r all K') (hclosed : K'.Closed)

include hcompletes

theorem ties_mono (h : K.Ties x y) : K'.Ties x y :=
  ⟨bounds_mono hcompletes h.1, bounds_mono hcompletes h.2⟩

theorem equates_mono (h : K.Equates x y) : K'.Equates x y := h.imp_right hcompletes.mono

theorem contradictory_mono (h : K.Contradictory) : K'.Contradictory := by
  obtain ⟨r, hr, hinverse⟩ := h
  exact ⟨r, hcompletes.mono hr, hcompletes.mono hinverse⟩

include hclosed in
/-- Where a bound was known, the opposite one makes an equality. -/
theorem equates_of_bounds (hold : K.Bounds false y x) (hnew : K'.Bounds false x y)
    (hfresh : ¬ K.Bounds false x y) : K'.Equates x y := by
  have hne : x ≠ y := by
    rintro rfl
    exact hfresh .refl
  have hold' := bounds_mono hcompletes hold
  obtain ⟨k, hk, hyx⟩ := hold.exists_orders hne.symm
  obtain ⟨d, hd, hhas, hxy⟩ := (bounds_cases hcompletes hnew).resolve_left hfresh
  rcases hxy.bound_or with rfl | heq | hstrict
  · rcases hyx.bound_or with rfl | heq | hstrict
    · have hsame := hcompletes.deduced hd hk (Relation.deduce?_opposite hne.symm)
      exact Equates.symm (.inr hsame)
    · have hxy := Relation.orders_of_equal (Setoid.trans heq (Relation.equiv_swap rfl y x))
      exact absurd (bounds_of_mem hk hxy) hfresh
    · have hyx := bounds_mono hcompletes (bounds_of_mem hk hstrict)
      exact absurd (hclosed.trans hyx hnew) hclosed.irrefl
  · exact .inr ((has_congr heq).1 hhas)
  · exact absurd (hclosed.trans (bounds_of_has hhas hstrict) hold') hclosed.irrefl

theorem equates_trans (hxy : K'.Equates x y) (hfresh : ¬ K.Ties x y) (hyz : K.Equates y z) :
    K'.Equates x z := by
  by_cases hne : y = z
  · exact hne ▸ hxy
  have hxy' : x ≠ y := by
    rintro rfl
    exact hfresh .refl
  have hxz : x ≠ z := by
    rintro rfl
    exact hfresh hyz.ties.symm
  replace hxy := hxy.resolve_left hxy'
  obtain ⟨d, hd, hde⟩ := (hcompletes.added hxy).resolve_left fun h => hfresh (Equates.ties (.inr h))
  obtain ⟨k, hk, hke⟩ := has_iff.1 (hyz.resolve_left hne)
  have hdback := Setoid.trans hde (Relation.equiv_swap rfl x y)
  have hkback := Setoid.trans hke (Relation.equiv_swap rfl y z)
  obtain ⟨⟨e, he, hforth⟩, _⟩ := Relation.deduce?_of_orders (Relation.orders_of_equal hde)
    (Relation.orders_of_equal hke) hxy' hne hxz
  obtain ⟨_, e', he', hback⟩ := Relation.deduce?_of_orders (Relation.orders_of_equal hkback)
    (Relation.orders_of_equal hdback) (Ne.symm hne) hxy'.symm hxz.symm
  cases he.symm.trans he'
  have hsame := Relation.equal_of_orders hforth hback hxz
  exact .inr ((has_congr hsame).1 (hcompletes.deduced hd hk he))

theorem Coherent.equates_trans (hK : K.Coherent V) (hxy : K'.Equates x y) (hfresh : ¬ K.Ties x y)
    (hyz : K.Ties y z) : K'.Equates x z ∧ ¬ K.Ties x z := by
  obtain ⟨w, hwy, hwz⟩ := hK.linked hyz
  have hfresh' : ¬ K.Ties x w := fun h => hfresh (h.trans hK.closed hwy.ties)
  have hxw := Relations.equates_trans hcompletes hxy hfresh hwy.symm
  refine ⟨Relations.equates_trans hcompletes hxw hfresh' hwz, fun h => ?_⟩
  exact hfresh (h.trans hK.closed hyz.symm)

include hclosed in
/-- Values that have to be equal are equal to some value, by equalities that are known. -/
theorem Coherent.linked_of_completes (hK : K.Coherent V)
    (hbounds : ∀ {c x y}, K'.Bounds c x y ↔ K.Reaches r c x y) (h : K'.Ties x y) :
    ∃ z, K'.Equates z x ∧ K'.Equates z y := by
  by_cases hxy : K.Bounds false x y
  · by_cases hyx : K.Bounds false y x
    · obtain ⟨z, hzx, hzy⟩ := hK.linked ⟨hxy, hyx⟩
      exact ⟨z, equates_mono hcompletes hzx, equates_mono hcompletes hzy⟩
    · exact ⟨y, equates_of_bounds hcompletes hclosed hxy h.2 hyx, .inl rfl⟩
  by_cases hyx : K.Bounds false y x
  · exact ⟨x, .inl rfl, equates_of_bounds hcompletes hclosed hyx h.1 hxy⟩
  -- both bounds are new, so both pass `r`
  obtain ⟨_, _, _, a, b, hxa, hab, hby, _⟩ := (hbounds.1 h.1).resolve_left hxy
  obtain ⟨_, _, _, a', b', hya, hab', hbx, _⟩ := (hbounds.1 h.2).resolve_left hyx
  replace hxa := hxa.weaken
  replace hby := hby.weaken
  replace hya := hya.weaken
  replace hbx := hbx.weaken
  have hr : K'.Bounds false a b := bounds_of_has hcompletes.has_start hab.weaken
  rcases hab.unique hab' with ⟨rfl, rfl⟩ | ⟨rfl, rfl, _, _⟩
  · -- in the same direction: both values were at most `a`
    have hback {v : Nat} (hb : K.Bounds false b' v) : K'.Bounds false a' v :=
      hclosed.trans hr (bounds_mono hcompletes hb)
    refine ⟨a', equates_of_bounds hcompletes hclosed hxa (hback hbx) fun hax => ?_,
      equates_of_bounds hcompletes hclosed hya (hback hby) fun hay => ?_⟩
    · exact hyx (hK.closed.trans hya hax)
    · exact hxy (hK.closed.trans hxa hay)
  · -- in opposite directions: `r` is an equality of values that each was tied to
    have hfresh : ¬ K.Ties b' a' := fun h =>
      hxy (hK.closed.trans (hK.closed.trans hxa h.1) hby)
    have hne : b' ≠ a' := by
      rintro rfl
      exact hfresh .refl
    have heq := (has_congr (Relation.equal_of_orders hab hab' hne)).1 hcompletes.has_start
    obtain ⟨hy, hfresh⟩ := hK.equates_trans hcompletes (.inr heq) hfresh ⟨hby, hya⟩
    obtain ⟨hx, _⟩ := hK.equates_trans hcompletes hy.symm (fun h => hfresh h.symm) ⟨hbx, hxa⟩
    exact ⟨y, hx, .inl rfl⟩

end

theorem Completes.has_differs {d : Relation} (hcompletes : Completes K r all K') (hd : d ∈ all)
    (hzx : d ≈ ⟨.equal, .simple z, .simple x⟩) (hne : K.has ⟨.notEqual, .simple x, .simple y⟩)
    (hdistinct : z ≠ x ∧ x ≠ y ∧ z ≠ y) : K'.has ⟨.notEqual, .simple z, .simple y⟩ := by
  obtain ⟨k, hk, hxy⟩ := has_iff.1 hne
  obtain ⟨⟨e, he, hzy⟩, _⟩ :=
    Relation.deduce?_differs hzx hxy hdistinct.1 hdistinct.2.1 hdistinct.2.2
  exact (has_congr hzy).1 (hcompletes.deduced hd hk he)

theorem Coherent.contradictory_of_has (hK : K.Coherent V) (hcompletes : Completes K r all K')
    (hlinked : ∃ z, K'.Equates z x ∧ K'.Equates z y)
    (hne : K.has ⟨.notEqual, .simple x, .simple y⟩) (hfresh : ¬ K.Ties x y) :
    K'.Contradictory := by
  have hxy : x ≠ y := by
    rintro rfl
    exact hfresh .refl
  have hne' := hcompletes.mono hne
  obtain ⟨z, hzx, hzy⟩ := hlinked
  by_cases hx : z = x
  · cases hx
    exact contradictory_of_equal (hzy.resolve_left hxy) hne'
  by_cases hy : z = y
  · cases hy
    exact contradictory_of_equal (hzx.symm.resolve_left hxy) hne'
  replace hzx := hzx.resolve_left hx
  replace hzy := hzy.resolve_left hy
  -- one of the two equalities is new, and meets the difference
  rcases hcompletes.added hzx with hold | ⟨d, hd, hdx⟩
  · rcases hcompletes.added hzy with hold' | ⟨d, hd, hdy⟩
    · have hzx : K.Equates z x := .inr hold
      have hzy : K.Equates z y := .inr hold'
      exact absurd (hzx.ties.symm.trans hK.closed hzy.ties) hfresh
    · have hne := (has_congr (Relation.equiv_swap rfl x y)).1 hne
      exact contradictory_of_equal hzx (hcompletes.has_differs hd hdy hne ⟨hy, hxy.symm, hx⟩)
  · exact contradictory_of_equal hzy (hcompletes.has_differs hd hdx hne ⟨hx, hxy, hy⟩)

theorem Coherent.contradictory_of_notEqual (hK : K.Coherent V)
    (hcompletes : Completes K ⟨.notEqual, .simple x, .simple y⟩ all K') (hxy : x ≠ y)
    (h : K.Ties x y) : K'.Contradictory := by
  obtain ⟨z, hzx, hzy⟩ := hK.linked h
  by_cases hx : z = x
  · cases hx
    exact contradictory_of_equal (hcompletes.mono (hzy.resolve_left hxy)) hcompletes.has_start
  by_cases hy : z = y
  · cases hy
    exact contradictory_of_equal (hcompletes.mono (hzx.symm.resolve_left hxy)) hcompletes.has_start
  obtain ⟨k, hk, hkx⟩ := has_iff.1 (hzx.resolve_left hx)
  obtain ⟨_, e, he, hzy'⟩ := Relation.deduce?_differs hkx (Setoid.refl _) hx hxy hy
  refine contradictory_of_equal (hcompletes.mono (hzy.resolve_left hy)) ?_
  exact (has_congr hzy').1 (hcompletes.deduced hcompletes.start hk he)

/-- If the relation is a difference, its sides are tied to those of a known one, or of `r`. -/
def Traced (K K' : Relations) (r e : Relation) : Prop :=
  ∀ ⦃x y⦄, e = ⟨.notEqual, .simple x, .simple y⟩ →
    ∃ p q, (K.has ⟨.notEqual, .simple p, .simple q⟩ ∨ r = ⟨.notEqual, .simple p, .simple q⟩) ∧
      K'.Ties p x ∧ K'.Ties q y

section

variable (hK : K.Coherent V) (hcompletes : Completes K r all K') (hclosed : K'.Closed)
  (hbounds : ∀ {c x y}, K'.Bounds c x y ↔ K.Reaches r c x y)

include hK hcompletes hclosed hbounds

theorem Traced.deduce? {d e : Relation} (hled : K.Led r V d) (hd : Traced K K' r d)
    (hk : k ∈ K.toList) (he : d.deduce? k = some e) : Traced K K' r e := by
  rintro x y rfl
  rcases Relation.deduce?_comparison hled.comparison (hK.comparison k hk) he with
    ⟨hd, hk⟩ | hreplaces | hreplaces
  · exact absurd rfl (hd.deduce?_joins hk he).1.kind_ne
  · have hties {p z : Nat} (h : d ≈ ⟨.equal, .simple p, .simple z⟩) : K'.Ties p z := by
      have hback := Setoid.trans h (Relation.equiv_swap rfl p z)
      exact ⟨hbounds.2 (hled.reaches (Relation.orders_of_equal h)),
        hbounds.2 (hled.reaches (Relation.orders_of_equal hback))⟩
    cases hreplaces with
    | left h _ _ => exact ⟨_, _, .inl (has_of_mem hk), hties h, .refl⟩
    | right h _ _ => exact ⟨_, _, .inl (has_of_mem hk), .refl, hties h⟩
  · have hties {p z : Nat} (h : k ≈ ⟨.equal, .simple p, .simple z⟩) : K'.Ties p z :=
      ties_mono hcompletes (Equates.ties (.inr (has_iff.2 ⟨k, hk, h⟩)))
    cases hreplaces with
    | left h _ _ =>
      obtain ⟨p, q, hsource, hp, hq⟩ := hd rfl
      exact ⟨p, q, hsource, hp.trans hclosed (hties h), hq⟩
    | right h _ _ =>
      obtain ⟨p, q, hsource, hp, hq⟩ := hd rfl
      exact ⟨p, q, hsource, hp, hq.trans hclosed (hties h)⟩

theorem Coherent.traced_of_closure {found : Relations} {budget : Budget} (hr : r.IsComparison V)
    (hfound : r.closure K budget = .ok found) :
    ∀ e ∈ (found.insert r).toList, Traced K K' r e := by
  have hboth : ∀ e ∈ (found.insert r).toList, K.Led r V e ∧ Traced K K' r e := by
    refine Relation.closure_insert_induction hfound ⟨led_self hr, ?_⟩ fun hd hk he => ?_
    · rintro x y rfl
      exact ⟨x, y, .inr rfl, .refl, .refl⟩
    · exact ⟨hd.1.deduce? hK.closed hk (hK.comparison _ hk) he,
        hd.2.deduce? hK hcompletes hclosed hbounds hd.1 hk he⟩
  exact fun e he => (hboth e he).2

/-- A difference of values that are tied afterwards, known before or assumed, leaves a
contradiction. -/
theorem Coherent.contradictory_of_source (hresolve : r.resolve K ≠ .unfulfilled)
    (hsource : K.has ⟨.notEqual, .simple p, .simple q⟩ ∨ r = ⟨.notEqual, .simple p, .simple q⟩)
    (h : K'.Ties p q) : K'.Contradictory := by
  by_cases hold : K.Ties p q
  · rcases hsource with hne | rfl
    · exact contradictory_mono hcompletes (hK.clash hne hold)
    · have hpq : p ≠ q := by
        rintro rfl
        exact hresolve (by simp [Relation.resolve, Relation.isReflexive, Setoid.refl])
      exact hK.contradictory_of_notEqual hcompletes hpq hold
  · rcases hsource with hne | rfl
    · have hlinked := hK.linked_of_completes hcompletes hclosed hbounds h
      exact hK.contradictory_of_has hcompletes hlinked hne hold
    · -- a difference bounds nothing
      have hold' {x y : Nat} (h : K'.Bounds false x y) : K.Bounds false x y := by
        rcases hbounds.1 h with h | ⟨_, _, _, _, _, _, h, _⟩
        · exact h
        · contradiction
      exact absurd ⟨hold' h.1, hold' h.2⟩ hold

theorem Coherent.clash_of_closure {found : Relations} {budget : Budget} (hr : r.IsComparison V)
    (hfound : r.closure K budget = .ok found) (hresolve : r.resolve K ≠ .unfulfilled)
    (hne : has (found.insert r) ⟨.notEqual, .simple x, .simple y⟩) (h : K'.Ties x y) :
    K'.Contradictory := by
  obtain ⟨e, he, hxy⟩ := has_iff.1 hne
  have htraced := hK.traced_of_closure hcompletes hclosed hbounds hr hfound e he
  rcases Relation.eq_of_equiv hxy with heq | heq
  · obtain ⟨p, q, hsource, hp, hq⟩ := htraced heq
    have hpq := (hp.trans hclosed h).trans hclosed hq.symm
    exact hK.contradictory_of_source hcompletes hclosed hbounds hresolve hsource hpq
  · obtain ⟨p, q, hsource, hp, hq⟩ := htraced heq
    have hpq := (hp.trans hclosed h.symm).trans hclosed hq.symm
    exact hK.contradictory_of_source hcompletes hclosed hbounds hresolve hsource hpq

end

theorem Coherent.add {found : Relations} {budget : Budget} (hK : K.Coherent V)
    (hV : ∀ {x}, V x → Value.firstFreeId ≤ x) (hr : r.IsComparison V)
    (hfound : r.closure K budget = .ok found) (hresolve : r.resolve K ≠ .unfulfilled) :
    (K.insertAll (found.insert r).toList).Coherent V := by
  have hcompatible := compatible_of_resolve hK.closed hK.comparison hV hr hresolve
  have hhas {e : Relation} :
      (K.insertAll (found.insert r).toList).has e ↔ has (found.insert r) e ∨ K.has e := by
    rw [has_insertAll, ← has_iff]
  obtain ⟨all, hcompletes⟩ := exists_completes hfound hhas
  have hbounds {c x y} := hK.closed.bounds_iff_reaches (c := c) (x := x) (y := y) hK.comparison hr
    hcompatible hfound hhas
  have hclosed := hK.closed.add hcompatible hbounds
  refine ⟨fun e he => ?_, hclosed, hK.linked_of_completes hcompletes hclosed hbounds,
    fun hne h => ?_⟩
  · rcases mem_insertAll he with he | he
    · exact (led_of_closure hK.closed hK.comparison hr hfound e he).comparison
    · exact hK.comparison e he
  · rcases hhas.1 hne with hne | hne
    · exact hK.clash_of_closure hcompletes hclosed hbounds hr hfound hresolve hne h
    · exact hK.contradictory_of_source hcompletes hclosed hbounds hresolve (.inl hne) h

variable {budget : Budget} {rs : List Relation}

theorem Gathered.coherent (h : Gathered budget K rs) (hV : ∀ {x}, V x → Value.firstFreeId ≤ x)
    (hrs : ∀ r ∈ rs, r.IsComparison V) : K.Coherent V := by
  induction h with
  | nil => exact coherent_empty
  | snoc _ hadds ih =>
    rw [List.forall_mem_append, List.forall_mem_singleton] at hrs
    cases hadds with
    | known => exact ih hrs.1
    | closure hfound hresolve =>
      exact (ih hrs.1).add hV hrs.2 hfound (hresolve _ (mem_insert_self _ _))

theorem Gathered.has (h : Gathered budget K rs) : ∀ r ∈ rs, K.has r := by
  induction h with
  | nil => simp
  | @snoc K L rs r _ hadds ih =>
    rw [List.forall_mem_append, List.forall_mem_singleton]
    cases hadds with
    | known hr => exact ⟨ih, hr⟩
    | closure =>
      simp only [has_insertAll]
      exact ⟨fun r hr => .inr (ih r hr), .inl ⟨r, mem_insert_self _ r, Setoid.refl r⟩⟩

/-- Comparisons that leave no contradiction can hold together. -/
theorem Coherent.feasible (hK : K.Coherent V) (hV : ∀ {x}, V x → Value.firstFreeId ≤ x)
    (hrs : ∀ r ∈ rs, r.IsComparison V) (hknown : ∀ r ∈ rs, K.has r)
    (hconsistent : ¬ K.Contradictory) : Feasible rs := by
  obtain ⟨a, hlt, hle, hties⟩ := hK.closed.exists_solution
  refine ⟨a, fun r hr => ?_⟩
  have hknown := hknown r hr
  cases hrs r hr with
  | ordering hordering =>
    exact hordering.holds hV (fun h => hlt (bounds_of_has hknown h))
      fun h => hle (bounds_of_has hknown h)
  | @notEqual x y hx hy =>
    have hne : a x ≠ a y := fun h => hconsistent (hK.clash hknown (hties h))
    refine Relation.holds_iff.2 ⟨a x, a y, ?_, ?_, by simpa [Relation.Kind.decide?] using hne⟩
    · rw [Value.eval, Valuation.read_of_le (hV hx)]
    · rw [Value.eval, Valuation.read_of_le (hV hy)]

theorem Gathered.consistent (h : Gathered budget K rs) (hfeasible : Feasible rs) :
    ¬ K.Contradictory := by
  obtain ⟨a, ha⟩ := hfeasible
  have hholds := h.forall_mem Relation.deduce?_holds ha
  rintro ⟨r, hr, hinverse⟩
  obtain ⟨k, hk, hkr⟩ := has_iff.1 hr
  obtain ⟨l, hl, hlr⟩ := has_iff.1 hinverse
  exact Relation.not_holds_inverse ((Relation.holds_congr hkr).1 (hholds k hk))
    ((Relation.holds_congr hlr).1 (hholds l hl))

theorem Refused.not_feasible (h : Refused budget rs) : ¬ Feasible rs := by
  rintro ⟨a, ha⟩
  obtain ⟨ps, r, K, hpre, hK, found, hfound, i, hi, hunfulfilled⟩ := h
  have hholds : ∀ q ∈ ps ++ [r], q.Holds fun id => .int (a id) := fun q hq => ha q (hpre.subset hq)
  rw [List.forall_mem_append, List.forall_mem_singleton] at hholds
  have hknown := hK.forall_mem Relation.deduce?_holds hholds.1
  refine Relation.not_holds_of_resolve hknown hunfulfilled ?_
  exact Relation.closure_insert_induction hfound hholds.2
    (fun hd hk => Relation.deduce?_holds hd (hknown _ hk)) i hi

end Relations

namespace Relation

variable {s : State} {rs : List Relation} {budget : Budget}

theorem IsComparison.between {V : Nat → Prop} {r : Relation} (h : r.IsComparison V) :
    r.Between V := by
  cases h with
  | ordering h => exact h.between
  | notEqual hx hy => exact .intro hx hy

/-- Assuming comparisons between values about which nothing is known leaves one state without a
contradiction where integers satisfy all those assumed so far, and only contradictory ones, if any,
where none do. -/
theorem assumeAll_contradictory (hrelations : s.relations = ∅)
    (hrs : ∀ r ∈ rs, r.IsComparison s.Open)
    (hbudget : ∀ used iterations,
      assumeAll rs budget [s] ≠ .error (.relationsExceeded used iterations)) (i : Nat) :
    ∃ states, assumeAll (rs.take i) budget [s] = .ok states ∧
      (Feasible (rs.take i) → ∃ t, states = [t] ∧ ¬ t.relations.Contradictory) ∧
      (¬ Feasible (rs.take i) → ∀ t ∈ states, t.relations.Contradictory) := by
  have hbetween : ∀ r ∈ rs, r.Between s.Open := fun r hr => (hrs r hr).between
  have htake : ∀ r ∈ rs.take i, r.IsComparison s.Open := fun r hr => hrs r (List.mem_of_mem_take hr)
  rcases assumeAll_of_open hrelations hbetween hbudget i with ⟨h, hrefused⟩ | ⟨K, h, hK⟩
  · exact ⟨[], h, fun hf => absurd hf hrefused.not_feasible, fun _ => List.forall_mem_nil _⟩
  · refine ⟨_, h, fun hf => ⟨_, rfl, hK.consistent hf⟩, fun hf => ?_⟩
    have hcoherent := hK.coherent State.Open.firstFreeId_le htake
    rw [List.forall_mem_singleton]
    by_contra hconsistent
    exact hf (hcoherent.feasible State.Open.firstFreeId_le htake hK.has hconsistent)

/-- Two different values between a lower and an upper one, and then the two bounds the other way
round. -/
def diamond : List Relation := [
  ⟨.greaterOrEqual, .simple 3, .simple 5⟩, ⟨.greaterOrEqual, .simple 4, .simple 5⟩,
  ⟨.greaterOrEqual, .simple 6, .simple 3⟩, ⟨.greaterOrEqual, .simple 6, .simple 4⟩,
  ⟨.notEqual, .simple 3, .simple 4⟩, ⟨.greaterOrEqual, .simple 5, .simple 6⟩]

theorem assumeAll_contradictory_diamond :
    State.corners.relations = ∅ ∧ (∀ r ∈ diamond, r.IsComparison State.corners.Open) ∧
      (∃ t, assumeAll (diamond.take 5) {} [State.corners] = .ok [t] ∧
        ¬ t.relations.Contradictory) ∧
      ∃ states, assumeAll diamond {} [State.corners] = .ok states ∧
        ∀ t ∈ states, t.relations.Contradictory := by
  have hrs : ∀ r ∈ diamond, r.IsComparison State.corners.Open := by
    simp only [diamond, List.forall_mem_cons]
    refine ⟨.ordering (.greaterOrEqual ?_ ?_), .ordering (.greaterOrEqual ?_ ?_),
      .ordering (.greaterOrEqual ?_ ?_), .ordering (.greaterOrEqual ?_ ?_), .notEqual ?_ ?_,
      .ordering (.greaterOrEqual ?_ ?_), nofun⟩ <;> exact State.corners_open (by decide)
  have hok : (assumeAll diamond {} [State.corners]).isOk := by decide +kernel
  have hfeasible : Feasible (diamond.take 5) := by
    refine ⟨fun id => if id = 4 ∨ id = 6 then 1 else 0, ?_⟩
    simp only [Holds]
    decide
  have hinfeasible : ¬ Feasible diamond := by
    rintro ⟨a, ha⟩
    simp [diamond, Holds, toValue, Value.eval, Valuation.read, Datum.int?, Kind.decide?] at ha
    omega
  obtain ⟨states, hstates, hone, _⟩ :=
    assumeAll_contradictory rfl hrs (fun _ _ => ne_error_of_isOk hok _) 5
  obtain ⟨t, rfl, ht⟩ := hone hfeasible
  obtain ⟨states', hstates', _, hall⟩ :=
    assumeAll_contradictory rfl hrs (fun _ _ => ne_error_of_isOk hok _) 6
  exact ⟨rfl, hrs, ⟨t, hstates, ht⟩, states', hstates', hall hinfeasible⟩

/-- What makes the four values equal is accepted, and leaves an equality with its inverse: a new
relation and what follows from it are checked against the relations known before, not against each
other. -/
theorem diamond_leaves_inverse :
    ∃ t, assumeAll diamond {} [State.corners] = .ok [t] ∧
      t.relations.has ⟨.equal, .simple 5, .simple 3⟩ ∧
      t.relations.has (inverse ⟨.equal, .simple 5, .simple 3⟩) := by
  have hone : (assumeAll diamond {} [State.corners]).toOption.any fun states =>
      states.length == 1 && states.all fun t => t.relations.has ⟨.equal, .simple 5, .simple 3⟩ &&
        t.relations.has (inverse ⟨.equal, .simple 5, .simple 3⟩) := by decide +kernel
  cases h : assumeAll diamond {} [State.corners] with
  | error f =>
    rw [h] at hone
    contradiction
  | ok states =>
    rw [h] at hone
    simp only [Except.toOption, Option.any_some, Bool.and_eq_true, beq_iff_eq] at hone
    obtain ⟨t, rfl⟩ := List.length_eq_one_iff.1 hone.1
    exact ⟨t, rfl, by simpa using hone.2⟩

end Relation

end Pathwise
