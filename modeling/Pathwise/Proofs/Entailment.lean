import Pathwise.Proofs.Consistency

namespace Pathwise

/-- Integers that satisfy all the relations satisfy the further one. -/
def Entails (rs : List Relation) (d : Relation) : Prop :=
  ∀ a : Nat → Int, (∀ r ∈ rs, r.Holds fun id => .int (a id)) → d.Holds fun id => .int (a id)

namespace Relation

variable {ρ : Valuation} {r s : Relation} {K : Relations} {c : Bool} {x y : Nat}

theorem resolve_eq_fulfilled {g : Ordering → Bool} (hknown : ∀ k ∈ K.toList, k.Holds ρ)
    (hrefl : ¬ r.isReflexive) (hg : r.kind.admits? = some g) (hs : s ∈ K.toList)
    (h : s.implies r = .fulfilled) : r.resolve K = .fulfilled := by
  obtain ⟨k, hk, hanswer, hdetermined⟩ := exists_implies_eq_resolve hrefl hs (by rw [h]; rfl)
  cases hresolve : r.resolve K with
  | fulfilled => rfl
  | undetermined =>
    rw [hresolve] at hdetermined
    contradiction
  | unfulfilled =>
    have hr := holds_of_implies (hknown s hs) hg h
    exact absurd hr (not_holds_of_implies (hknown k hk) (hanswer.trans hresolve))

theorem holds_of_resolve {g : Ordering → Bool} (hknown : ∀ k ∈ K.toList, k.Holds ρ)
    (hrefl : ¬ r.isReflexive) (hg : r.kind.admits? = some g) (h : r.resolve K = .fulfilled) :
    r.Holds ρ := by
  obtain ⟨k, hk, hanswer⟩ := exists_implies_of_resolve hrefl rfl h
  exact holds_of_implies (hknown k hk) hg hanswer

theorem Orders.implies_bound (h : r.Orders c x y) (hne : x ≠ y) :
    r.implies ⟨.greaterOrEqual, .simple y, .simple x⟩ = .fulfilled := by
  have hne' := hne.symm
  cases h <;> simp only [Relation.implies, equiv_simple, inverse, sameOperands,
    Value.simple_equiv_simple]
  all_goals simp [hne, hne', Kind.inverse, Kind.isCommutative, Kind.resolve, Kind.admits?]

theorem holds_simple {k : Kind} {a : Nat → Int} (hx : Value.firstFreeId ≤ x)
    (hy : Value.firstFreeId ≤ y) :
    Holds (fun id => .int (a id)) ⟨k, .simple x, .simple y⟩ ↔
      k.decide? (a x) (a y) = some true := by
  simp [holds_iff, Value.eval, Valuation.read_of_le hx, Valuation.read_of_le hy]

theorem resolve_self {k : Kind} (hk : k = .equal ∨ k = .greaterOrEqual) (v : Value) :
    resolve ⟨k, v, v⟩ K = .fulfilled := by
  have hrefl : isReflexive ⟨k, v, v⟩ := decide_eq_true (Setoid.refl v)
  rw [resolve, if_pos hrefl]
  rcases hk with rfl | rfl <;> rfl

theorem holds_of_isReflexive {V : Nat → Prop} {a : Nat → Int} (hr : r.IsOrdering V)
    (hV : ∀ {x}, V x → Value.firstFreeId ≤ x) (hrefl : r.isReflexive)
    (h : r.resolve K = .fulfilled) : r.Holds fun id => .int (a id) := by
  have hsame := of_decide_eq_true hrefl
  rw [resolve, if_pos hrefl] at h
  cases hr with
  | less => contradiction
  | greaterOrEqual hx hy | equal hx hy =>
    cases Value.simple_equiv_simple.1 hsame
    simp [holds_simple (hV hx) (hV hx), Kind.decide?]

end Relation

namespace Relations

variable {V : Nat → Prop} {K : Relations} {r d : Relation} {rs : List Relation} {c : Bool}
  {x y : Nat}

theorem Compatible.graded (hr : K.Compatible r) (hK : K.Closed) : Graded (K.Reaches r) where
  refl _ := .inl .refl
  weaken := by
    rintro c x y (h | ⟨s, t, u, v, w, hs, hvw, hu, _⟩)
    · exact .inl h.weaken
    · exact .inr ⟨false, false, false, v, w, hs.weaken, hvw.weaken, hu.weaken, rfl⟩
  trans := hr.reaches_trans hK
  irrefl := hr.reaches_irrefl hK
  finite := by
    obtain ⟨m, hm⟩ := exists_ids_le (r :: K.toList)
    have hbound {c x y} (h : K.Bounds c x y) : x = y ∨ x ≤ m :=
      h.imp And.right fun ⟨k, hk, hxy⟩ => hm k (List.mem_cons_of_mem _ hk) hxy
    refine ⟨m, fun {c x y} h => ?_⟩
    rcases h with h | ⟨s, t, u, v, w, hs, hvw, hu, _⟩
    · exact hbound h
    · rcases hbound hs with rfl | hx
      · exact .inr (hm r List.mem_cons_self hvw)
      · exact .inr hx

/-- A bound that is not known is broken by some solution: the opposite one can be added. -/
theorem Closed.exists_solution_not (hK : K.Closed) (h : ¬ K.Bounds c x y) :
    ∃ a : Nat → Int, (∀ {x y}, K.Bounds true x y → a x < a y) ∧
      (∀ {x y}, K.Bounds false x y → a x ≤ a y) ∧ ¬ if c then a x < a y else a x ≤ a y := by
  cases c with
  | false =>
    have hcompatible : K.Compatible ⟨.lessThan, .simple y, .simple x⟩ := by
      rintro b c' _ _ ⟨⟩ hxy
      exact absurd hxy.weaken h
    obtain ⟨a, hlt, hle, _⟩ := (hcompatible.graded hK).exists_solution
    have hyx := hlt (reaches_self .less)
    exact ⟨a, fun h => hlt (.inl h), fun h => hle (.inl h), by simpa using hyx⟩
  | true =>
    have hcompatible : K.Compatible ⟨.greaterOrEqual, .simple x, .simple y⟩ := by
      rintro b c' _ _ ⟨⟩ hxy
      cases c' with
      | false => rfl
      | true => exact absurd hxy h
    obtain ⟨a, hlt, hle, _⟩ := (hcompatible.graded hK).exists_solution
    have hyx := hle (reaches_self .greaterOrEqual)
    exact ⟨a, fun h => hlt (.inl h), fun h => hle (.inl h), by simpa using hyx⟩

/-- The relation is found to be fulfilled, or is an equality of two values that are both known to
equal a third one. -/
def Confirms (K : Relations) (d : Relation) : Prop :=
  d.resolve K = .fulfilled ∨
    d.kind = .equal ∧ ∃ v, K.has ⟨.equal, v, d.left⟩ ∧ K.has ⟨.equal, v, d.right⟩

section

variable (hK : K.Settles V rs) (hV : ∀ {x}, V x → Value.firstFreeId ≤ x)

include hK hV

theorem Settles.holds {a : Nat → Int} (hlt : ∀ {x y}, K.Bounds true x y → a x < a y)
    (hle : ∀ {x y}, K.Bounds false x y → a x ≤ a y) :
    ∀ k ∈ K.toList, k.Holds fun id => .int (a id) := by
  intro k hk
  exact (hK.ordering k hk).holds hV (fun h => hlt (bounds_of_mem hk h))
    fun h => hle (bounds_of_mem hk h)

/-- A bound on which all solutions agree is known. -/
theorem Settles.bounds_of_forall (h : ∀ a : Nat → Int, (∀ r ∈ rs, r.Holds fun id => .int (a id)) →
    if c then a x < a y else a x ≤ a y) : K.Bounds c x y := by
  by_contra hnot
  obtain ⟨a, hlt, hle, hbreaks⟩ := hK.closed.exists_solution_not hnot
  apply hbreaks
  apply h
  intro r hr
  obtain ⟨k, hk, hkr⟩ := has_iff.1 (hK.known r hr)
  exact (Relation.holds_congr hkr).1 (hK.holds hV hlt hle k hk)

theorem Settles.resolve_of_implies {k : Relation} (hk : k ∈ K.toList) (hd : d.IsOrdering V)
    (hrefl : ¬ d.isReflexive) (h : k.implies d = .fulfilled) : d.resolve K = .fulfilled := by
  obtain ⟨a, hlt, hle, _⟩ := hK.closed.exists_solution
  obtain ⟨g, hg⟩ := hd.exists_admits
  exact Relation.resolve_eq_fulfilled (hK.holds hV hlt hle) hrefl hg hk h

theorem Settles.confirms_of_bounds (hx : V x) (hy : V y) (h : K.Bounds false x y) :
    K.Confirms ⟨.greaterOrEqual, .simple y, .simple x⟩ := by
  by_cases hne : x = y
  · rw [hne]
    exact .inl (Relation.resolve_self (.inr rfl) _)
  obtain ⟨k, hk, hxy⟩ := h.exists_orders hne
  have hrefl := Relation.Orders.greaterOrEqual.not_isReflexive hne
  exact .inl (hK.resolve_of_implies hV hk (.greaterOrEqual hy hx) hrefl (hxy.implies_bound hne))

theorem Settles.confirms_of_strict (hx : V x) (hy : V y) (h : K.Bounds true x y) :
    K.Confirms ⟨.lessThan, .simple x, .simple y⟩ := by
  have hne : x ≠ y := by
    rintro rfl
    exact hK.closed.irrefl h
  obtain ⟨k, hk, hxy⟩ := h.exists_orders hne
  cases hxy
  have hrefl := (@Relation.Orders.less true x y).not_isReflexive hne
  have himplies : Relation.implies ⟨.lessThan, .simple x, .simple y⟩
      ⟨.lessThan, .simple x, .simple y⟩ = .fulfilled := if_pos (Setoid.refl _)
  exact .inl (hK.resolve_of_implies hV hk (.less hx hy) hrefl himplies)

theorem Settles.confirms_of_equates (hx : V x) (hy : V y) (h : K.Equates x y) :
    K.Confirms ⟨.equal, .simple x, .simple y⟩ := by
  rcases h with rfl | h
  · exact .inl (Relation.resolve_self (.inl rfl) _)
  by_cases hne : x = y
  · rw [hne]
    exact .inl (Relation.resolve_self (.inl rfl) _)
  obtain ⟨k, hk, hxy⟩ := has_iff.1 h
  have hrefl := Relation.Orders.equal.not_isReflexive hne
  exact .inl (hK.resolve_of_implies hV hk (.equal hx hy) hrefl (if_pos hxy))

/-- Values that have to be equal are linked, by one equality or by two. -/
theorem Settles.confirms_of_ties (hlinked : K.Ties x y → ∃ z, K.Equates z x ∧ K.Equates z y)
    (hx : V x) (hy : V y) (h : K.Ties x y) : K.Confirms ⟨.equal, .simple x, .simple y⟩ := by
  obtain ⟨z, hzx, hzy⟩ := hlinked h
  rcases hzx with rfl | hzx
  · exact hK.confirms_of_equates hV hx hy hzy
  rcases hzy with rfl | hzy
  · exact hK.confirms_of_equates hV hx hy (Equates.symm (.inr hzx))
  · exact .inr ⟨rfl, .simple z, hzx, hzy⟩

theorem Settles.confirms_of_entails
    (hlinked : ∀ {x y}, K.Ties x y → ∃ z, K.Equates z x ∧ K.Equates z y) (hd : d.IsOrdering V)
    (h : Entails rs d) : K.Confirms d := by
  cases hd with
  | @less x y hx hy =>
    refine hK.confirms_of_strict hV hx hy (hK.bounds_of_forall hV fun a ha => ?_)
    simpa [Relation.Kind.decide?] using (Relation.holds_simple (hV hx) (hV hy)).1 (h a ha)
  | @greaterOrEqual y x hy hx =>
    refine hK.confirms_of_bounds hV hx hy (hK.bounds_of_forall hV fun a ha => ?_)
    simpa [Relation.Kind.decide?] using (Relation.holds_simple (hV hy) (hV hx)).1 (h a ha)
  | @equal x y hx hy =>
    have heq (a : Nat → Int) (ha : ∀ r ∈ rs, r.Holds fun id => .int (a id)) : a x = a y := by
      simpa [Relation.Kind.decide?] using (Relation.holds_simple (hV hx) (hV hy)).1 (h a ha)
    have hties : K.Ties x y := ⟨hK.bounds_of_forall hV fun a ha => (heq a ha).le,
      hK.bounds_of_forall hV fun a ha => (heq a ha).ge⟩
    exact hK.confirms_of_ties hV hlinked hx hy hties

theorem Settles.entails_of_confirms (hd : d.IsOrdering V) (h : K.Confirms d) : Entails rs d := by
  intro a ha
  have hknown := hK.follows ha
  rcases h with h | ⟨hkind, v, hl, hr⟩
  · by_cases hrefl : d.isReflexive
    · exact Relation.holds_of_isReflexive hd hV hrefl h
    · obtain ⟨g, hg⟩ := hd.exists_admits
      exact Relation.holds_of_resolve hknown hrefl hg h
  · have heval {w : Value} (hw : K.has ⟨.equal, v, w⟩) : w.eval (fun id => .int (a id)) =
        v.eval fun id => .int (a id) := by
      obtain ⟨k, hk, hkw⟩ := has_iff.1 hw
      obtain ⟨i, hv, hw⟩ := Relation.eval_operand rfl ((Relation.holds_congr hkw).1 (hknown k hk))
      rw [hw, hv]
    obtain ⟨k, hk, hkw⟩ := has_iff.1 hl
    obtain ⟨i, hv, _⟩ := Relation.eval_operand rfl ((Relation.holds_congr hkw).1 (hknown k hk))
    cases hd with
    | less | greaterOrEqual => contradiction
    | equal => exact Relation.holds_of_eq ((heval hl).trans hv) ((heval hr).trans hv) rfl

end

theorem Gathered.settles {budget : Budget} (h : Gathered budget K rs)
    (hV : ∀ {x}, V x → Value.firstFreeId ≤ x) (hrs : ∀ r ∈ rs, r.IsOrdering V) :
    K.Settles V rs where
  ordering := h.forall_mem (fun hd hk he => (hd.deduce?_joins hk he).1) hrs
  closed := (h.coherent hV fun r hr => .ordering (hrs r hr)).closed
  known := h.has
  follows hρ := h.forall_mem Relation.deduce?_holds hρ

end Relations

namespace Relation

variable {s : State} {rs : List Relation} {budget : Budget}

/-- After ordering relations between values about which nothing is known have been assumed, the
known relations confirm exactly those that the assumed ones entail, and so all that follow from two
known ones. -/
theorem assumeAll_confirms (hrelations : s.relations = ∅) (hrs : ∀ r ∈ rs, r.IsOrdering s.Open)
    (hbudget : ∀ used iterations,
      assumeAll rs budget [s] ≠ .error (.relationsExceeded used iterations)) :
    ∃ states, assumeAll rs budget [s] = .ok states ∧ ∀ t ∈ states,
      (∀ d, d.IsOrdering s.Open → (t.relations.Confirms d ↔ Entails rs d)) ∧
      ∀ r ∈ t.relations.toList, ∀ k ∈ t.relations.toList, ∀ d,
        r.deduce? k = some d → t.relations.Confirms d := by
  have hbetween : ∀ r ∈ rs, r.Between s.Open := fun r hr => (hrs r hr).between
  have hopen := assumeAll_of_open hrelations hbetween hbudget rs.length
  rw [List.take_length] at hopen
  rcases hopen with ⟨h, _⟩ | ⟨K, h, hgathered⟩
  · exact ⟨[], h, List.forall_mem_nil _⟩
  have hV {x : Nat} : s.Open x → Value.firstFreeId ≤ x := State.Open.firstFreeId_le
  have hK := hgathered.settles hV hrs
  have hcoherent := hgathered.coherent hV fun r hr => .ordering (hrs r hr)
  have hiff (d : Relation) (hd : d.IsOrdering s.Open) : K.Confirms d ↔ Entails rs d :=
    ⟨hK.entails_of_confirms hV hd, hK.confirms_of_entails hV hcoherent.linked hd⟩
  refine ⟨_, h, List.forall_mem_singleton.2 ⟨hiff, fun r hr k hk d hd => ?_⟩⟩
  have hordering := ((hK.ordering r hr).deduce?_joins (hK.ordering k hk) hd).1
  refine (hiff d hordering).2 fun a ha => ?_
  exact deduce?_holds (hK.follows ha r hr) (hK.follows ha k hk) hd

/-- Two values between a lower and an upper one, and then these two the other way round. -/
def squeeze : List Relation := [
  ⟨.greaterOrEqual, .simple 3, .simple 5⟩, ⟨.greaterOrEqual, .simple 4, .simple 5⟩,
  ⟨.greaterOrEqual, .simple 6, .simple 3⟩, ⟨.greaterOrEqual, .simple 6, .simple 4⟩,
  ⟨.greaterOrEqual, .simple 5, .simple 6⟩]

theorem squeeze_ordering : ∀ r ∈ squeeze, r.IsOrdering State.corners.Open := by
  simp only [squeeze, List.forall_mem_cons]
  refine ⟨.greaterOrEqual ?_ ?_, .greaterOrEqual ?_ ?_, .greaterOrEqual ?_ ?_,
    .greaterOrEqual ?_ ?_, .greaterOrEqual ?_ ?_, List.forall_mem_nil _⟩ <;>
    exact State.corners_open (by decide)

theorem assumeAll_confirms_squeeze :
    State.corners.relations = ∅ ∧ (∀ r ∈ squeeze, r.IsOrdering State.corners.Open) ∧
      Entails squeeze ⟨.equal, .simple 3, .simple 4⟩ ∧
      ∃ states, assumeAll squeeze {} [State.corners] = .ok states ∧ states.length = 1 ∧
        ∀ t ∈ states, t.relations.Confirms ⟨.equal, .simple 3, .simple 4⟩ := by
  have hone : (assumeAll squeeze {} [State.corners]).toOption.map List.length = some 1 := by
    decide +kernel
  have hok : (assumeAll squeeze {} [State.corners]).isOk := by decide +kernel
  have hentails : Entails squeeze ⟨.equal, .simple 3, .simple 4⟩ := by
    intro a ha
    simp [squeeze, Holds, toValue, Value.eval, Valuation.read, Datum.int?, Kind.decide?] at ha
    simp [Holds, toValue, Value.eval, Valuation.read, Datum.int?, Kind.decide?]
    omega
  obtain ⟨states, hstates, hall⟩ :=
    assumeAll_confirms rfl squeeze_ordering fun _ _ => ne_error_of_isOk hok _
  rw [hstates] at hone
  refine ⟨rfl, squeeze_ordering, hentails, states, hstates, Option.some.inj hone, fun t ht => ?_⟩
  have hequal : IsOrdering State.corners.Open ⟨.equal, .simple 3, .simple 4⟩ :=
    .equal (State.corners_open (by decide)) (State.corners_open (by decide))
  exact ((hall t ht).1 _ hequal).2 hentails

/-- The bounds between the two middle values are known both ways, and their equality is not. -/
theorem squeeze_leaves_undetermined :
    deduce? ⟨.greaterOrEqual, .simple 3, .simple 4⟩ ⟨.greaterOrEqual, .simple 4, .simple 3⟩ =
        some ⟨.equal, .simple 3, .simple 4⟩ ∧
      ∃ t, assumeAll squeeze {} [State.corners] = .ok [t] ∧
        ⟨.greaterOrEqual, .simple 3, .simple 4⟩ ∈ t.relations.toList ∧
        ⟨.greaterOrEqual, .simple 4, .simple 3⟩ ∈ t.relations.toList ∧
        t.relations.has ⟨.equal, .simple 3, .simple 4⟩ = false ∧
        t.resolve ⟨.equal, .simple 3, .simple 4⟩ = .undetermined := by
  have hone : (assumeAll squeeze {} [State.corners]).toOption.any fun states =>
      states.length == 1 && states.all fun t => decide
        (⟨.greaterOrEqual, .simple 3, .simple 4⟩ ∈ t.relations.toList ∧
          ⟨.greaterOrEqual, .simple 4, .simple 3⟩ ∈ t.relations.toList ∧
          t.relations.has ⟨.equal, .simple 3, .simple 4⟩ = false ∧
          t.resolve ⟨.equal, .simple 3, .simple 4⟩ = .undetermined) := by decide +kernel
  refine ⟨deduce?_opposite (by decide), ?_⟩
  cases h : assumeAll squeeze {} [State.corners] with
  | error f =>
    rw [h] at hone
    contradiction
  | ok states =>
    rw [h] at hone
    simp only [Except.toOption, Option.any_some, Bool.and_eq_true, beq_iff_eq] at hone
    obtain ⟨t, rfl⟩ := List.length_eq_one_iff.1 hone.1
    exact ⟨t, rfl, by simpa using hone.2⟩

end Relation

end Pathwise
