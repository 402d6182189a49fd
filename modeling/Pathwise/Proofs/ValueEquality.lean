import Mathlib.Logic.Relation
import Pathwise.Proofs.Gathered
import Pathwise.Proofs.Interpretation
import Pathwise.Proofs.Orders

namespace Pathwise

namespace Relation

variable {α : Type*} {I : Interpretation α} {rs : List Relation} {r s e : Relation} {x y z : Nat}
  {V : Nat → Prop}

/-- The ids are tied to each other by equalities of either kind. -/
def Linked (rs : List Relation) : Nat → Nat → Prop :=
  Relation.EqvGen fun x y => ∃ k : Kind, k.isEquality ∧ ⟨k, .simple x, .simple y⟩ ∈ rs

theorem linked_of_mem {k : Kind} (hk : k.isEquality) (h : ⟨k, .simple x, .simple y⟩ ∈ rs) :
    Linked rs x y :=
  .rel x y ⟨k, hk, h⟩

theorem Linked.equals (hrs : ∀ r ∈ rs, r.HoldsIn I) (h : Linked rs x y) :
    I.equals (I.object (.simple x)) (I.object (.simple y)) := by
  induction h with
  | rel x y h =>
    obtain ⟨k, hk, hmem⟩ := h
    have h := hrs _ hmem
    cases k with
    | equal => exact Interpretation.equals_of_eq h
    | valueEqual => exact h
    | _ => contradiction
  | refl x => exact I.equivalence.refl _
  | symm x y _ ih => exact I.equivalence.symm ih
  | trans x y z _ _ ih ih' => exact I.equivalence.trans ih ih'

/-- What is linked to the two sides of a difference is different, unless it is the same id. -/
def Separates (I : Interpretation α) (rs : List Relation) : Prop :=
  ∀ ⦃a b x y⦄, ⟨.notEqual, .simple a, .simple b⟩ ∈ rs → Linked rs a x → Linked rs b y → x ≠ y →
    I.object (.simple x) ≠ I.object (.simple y)

/-- Relations that deduction can come to from `rs`: those that hold, equalities only between linked
values, and differences of whatever is linked to the two sides of one. -/
inductive Derived (I : Interpretation α) (rs : List Relation) : Relation → Prop
  | equal {x y : Nat} (h : I.object (.simple x) = I.object (.simple y)) (hlinked : Linked rs x y) :
    Derived I rs ⟨.equal, .simple x, .simple y⟩
  | notEqual {a b x y : Nat} (h : ⟨.notEqual, .simple a, .simple b⟩ ∈ rs) (hx : Linked rs a x)
      (hy : Linked rs b y) (hne : x ≠ y) : Derived I rs ⟨.notEqual, .simple x, .simple y⟩
  | valueEqual {x y : Nat} (h : I.equals (I.object (.simple x)) (I.object (.simple y)))
      (hlinked : Linked rs x y) : Derived I rs ⟨.valueEqual, .simple x, .simple y⟩
  | valueNotEqual {x y : Nat} (h : ¬ I.equals (I.object (.simple x)) (I.object (.simple y))) :
    Derived I rs ⟨.valueNotEqual, .simple x, .simple y⟩

theorem Derived.holdsIn (hseparates : Separates I rs) (h : Derived I rs r) : r.HoldsIn I := by
  cases h with
  | equal h _ => exact h
  | notEqual h hx hy hne => exact hseparates h hx hy hne
  | valueEqual h _ => exact h
  | valueNotEqual h => exact h

theorem derived_of_mem (hbetween : r.Between V) (hr : r.HoldsIn I) (h : r ∈ rs) :
    Derived I rs r := by
  obtain @⟨k, x, y, _, _⟩ := hbetween
  cases k with
  | equal => exact .equal hr (linked_of_mem rfl h)
  | notEqual =>
    refine .notEqual h (.refl x) (.refl y) ?_
    rintro rfl
    exact hr rfl
  | valueEqual => exact .valueEqual hr (linked_of_mem rfl h)
  | valueNotEqual => exact .valueNotEqual hr
  | greaterOrEqual | lessThan => exact hr.elim

structure Exchanges (I : Interpretation α) (rs : List Relation) (k : Kind) (x y : Nat) : Prop where
  linked : Linked rs x y
  equals : I.equals (I.object (.simple x)) (I.object (.simple y))
  same : k = .equal → I.object (.simple x) = I.object (.simple y)

theorem Exchanges.symm {k : Kind} (h : Exchanges I rs k x y) : Exchanges I rs k y x :=
  ⟨h.linked.symm, I.equivalence.symm h.equals, fun hk => (h.same hk).symm⟩

theorem Derived.replace_left {k : Kind} (h : Derived I rs ⟨k, .simple x, .simple z⟩)
    (hxy : Exchanges I rs k x y) (hne : y ≠ z) : Derived I rs ⟨k, .simple y, .simple z⟩ := by
  cases h with
  | equal h hlinked =>
    exact .equal ((hxy.same rfl).symm.trans h) (hxy.linked.symm.trans _ _ _ hlinked)
  | notEqual h hx hz _ => exact .notEqual h (hx.trans _ _ _ hxy.linked) hz hne
  | valueEqual h hlinked =>
    exact .valueEqual (I.equivalence.trans hxy.symm.equals h) (hxy.linked.symm.trans _ _ _ hlinked)
  | valueNotEqual h => exact .valueNotEqual fun hyz => h (I.equivalence.trans hxy.equals hyz)

theorem Derived.replace_right {k : Kind} (h : Derived I rs ⟨k, .simple z, .simple x⟩)
    (hxy : Exchanges I rs k x y) (hne : y ≠ z) : Derived I rs ⟨k, .simple z, .simple y⟩ := by
  cases h with
  | equal h hlinked => exact .equal (h.trans (hxy.same rfl)) (hlinked.trans _ _ _ hxy.linked)
  | notEqual h hz hx _ => exact .notEqual h hz (hx.trans _ _ _ hxy.linked) hne.symm
  | valueEqual h hlinked =>
    exact .valueEqual (I.equivalence.trans h hxy.equals) (hlinked.trans _ _ _ hxy.linked)
  | valueNotEqual h => exact .valueNotEqual fun hzy => h (I.equivalence.trans hzy hxy.symm.equals)

theorem Derived.substitute {j k : Kind} {a b p q : Nat}
    (hoverlap : overlaps ⟨j, .simple a, .simple b⟩ ⟨k, .simple p, .simple q⟩)
    (hab : Exchanges I rs k a b) (h : Derived I rs ⟨k, .simple p, .simple q⟩) :
    Derived I rs (Relation.substitute ⟨j, .simple a, .simple b⟩ ⟨k, .simple p, .simple q⟩) := by
  obtain ⟨c, hcp, hcq, ⟨hside, hc⟩ | ⟨hside, hc⟩⟩ := substitute_simple hoverlap
  · rw [hc]
    rcases hside with ⟨rfl, rfl⟩ | ⟨rfl, rfl⟩
    · exact h.replace_left hab hcq
    · exact h.replace_left hab.symm hcq
  · rw [hc]
    rcases hside with ⟨rfl, rfl⟩ | ⟨rfl, rfl⟩
    · exact h.replace_right hab hcp
    · exact h.replace_right hab.symm hcp

theorem Derived.chain? (hr : Derived I rs r) (hs : Derived I rs s) (hoverlap : r.overlaps s)
    (h : r.chain? s = some e) : Derived I rs e := by
  cases hr with
  | equal heq hlinked =>
    cases h
    have hab (k : Kind) : Exchanges I rs k _ _ :=
      ⟨hlinked, Interpretation.equals_of_eq heq, fun _ => heq⟩
    cases hs with
    | equal h hs => exact .substitute hoverlap (hab _) (.equal h hs)
    | notEqual h hx hy hne => exact .substitute hoverlap (hab _) (.notEqual h hx hy hne)
    | valueEqual h hs => exact .substitute hoverlap (hab _) (.valueEqual h hs)
    | valueNotEqual h => exact .substitute hoverlap (hab _) (.valueNotEqual h)
  | valueEqual hequals hlinked =>
    cases hs with
    | equal => contradiction
    | notEqual h' hx hy hne =>
      cases h
      exact .substitute hoverlap ⟨hlinked, hequals, nofun⟩ (.notEqual h' hx hy hne)
    | valueEqual h' hs =>
      cases h
      exact .substitute hoverlap ⟨hlinked, hequals, nofun⟩ (.valueEqual h' hs)
    | valueNotEqual h' =>
      cases h
      exact .substitute hoverlap ⟨hlinked, hequals, nofun⟩ (.valueNotEqual h')
  | notEqual | valueNotEqual => cases hs <;> contradiction

theorem Derived.deduce? (hr : Derived I rs r) (hs : Derived I rs s) (h : r.deduce? s = some e) :
    Derived I rs e := by
  rcases deduce?_cases h with h | ⟨hoverlap, h⟩ | ⟨hoverlap, h⟩
  · obtain ⟨⟨hk, _⟩, _⟩ := Option.ite_some_none_eq_some.1 h
    cases hr <;> contradiction
  · exact hr.chain? hs hoverlap h
  · exact hs.chain? hr hoverlap h

theorem not_refused {budget : Budget} (hseparates : Separates I rs) {ps : List Relation}
    (hps : ∀ p ∈ ps, Derived I rs p) : ¬ Relations.Refused budget ps := by
  rintro ⟨qs, r, K, hpre, hK, found, hfound, i, hi, hunfulfilled⟩
  have hmem : ∀ q ∈ qs ++ [r], Derived I rs q := fun q hq => hps q (hpre.subset hq)
  rw [List.forall_mem_append, List.forall_mem_singleton] at hmem
  have hknown := hK.forall_mem Derived.deduce? hmem.1
  have hi : Derived I rs i :=
    closure_insert_induction hfound hmem.2 (fun hd hk => hd.deduce? (hknown _ hk)) i hi
  have hholds : ∀ k ∈ K.toList, k.HoldsIn I := fun k hk => (hknown k hk).holdsIn hseparates
  exact HoldsIn.resolve_ne hholds (hi.holdsIn hseparates) hunfulfilled

/-- Assuming relations that are true of objects, where differences set apart all that is linked to
their two sides, is never refused, and all that gets known is true of the objects. -/
theorem assumeAll_holdsIn {s : State} {budget : Budget} (hrelations : s.relations = ∅)
    (hopen : ∀ r ∈ rs, r.Between s.Open) (hrs : ∀ r ∈ rs, r.HoldsIn I)
    (hseparates : Separates I rs)
    (hbudget : ∀ used iterations,
      assumeAll rs budget [s] ≠ .error (.relationsExceeded used iterations)) (i : Nat) :
    ∃ t, assumeAll (rs.take i) budget [s] = .ok [t] ∧ ∀ k ∈ t.relations.toList, k.HoldsIn I := by
  have hderived : ∀ r ∈ rs.take i, Derived I rs r := by
    intro r hr
    have hmem := List.mem_of_mem_take hr
    exact derived_of_mem (hopen r hmem) (hrs r hmem) hmem
  rcases assumeAll_of_open hrelations hopen hbudget i with ⟨_, hrefused⟩ | ⟨K, h, hK⟩
  · exact absurd hrefused (not_refused hseparates hderived)
  · have hknown := hK.forall_mem Derived.deduce? hderived
    exact ⟨_, h, fun k hk => (hknown k hk).holdsIn hseparates⟩

/-- Differences of objects that are not even equal in value set apart all that is linked to them. -/
theorem separates_of_not_equals (hrs : ∀ r ∈ rs, r.HoldsIn I)
    (h : ∀ ⦃a b⦄, ⟨.notEqual, .simple a, .simple b⟩ ∈ rs →
      ¬ I.equals (I.object (.simple a)) (I.object (.simple b))) : Separates I rs := by
  intro a b x y hab hx hy _ heq
  have hay : I.equals (I.object (.simple a)) (I.object (.simple y)) := heq ▸ hx.equals hrs
  apply h hab
  exact I.equivalence.trans hay (I.equivalence.symm (hy.equals hrs))

end Relation

def Interpretation.addressed (object : Nat → Nat × Nat) : Interpretation (Nat × Nat) where
  object v :=
    match v with
    | .simple id => object id
    | _ => (0, 0)
  congr {v w} h := by
    cases w with
    | simple id => rw [Value.equiv_simple.1 h]
    | _ =>
      cases v with
      | simple id => cases Value.equiv_simple.1 (Setoid.symm h)
      | _ => rfl
  equals a b := a.1 = b.1
  equivalence := ⟨fun _ => rfl, Eq.symm, Eq.trans⟩

namespace Relation

def copies : List Relation := [
  ⟨.valueEqual, .simple 3, .simple 4⟩, ⟨.notEqual, .simple 4, .simple 5⟩,
  ⟨.equal, .simple 5, .simple 6⟩, ⟨.valueNotEqual, .simple 3, .simple 6⟩]

theorem assumeAll_holdsIn_copies :
    ∃ I : Interpretation (Nat × Nat), I.object (.simple 3) ≠ I.object (.simple 4) ∧
      (∀ r ∈ copies, r.HoldsIn I) ∧ Separates I copies ∧
        ∃ t, assumeAll copies {} [State.corners] = .ok [t] ∧
          ∀ k ∈ t.relations.toList, k.HoldsIn I := by
  let I := Interpretation.addressed fun
    | 3 => (0, 0)
    | 4 => (0, 1)
    | _ => (1, 0)
  have hopen : ∀ r ∈ copies, r.Between State.corners.Open := by
    simp only [copies, List.forall_mem_cons]
    refine ⟨.intro ?_ ?_, .intro ?_ ?_, .intro ?_ ?_, .intro ?_ ?_, nofun⟩ <;>
      exact State.corners_open (by decide)
  have hrs : ∀ r ∈ copies, r.HoldsIn I := by
    simp only [copies, List.forall_mem_cons]
    simp [HoldsIn, Interpretation.Relates, Interpretation.addressed, I]
  have hseparates : Separates I copies := by
    apply separates_of_not_equals hrs
    intro a b h
    simp only [copies, List.mem_cons, Relation.mk.injEq, Value.simple.injEq] at h
    rcases h with h | ⟨_, rfl, rfl⟩ | h | h | h
    · simp at h
    · simp [Interpretation.addressed, I]
    all_goals simp at h
  have hok : (assumeAll copies {} [State.corners]).isOk := by decide +kernel
  exact ⟨I, by simp [Interpretation.addressed, I], hrs, hseparates,
    assumeAll_holdsIn rfl hopen hrs hseparates (fun _ _ => ne_error_of_isOk hok _) 4⟩

/-- A value that is equal to a second one, which is not the same as a third, while the third is the
first. -/
def relabelled : List Relation := [
  ⟨.valueEqual, .simple 3, .simple 4⟩, ⟨.notEqual, .simple 4, .simple 5⟩,
  ⟨.equal, .simple 3, .simple 5⟩]

/-- Objects at two addresses satisfy relations that cannot be assumed: from equality in value and
another identity, a difference of identities is deduced. -/
theorem assumeAll_refuses_relabelled :
    (∃ I : Interpretation (Nat × Nat), ∀ r ∈ relabelled, r.HoldsIn I) ∧
      (∀ r ∈ relabelled, r.Between State.corners.Open) ∧
      assumeAll relabelled {} [State.corners] = .ok [] := by
  refine ⟨⟨Interpretation.addressed fun id => (0, if id = 4 then 1 else 0), ?_⟩, ?_,
    eq_ok_of_toOption (by decide +kernel)⟩
  · simp only [relabelled, List.forall_mem_cons]
    simp [HoldsIn, Interpretation.Relates, Interpretation.addressed]
  · simp only [relabelled, List.forall_mem_cons]
    refine ⟨.intro ?_ ?_, .intro ?_ ?_, .intro ?_ ?_, List.forall_mem_nil _⟩ <;>
      exact State.corners_open (by decide)

end Relation

end Pathwise
