import Pathwise.Proofs.Closure
import Pathwise.Proofs.Valuation

namespace Pathwise.Relation

variable {ρ : Valuation}

theorem holds_of_lt {v w : Value} {a b : Int} (hv : v.eval ρ = some (.int a))
    (hw : w.eval ρ = some (.int b)) (h : a < b) : Holds ρ ⟨.lessThan, v, w⟩ :=
  holds_iff.2 ⟨a, b, hv, hw, by simpa [Kind.decide?] using h⟩

theorem holds_of_ge {v w : Value} {a b : Int} (hv : v.eval ρ = some (.int a))
    (hw : w.eval ρ = some (.int b)) (h : b ≤ a) : Holds ρ ⟨.greaterOrEqual, v, w⟩ :=
  holds_iff.2 ⟨a, b, hv, hw, by simpa [Kind.decide?] using h⟩

theorem holds_of_eq {v w : Value} {a b : Int} (hv : v.eval ρ = some (.int a))
    (hw : w.eval ρ = some (.int b)) (h : a = b) : Holds ρ ⟨.equal, v, w⟩ :=
  holds_iff.2 ⟨a, b, hv, hw, by simpa [Kind.decide?] using h⟩

theorem eval_operand {r : Relation} (hk : r.kind = .equal) (h : r.Holds ρ) :
    ∃ a, r.left.eval ρ = some (.int a) ∧ r.right.eval ρ = some (.int a) := by
  obtain ⟨a, b, hl, hr, hc⟩ := holds_iff.1 h
  rw [hk] at hc
  simp only [Kind.decide?, Option.some.injEq, decide_eq_true_iff] at hc
  exact ⟨a, hl, hc ▸ hr⟩

theorem substitute_holds {r s : Relation} (hk : r.kind = .equal)
    (hshare : r.hasOperand s.left ∨ r.hasOperand s.right) (hr : r.Holds ρ) (hs : s.Holds ρ) :
    (r.substitute s).Holds ρ := by
  obtain ⟨a, hl, hr⟩ := eval_operand hk hr
  have hoperand {v : Value} (h : r.hasOperand v) : v.eval ρ = some (.int a) := by
    rcases hasOperand_iff.1 h with h | h
    · rw [← Value.eval_congr h, hl]
    · rw [← Value.eval_congr h, hr]
  obtain ⟨b, c, hsl, hsr, hc⟩ := holds_iff.1 hs
  obtain ⟨v, hv, h⟩ := substitute_cases hshare
  have hv : v.eval ρ = some (.int a) := by
    rcases hv with rfl | rfl
    · exact hl
    · exact hr
  rcases h with ⟨hleft, h⟩ | ⟨hright, h⟩
  · cases hsl.symm.trans (hoperand hleft)
    rw [h]
    exact holds_iff.2 ⟨_, _, hv, hsr, hc⟩
  · cases hsr.symm.trans (hoperand hright)
    rw [h]
    exact holds_iff.2 ⟨_, _, hsl, hv, hc⟩

theorem chain?_holds {r s d : Relation} (hshare : r.hasOperand s.left ∨ r.hasOperand s.right)
    (hr : r.Holds ρ) (hs : s.Holds ρ) (h : r.chain? s = some d) : d.Holds ρ := by
  obtain ⟨a, b, hrl, hrr, hrk⟩ := holds_iff.1 hr
  obtain ⟨e, f, hsl, hsr, hsk⟩ := holds_iff.1 hs
  -- operands that are equivalent stand for the same integer
  have hjoin {v w : Value} {i j : Int} (hvw : v ≈ w) (hv : v.eval ρ = some (.int i))
      (hw : w.eval ρ = some (.int j)) : i = j := by
    cases hv.symm.trans ((Value.eval_congr hvw).trans hw)
    rfl
  unfold chain? at h
  split at h
  next => contradiction
  next hk =>
    cases h
    exact substitute_holds hk hshare hr hs
  next hk _ =>
    rw [hk] at hrk
    contradiction
  next hk hk' =>
    simp only [hk, hk', Kind.decide?, Option.some.injEq, decide_eq_true_iff] at hrk hsk
    split at h
    next hx =>
      cases h
      cases hjoin hx hrr hsl
      exact holds_of_lt hrl hsr (Int.lt_trans hrk hsk)
    next =>
      split at h
      next hx =>
        cases h
        cases hjoin hx hrl hsr
        exact holds_of_lt hsl hrr (Int.lt_trans hsk hrk)
      next => contradiction
  next hk hk' =>
    simp only [hk, hk', Kind.decide?, Option.some.injEq, decide_eq_true_iff] at hrk hsk
    split at h
    next hx =>
      cases h
      cases hjoin hx hrr hsr
      exact holds_of_lt hrl hsl (Int.lt_of_lt_of_le hrk hsk)
    next =>
      split at h
      next hx =>
        cases h
        cases hjoin hx hrl hsl
        exact holds_of_lt hsr hrr (Int.lt_of_le_of_lt hsk hrk)
      next => contradiction
  next hk hk' =>
    simp only [hk, hk', Kind.decide?, Option.some.injEq, decide_eq_true_iff] at hrk hsk
    split at h
    next hx =>
      cases h
      cases hjoin hx hrr hsl
      exact holds_of_ge hrl hsr (Int.le_trans hsk hrk)
    next => contradiction
  next => contradiction

theorem simplify?_holds {r s d : Relation} (hr : r.Holds ρ) (hs : s.Holds ρ)
    (h : r.simplify? s = some d) : d.Holds ρ := by
  obtain ⟨a, b, hrl, hrr, hrk⟩ := holds_iff.1 hr
  obtain ⟨e, f, hsl, hsr, hsk⟩ := holds_iff.1 hs
  unfold simplify? at h
  split at h
  next hcond =>
    obtain ⟨hk, hk', hsame, hne⟩ := hcond
    cases h
    simp only [hk, hk', Kind.decide?, Option.some.injEq, decide_eq_true_iff] at hrk hsk
    rcases sameOperands_iff.1 hsame with ⟨hl, hr⟩ | ⟨hl, hr⟩
    · refine absurd (toValue_equiv_iff.1 (Value.relational_equiv_iff.2 ⟨?_, .inl ⟨hl, hr⟩⟩)) hne
      rw [hk, hk']
    · rw [Value.eval_congr hl, hsr] at hrl
      rw [Value.eval_congr hr, hsl] at hrr
      cases hrl
      cases hrr
      exact holds_of_eq ((Value.eval_congr hl).trans hsr) ((Value.eval_congr hr).trans hsl)
        (Int.le_antisymm hsk hrk)
  next => contradiction

/-- What is deduced from two relations that hold, holds. -/
theorem deduce?_holds {r s d : Relation} (hr : r.Holds ρ) (hs : s.Holds ρ)
    (h : r.deduce? s = some d) : d.Holds ρ := by
  rcases deduce?_cases h with h | ⟨hoverlap, h⟩ | ⟨hoverlap, h⟩
  · exact simplify?_holds hr hs h
  · exact chain?_holds (overlaps_share hoverlap) hr hs h
  · exact chain?_holds (overlaps_share hoverlap) hs hr h

theorem Kind.decide?_eq_admits (k : Kind) (a b : Int) :
    k.decide? a b = k.admits?.map (· (compare a b)) := by
  cases k with
  | equal | notEqual | greaterOrEqual | lessThan =>
    simp only [decide?, admits?, Option.map_some, Option.some.injEq]
    grind [Int.compare_eq_ite_lt, Ordering.isGE, Ordering.isLT]
  | valueEqual | valueNotEqual => rfl

theorem Kind.resolve_of_admits {known checked : Kind} {f g : Ordering → Bool}
    (hf : known.admits? = some f) (hg : checked.admits? = some g) (swapped : Bool) {o : Ordering}
    (ho : f o) :
    (known.resolve checked swapped = .fulfilled → g (if swapped then o.swap else o)) ∧
      (known.resolve checked swapped = .unfulfilled → ¬ g (if swapped then o.swap else o)) := by
  have hmem : o ∈ [Ordering.lt, .eq, .gt].filter f := by
    cases o <;> simp [ho]
  simp only [resolve, hf, hg]
  by_cases hall : ([Ordering.lt, .eq, .gt].filter f).all fun o =>
      g (if swapped then o.swap else o)
  · rw [if_pos hall]
    exact ⟨fun _ => List.all_eq_true.1 hall o hmem, fun h => by contradiction⟩
  · rw [if_neg hall]
    by_cases hany : ([Ordering.lt, .eq, .gt].filter f).any fun o =>
        g (if swapped then o.swap else o)
    · rw [if_pos hany]
      exact ⟨fun h => by contradiction, fun h => by contradiction⟩
    · rw [if_neg hany]
      exact ⟨fun h => by contradiction, fun _ h => hany (List.any_eq_true.2 ⟨o, hmem, h⟩)⟩

theorem resolve_sameOperands {r c : Relation} {a b : Int} {f g : Ordering → Bool}
    (hr : r.Holds ρ) (hf : r.kind.admits? = some f) (hg : c.kind.admits? = some g)
    (hl : c.left.eval ρ = some (.int a)) (hr' : c.right.eval ρ = some (.int b))
    (hsame : r.sameOperands c) :
    (r.kind.resolve c.kind (!decide (r.left ≈ c.left)) = .fulfilled → c.Holds ρ) ∧
      (r.kind.resolve c.kind (!decide (r.left ≈ c.left)) = .unfulfilled → ¬ c.Holds ρ) := by
  obtain ⟨i, j, hrl, hrr, hrk⟩ := holds_iff.1 hr
  have hc : c.Holds ρ ↔ g (compare a b) := by
    rw [holds_iff]
    constructor
    · rintro ⟨a', b', hl', hr'', hd⟩
      cases hl.symm.trans hl'
      cases hr'.symm.trans hr''
      simpa [Kind.decide?_eq_admits, hg] using hd
    · intro h
      exact ⟨a, b, hl, hr', by simp [Kind.decide?_eq_admits, hg, h]⟩
  have ho : f (compare i j) := by simpa [Kind.decide?_eq_admits, hf] using hrk
  have hres := Kind.resolve_of_admits hf hg (!decide (r.left ≈ c.left)) ho
  have hcompare : (if !decide (r.left ≈ c.left) then (compare i j).swap else compare i j) =
      compare a b := by
    by_cases hleft : r.left ≈ c.left
    · have hright : r.right ≈ c.right := by
        rcases sameOperands_iff.1 hsame with ⟨_, h⟩ | ⟨h, h'⟩
        · exact h
        · exact Setoid.trans h' (Setoid.trans (Setoid.symm hleft) h)
      rw [Value.eval_congr hleft, hl] at hrl
      rw [Value.eval_congr hright, hr'] at hrr
      cases hrl
      cases hrr
      rw [decide_eq_true hleft]
      rfl
    · obtain ⟨h, h'⟩ := (sameOperands_iff.1 hsame).resolve_left fun h => hleft h.1
      rw [Value.eval_congr h, hr'] at hrl
      rw [Value.eval_congr h', hl] at hrr
      cases hrl
      cases hrr
      rw [decide_eq_false hleft]
      exact Int.compare_swap b a
  rw [hcompare] at hres
  rwa [hc]

theorem exists_admits {r : Relation} (h : r.Holds ρ) : ∃ f, r.kind.admits? = some f := by
  obtain ⟨a, b, _, _, hk⟩ := holds_iff.1 h
  rw [Kind.decide?_eq_admits] at hk
  obtain ⟨f, hf, _⟩ := Option.map_eq_some_iff.1 hk
  exact ⟨f, hf⟩

/-- A relation that holds rules out only relations that do not. -/
theorem not_holds_of_implies {r c : Relation} (hr : r.Holds ρ) (h : r.implies c = .unfulfilled) :
    ¬ c.Holds ρ := by
  intro hc
  obtain ⟨f, hf⟩ := exists_admits hr
  obtain ⟨g, hg⟩ := exists_admits hc
  obtain ⟨a, b, hl, hr', _⟩ := holds_iff.1 hc
  unfold implies at h
  split at h
  next => contradiction
  next =>
    split at h
    next hinv => exact not_holds_inverse hr ((holds_congr hinv).2 hc)
    next =>
      split at h
      next hsame => exact (resolve_sameOperands hr hf hg hl hr' hsame).2 h hc
      next => contradiction

theorem holds_of_implies {r c : Relation} {g : Ordering → Bool} (hr : r.Holds ρ)
    (hg : c.kind.admits? = some g) (h : r.implies c = .fulfilled) : c.Holds ρ := by
  obtain ⟨f, hf⟩ := exists_admits hr
  obtain ⟨i, j, hrl, hrr, _⟩ := holds_iff.1 hr
  unfold implies at h
  split at h
  next heq => exact (holds_congr heq).1 hr
  next =>
    split at h
    next => contradiction
    next =>
      split at h
      next hsame =>
        rcases sameOperands_iff.1 hsame with ⟨hl, hr'⟩ | ⟨hl, hr'⟩
        · rw [Value.eval_congr hl] at hrl
          rw [Value.eval_congr hr'] at hrr
          exact (resolve_sameOperands hr hf hg hrl hrr hsame).1 h
        · rw [Value.eval_congr hl] at hrl
          rw [Value.eval_congr hr'] at hrr
          exact (resolve_sameOperands hr hf hg hrr hrl hsame).1 h
      next => contradiction

theorem not_holds_of_isReflexive {r : Relation} (h : r.isReflexive)
    (hk : r.kind = .notEqual ∨ r.kind = .lessThan ∨ r.kind = .valueNotEqual) : ¬ r.Holds ρ := by
  intro hr
  obtain ⟨a, b, hl, hr, hd⟩ := holds_iff.1 hr
  rw [Value.eval_congr (of_decide_eq_true h), hr] at hl
  cases hl
  rcases hk with hk | hk | hk <;> simp [hk, Kind.decide?] at hd

/-- Relations that hold rule out only relations that do not. -/
theorem not_holds_of_resolve {r : Relation} {known : Relations}
    (hknown : ∀ s ∈ known.toList, s.Holds ρ) (h : r.resolve known = .unfulfilled) :
    ¬ r.Holds ρ := by
  by_cases hrefl : r.isReflexive
  · rw [resolve, if_pos hrefl] at h
    apply not_holds_of_isReflexive hrefl
    split at h
    · contradiction
    · contradiction
    · contradiction
    next hk => exact .inl hk
    next hk => exact .inr (.inl hk)
    next hk => exact .inr (.inr hk)
  · obtain ⟨s, hs, himp⟩ := exists_implies_of_resolve hrefl rfl h
    exact not_holds_of_implies (hknown s hs) himp

theorem exists_implies_eq_resolve {r s : Relation} {known : Relations} (hrefl : ¬ r.isReflexive)
    (hs : s ∈ known.toList) (h : (s.implies r).isDetermined) :
    ∃ k ∈ known.toList, k.implies r = r.resolve known ∧ (r.resolve known).isDetermined := by
  rw [resolve, if_neg hrefl]
  cases hfind : (known.toList.map fun s => s.implies r).find? Resolution.isDetermined with
  | none => exact absurd h (List.find?_eq_none.1 hfind _ (List.mem_map.2 ⟨s, hs, rfl⟩))
  | some answer =>
    obtain ⟨k, hk, hanswer⟩ := List.mem_map.1 (List.mem_of_find?_eq_some hfind)
    exact ⟨k, hk, hanswer, List.find?_some hfind⟩

/-- One known relation rules a comparison out as good as all, if it can hold together with those
that confirm the comparison. -/
theorem resolve_of_implies {r s : Relation} {known : Relations} {g : Ordering → Bool}
    (hknown : ∀ k ∈ known.toList, k.implies r = .fulfilled → k.Holds ρ) (hrefl : ¬ r.isReflexive)
    (hg : r.kind.admits? = some g) (hs : s ∈ known.toList) (hholds : s.Holds ρ)
    (h : s.implies r = .unfulfilled) : r.resolve known = .unfulfilled := by
  obtain ⟨k, hk, hanswer, hdetermined⟩ := exists_implies_eq_resolve hrefl hs (by rw [h]; rfl)
  cases hresolve : r.resolve known with
  | unfulfilled => rfl
  | undetermined =>
    rw [hresolve] at hdetermined
    contradiction
  | fulfilled =>
    replace hanswer := hanswer.trans hresolve
    have hr := holds_of_implies (hknown k hk hanswer) hg hanswer
    exact absurd hr (not_holds_of_implies hholds h)

end Pathwise.Relation
