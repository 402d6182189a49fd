import Pathwise.Keyed.Lemmas
import Pathwise.State

namespace Pathwise.State

variable {s t : State} {v w : Value} {c : Constraint} {d e : Domain} {held : ConstraintSet}

theorem value?_put (s : State) (var name : String) (v : Value) :
    (s.put var v).value? name = if name = var then some v else s.value? name := by
  have hkey : compare var name = .eq ↔ name = var := by
    rw [Std.LawfulEqCmp.compare_eq_iff_eq, eq_comm]
  simp only [value?, put, Keyed.find?_insert, hkey]
  split <;> rfl

theorem constraintsOf?_eq_some :
    s.constraintsOf? v = some held ↔ ∃ e ∈ s.constraints.toList, e.1 ≈ v ∧ e.2 = held := by
  simp only [constraintsOf?, Option.map_eq_some_iff, Keyed.find?_eq_some_iff,
    Std.LawfulEqCmp.compare_eq_iff_eq, Value.toClass_eq_iff, and_assoc]

theorem constraintsOf?_insert :
    State.constraintsOf? { s with constraints := s.constraints.insert (v, held) } w =
      if v ≈ w then some held else s.constraintsOf? w := by
  simp only [constraintsOf?, Keyed.find?_insert, Std.LawfulEqCmp.compare_eq_iff_eq,
    Value.toClass_eq_iff]
  split <;> rfl

theorem constraintsOf?_erase :
    State.constraintsOf? { s with constraints := s.constraints.erase v.toClass } w =
      if v ≈ w then none else s.constraintsOf? w := by
  simp only [constraintsOf?, Keyed.find?_erase, Std.LawfulEqCmp.compare_eq_iff_eq,
    Value.toClass_eq_iff]
  split <;> rfl

theorem constraintsOf?_congr (h : v ≈ w) : s.constraintsOf? v = s.constraintsOf? w := by
  rw [constraintsOf?, constraintsOf?, Value.toClass_eq_iff.2 h]

theorem constraint?_congr (h : v ≈ w) (d : Domain) : s.constraint? v d = s.constraint? w d := by
  rw [constraint?, constraint?, constraintsOf?_congr h]

theorem mem_held (h : s.constraintsOf? v = some held) (hc : c ∈ held.toList) :
    s.constraint? v c.domain = some c := by
  rw [constraint?, h]
  exact Keyed.mem_toList_iff.1 hc

theorem constraint?_domain (h : s.constraint? v d = some c) : c.domain = d := by
  obtain ⟨held, _, hget⟩ := Option.bind_eq_some_iff.1 h
  exact Std.LawfulEqCmp.compare_eq_iff_eq.1 (Keyed.find?_eq_some_iff.1 hget).2

theorem getD_get? :
    ((s.constraintsOf? v).getD ∅).get? d = s.constraint? v d := by
  cases h : s.constraintsOf? v with
  | none => rw [constraint?, h]; rfl
  | some held => rw [constraint?, h]; rfl

theorem exists_constrain? (h : ∀ c', s.constraint? v c.domain = some c' → c' = c) :
    ∃ t, s.constrain? v c = some t := by
  unfold constrain?
  simp only [getD_get?]
  cases hheld : s.constraint? v c.domain with
  | none => exact ⟨_, rfl⟩
  | some c' => exact ⟨s, if_pos (h c' hheld)⟩

theorem constraint?_of_constrain? (h : s.constrain? v c = some t) (w : Value) (d : Domain) :
    t.constraint? w d = if v ≈ w ∧ c.domain = d then some c else s.constraint? w d := by
  unfold constrain? at h
  simp only [getD_get?] at h
  cases hheld : s.constraint? v c.domain with
  | some c' =>
    rw [hheld] at h
    obtain ⟨rfl, rfl⟩ := Option.ite_some_none_eq_some.1 h
    split
    next heq =>
      obtain ⟨hvw, rfl⟩ := heq
      rw [← constraint?_congr hvw, hheld]
    next => rfl
  | none =>
    rw [hheld] at h
    cases h
    rw [constraint?, constraintsOf?_insert]
    by_cases hvw : v ≈ w
    · rw [if_pos hvw, Option.bind_some, ConstraintSet.get?, Keyed.find?_insert]
      simp only [hvw, true_and, Std.LawfulEqCmp.compare_eq_iff_eq]
      rw [← constraint?_congr hvw, ← getD_get?]
      rfl
    · rw [if_neg hvw, if_neg fun h => hvw h.1]
      rfl

theorem find?_of_constrain? (h : s.constrain? v c = some t) (hw : ¬ v ≈ w) :
    t.constraints.find? w.toClass = s.constraints.find? w.toClass := by
  unfold constrain? at h
  dsimp only at h
  split at h
  · obtain ⟨_, rfl⟩ := Option.ite_some_none_eq_some.1 h
    rfl
  · cases h
    rw [Keyed.find?_insert, if_neg]
    rw [Std.LawfulEqCmp.compare_eq_iff_eq, Value.toClass_eq_iff]
    exact hw

theorem relations_of_constrain? (h : s.constrain? v c = some t) : t.relations = s.relations := by
  unfold constrain? at h
  dsimp only at h
  split at h
  · obtain ⟨_, rfl⟩ := Option.ite_some_none_eq_some.1 h
    rfl
  · cases h
    rfl

theorem eq_of_constrain? (h : s.constrain? v c = some t) {c' : Constraint}
    (hc' : s.constraint? v c.domain = some c') : c' = c := by
  unfold constrain? at h
  simp only [getD_get?, hc'] at h
  exact (Option.ite_some_none_eq_some.1 h).1

/-- A constraint can be added to several values unless one of them holds a different one. -/
theorem foldlM_constrain? {vs : List Value} :
    (∃ t, vs.foldlM (fun s v => s.constrain? v c) s = some t) ↔
      ∀ v ∈ vs, ∀ c', s.constraint? v c.domain = some c' → c' = c := by
  induction vs generalizing s with
  | nil => exact ⟨fun _ => List.forall_mem_nil _, fun _ => ⟨s, rfl⟩⟩
  | cons v vs ih =>
    rw [List.foldlM_cons, List.forall_mem_cons]
    constructor
    · rintro ⟨t, h⟩
      obtain ⟨u, hu, h⟩ := Option.bind_eq_some_iff.1 h
      refine ⟨fun c' => eq_of_constrain? hu, fun w hw c' hc' => ?_⟩
      by_cases hvw : v ≈ w
      · exact eq_of_constrain? hu ((constraint?_congr hvw _).trans hc')
      · refine ih.1 ⟨t, h⟩ w hw c' ?_
        rw [constraint?_of_constrain? hu, if_neg fun h => hvw h.1, hc']
    · rintro ⟨hv, hvs⟩
      obtain ⟨u, hu⟩ := exists_constrain? hv
      rw [hu]
      refine ih.2 fun w hw c' hc' => ?_
      rw [constraint?_of_constrain? hu] at hc'
      split at hc'
      · exact (Option.some.inj hc').symm
      · exact hvs w hw c' hc'

theorem foldlM_constrain?_induction {I : State → Prop} {vs : List Value}
    (hstep : ∀ {s t v}, v ∈ vs → I s → s.constrain? v c = some t → I t) (hs : I s)
    (h : vs.foldlM (fun s v => s.constrain? v c) s = some t) : I t := by
  induction vs generalizing s with
  | nil =>
    cases h
    exact hs
  | cons v vs ih =>
    obtain ⟨u, hu, h⟩ := Option.bind_eq_some_iff.1 (List.foldlM_cons.symm.trans h)
    exact ih (fun hv => hstep (.tail _ hv)) (hstep (.head _) hs hu) h

theorem constraint?_of_foldlM {vs : List Value}
    (h : vs.foldlM (fun s v => s.constrain? v c) s = some t) (w : Value) (d : Domain) :
    t.constraint? w d = if (∃ v ∈ vs, v ≈ w) ∧ c.domain = d then some c else s.constraint? w d := by
  induction vs generalizing s with
  | nil =>
    cases h
    simp
  | cons v vs ih =>
    obtain ⟨u, hu, h⟩ := Option.bind_eq_some_iff.1 (List.foldlM_cons.symm.trans h)
    rw [ih h, constraint?_of_constrain? hu]
    simp only [List.mem_cons, exists_eq_or_imp]
    by_cases hd : c.domain = d
    · by_cases hv : v ≈ w
      · simp only [hd, hv, and_true, true_or, if_true, ite_self]
      · simp only [hd, hv, and_true, false_or, if_false]
    · simp only [hd, and_false, if_false]

theorem get?_of_isEmpty (h : held.isEmpty) (d : Domain) : held.get? d = none := by
  have hentries : held.entries = [] := List.isEmpty_iff.1 h
  rw [ConstraintSet.get?, Keyed.find?, hentries]
  rfl

theorem constraint?_release (s : State) (v w : Value) (d e : Domain) :
    (s.release v d).constraint? w e =
      if v ≈ w ∧ d = e then none else s.constraint? w e := by
  have hrest {held : ConstraintSet} : ConstraintSet.get? (held.erase d) e =
      if d = e then none else held.get? e := by
    rw [ConstraintSet.get?, Keyed.find?_erase]
    simp only [Std.LawfulEqCmp.compare_eq_iff_eq]
    rfl
  unfold release
  cases hheld : s.constraintsOf? v with
  | none =>
    by_cases hvw : v ≈ w
    · have hnone : s.constraint? w e = none := by
        rw [constraint?, ← constraintsOf?_congr hvw, hheld]
        rfl
      simp [hnone]
    · rw [if_neg fun h => hvw h.1]
  | some held =>
    have hget (hvw : v ≈ w) : s.constraint? w e = held.get? e := by
      rw [constraint?, ← constraintsOf?_congr hvw, hheld]
      rfl
    dsimp only
    split
    next hempty =>
      rw [constraint?, constraintsOf?_erase]
      by_cases hvw : v ≈ w
      · have hnone := get?_of_isEmpty hempty e
        rw [hrest] at hnone
        simp only [hvw, if_true, true_and, hget hvw, hnone]
        rfl
      · rw [if_neg hvw, if_neg fun h => hvw h.1]
        rfl
    next =>
      rw [constraint?, constraintsOf?_insert]
      by_cases hvw : v ≈ w
      · simp only [hvw, if_true, true_and, hget hvw, Option.bind_some, hrest]
      · rw [if_neg hvw, if_neg fun h => hvw h.1]
        rfl

theorem relations_release (s : State) (v : Value) (d : Domain) :
    (s.release v d).relations = s.relations := by
  unfold release
  split
  · rfl
  · dsimp only
    split <;> rfl

end Pathwise.State
