import Pathwise.Keyed.Lemmas
import Pathwise.Relation.Closure

namespace Pathwise

namespace Relations

theorem has_iff {known : Relations} {r : Relation} :
    known.has r ↔ ∃ s ∈ known.toList, s ≈ r := by
  rw [has, Keyed.contains_iff]
  refine exists_congr fun s => and_congr_right fun _ => ?_
  rw [Std.LawfulEqCmp.compare_eq_iff_eq, Value.toClass_eq_iff, Relation.toValue_equiv_iff]

theorem has_of_mem {known : Relations} {r : Relation} (h : r ∈ known.toList) : known.has r :=
  has_iff.2 ⟨r, h, Setoid.refl r⟩

theorem has_congr {known : Relations} {r s : Relation} (h : r ≈ s) : known.has r ↔ known.has s := by
  rw [has_iff, has_iff]
  exact ⟨fun ⟨t, ht, hr⟩ => ⟨t, ht, Setoid.trans hr h⟩,
    fun ⟨t, ht, hs⟩ => ⟨t, ht, Setoid.trans hs (Setoid.symm h)⟩⟩

theorem mem_insert_self (known : Relations) (r : Relation) : r ∈ (known.insert r).toList :=
  Keyed.mem_insert_iff.2 (.inl rfl)

theorem mem_insert {known : Relations} {r s : Relation} (h : s ∈ (known.insert r).toList) :
    s = r ∨ s ∈ known.toList :=
  (Keyed.mem_insert_iff.1 h).imp_right And.left

theorem has_insert {known : Relations} {r s : Relation} :
    has (known.insert r) s ↔ r ≈ s ∨ known.has s := by
  rw [has, Keyed.contains_insert, Std.LawfulEqCmp.compare_eq_iff_eq, Value.toClass_eq_iff,
    Relation.toValue_equiv_iff, has]

end Relations

namespace Relation

theorem hasOperand_iff {r : Relation} {v : Value} :
    r.hasOperand v ↔ r.left ≈ v ∨ r.right ≈ v := by
  simp only [hasOperand, Bool.or_eq_true, decide_eq_true_iff]

theorem sameOperands_iff {r s : Relation} :
    r.sameOperands s ↔
      r.left ≈ s.left ∧ r.right ≈ s.right ∨ r.left ≈ s.right ∧ r.right ≈ s.left := by
  simp only [sameOperands, Bool.or_eq_true, Bool.and_eq_true, decide_eq_true_iff]

theorem overlaps_share {r s : Relation} (h : r.overlaps s) :
    r.hasOperand s.left ∨ r.hasOperand s.right := by
  simp only [overlaps, Bool.and_eq_true, Bool.or_eq_true] at h
  exact h.1.2

theorem hasOperand_symm {r s : Relation} (h : r.hasOperand s.left ∨ r.hasOperand s.right) :
    s.hasOperand r.left ∨ s.hasOperand r.right := by
  simp only [hasOperand_iff] at h ⊢
  rcases h with (h | h) | (h | h)
  · exact .inl (.inl (Setoid.symm h))
  · exact .inr (.inl (Setoid.symm h))
  · exact .inl (.inr (Setoid.symm h))
  · exact .inr (.inr (Setoid.symm h))

theorem overlaps_symm {r s : Relation} (h : r.overlaps s) : s.overlaps r := by
  simp only [overlaps, Bool.and_eq_true, Bool.or_eq_true, Bool.not_eq_true'] at h ⊢
  obtain ⟨⟨⟨hr, hs⟩, hshare⟩, hsame⟩ := h
  refine ⟨⟨⟨hs, hr⟩, hasOperand_symm hshare⟩, ?_⟩
  rw [← Bool.not_eq_true, sameOperands_iff] at hsame ⊢
  rintro (⟨hl, hr⟩ | ⟨hl, hr⟩)
  · exact hsame (.inl ⟨Setoid.symm hl, Setoid.symm hr⟩)
  · exact hsame (.inr ⟨Setoid.symm hr, Setoid.symm hl⟩)

theorem substitute_cases {r s : Relation} (h : r.hasOperand s.left ∨ r.hasOperand s.right) :
    ∃ v, (v = r.left ∨ v = r.right) ∧
      (r.hasOperand s.left ∧ r.substitute s = { s with left := v } ∨
        r.hasOperand s.right ∧ r.substitute s = { s with right := v }) := by
  refine ⟨if s.hasOperand r.left then r.right else r.left, ?_, ?_⟩
  · split
    · exact .inr rfl
    · exact .inl rfl
  · by_cases hleft : r.hasOperand s.left
    · exact .inl ⟨hleft, if_pos hleft⟩
    · exact .inr ⟨h.resolve_left hleft, if_neg hleft⟩

/-- What is deduced from two relations simplifies them or chains one with the other. -/
theorem deduce?_cases {r s e : Relation} (h : r.deduce? s = some e) :
    r.simplify? s = some e ∨ r.overlaps s ∧ r.chain? s = some e ∨
      s.overlaps r ∧ s.chain? r = some e := by
  simp only [deduce?, Option.orElse_eq_orElse, Option.orElse_eq_or] at h
  rcases Option.or_eq_some_iff.1 h with h | ⟨_, h⟩
  · exact .inl h
  · split at h
    next hoverlap =>
      rcases Option.or_eq_some_iff.1 h with h | ⟨_, h⟩
      · exact .inr (.inl ⟨hoverlap, h⟩)
      · exact .inr (.inr ⟨overlaps_symm hoverlap, h⟩)
    next => contradiction

theorem deduce?_operands {P : Value → Prop} {r s d : Relation} (hr : P r.left ∧ P r.right)
    (hs : P s.left ∧ P s.right) (h : r.deduce? s = some d) : P d.left ∧ P d.right := by
  have hchain {r s : Relation} (hr : P r.left ∧ P r.right) (hs : P s.left ∧ P s.right)
      (h : r.chain? s = some d) : P d.left ∧ P d.right := by
    unfold chain? substitute at h
    grind
  rcases deduce?_cases h with h | ⟨_, h⟩ | ⟨_, h⟩
  · obtain ⟨_, rfl⟩ := Option.ite_some_none_eq_some.1 h
    exact hr
  · exact hchain hr hs h
  · exact hchain hs hr h

theorem exists_implies_of_resolve {r : Relation} {known : Relations} {answer : Resolution}
    (hrefl : ¬ r.isReflexive) (hanswer : answer.isDetermined) (h : r.resolve known = answer) :
    ∃ k ∈ known.toList, k.implies r = answer := by
  rw [resolve, if_neg hrefl] at h
  rcases Option.getD_eq_iff.1 h with hfind | ⟨_, rfl⟩
  · exact List.mem_map.1 (List.mem_of_find?_eq_some hfind)
  · contradiction

def map (f : Value → Value) (r : Relation) : Relation := ⟨r.kind, f r.left, f r.right⟩

section

variable {f : Value → Value} (hf : ∀ {v w}, f v ≈ f w ↔ v ≈ w) (r s : Relation)

include hf

theorem map_equiv_iff : r.map f ≈ s.map f ↔ r ≈ s := by
  rw [← toValue_equiv_iff, ← toValue_equiv_iff]
  simp only [toValue, map, Value.relational_equiv_iff, hf]

theorem isReflexive_map : (r.map f).isReflexive = r.isReflexive := by
  simp only [isReflexive, map, hf]

theorem hasOperand_map (v : Value) : (r.map f).hasOperand (f v) = r.hasOperand v := by
  simp only [hasOperand, map, hf]

theorem sameOperands_map : (r.map f).sameOperands (s.map f) = r.sameOperands s := by
  simp only [sameOperands, map, hf]

theorem substitute_map : (r.map f).substitute (s.map f) = (r.substitute s).map f := by
  have hr : (r.map f).hasOperand (s.map f).left = r.hasOperand s.left :=
    hasOperand_map hf r s.left
  have hs : (s.map f).hasOperand (r.map f).left = s.hasOperand r.left :=
    hasOperand_map hf s r.left
  simp only [substitute, hr, hs]
  split <;> split <;> rfl

theorem chain?_map : (r.map f).chain? (s.map f) = (r.chain? s).map (map f) := by
  have hsubstitute := substitute_map hf r s
  unfold chain?
  simp only [hsubstitute]
  simp only [map, hf]
  split <;> (try split) <;> (try split) <;> rfl

theorem overlaps_map : (r.map f).overlaps (s.map f) = r.overlaps s := by
  have hleft : (r.map f).hasOperand (s.map f).left = r.hasOperand s.left :=
    hasOperand_map hf r s.left
  have hright : (r.map f).hasOperand (s.map f).right = r.hasOperand s.right :=
    hasOperand_map hf r s.right
  simp only [overlaps, isReflexive_map hf, sameOperands_map hf, hleft, hright]

/-- Deduction looks at operands only as far as they are equivalent. -/
theorem deduce?_map : (r.map f).deduce? (s.map f) = (r.deduce? s).map (map f) := by
  have hsimplify : (r.map f).simplify? (s.map f) = (r.simplify? s).map (map f) := by
    have hkind (t : Relation) : (t.map f).kind = t.kind := rfl
    simp only [simplify?, hkind, map_equiv_iff hf, sameOperands_map hf]
    split <;> rfl
  simp only [deduce?, hsimplify, overlaps_map hf, chain?_map hf, Option.orElse_eq_orElse,
    Option.orElse_eq_or]
  split
  · simp only [Option.map_or]
  · simp only [Option.map_or, Option.map_none]

end

def absorb (known : Relations) (p : Relations × List Relation) (d : Relation) :
    Relations × List Relation :=
  if p.1.has d then (p.1.insert d, p.2)
  else if known.has d then p
  else (p.1.insert d, p.2 ++ [d])

theorem combine_eq (known : Relations) (r : Relation) (found : Relations) :
    combine known r found =
      (known.toList.filterMap r.deduce?).foldl (absorb known) (found, []) := by
  rw [combine, List.foldl_filterMap]
  congr
  funext p s
  cases r.deduce? s <;> rfl

theorem absorb_has_mono {known : Relations} {p : Relations × List Relation} {d e : Relation}
    (h : p.1.has e) : (absorb known p d).1.has e := by
  unfold absorb
  split
  · exact Relations.has_insert.2 (.inr h)
  · split
    · exact h
    · exact Relations.has_insert.2 (.inr h)

theorem absorb_covers (known : Relations) (p : Relations × List Relation) (d : Relation) :
    known.has d ∨ (absorb known p d).1.has d := by
  unfold absorb
  split
  · exact .inr (Relations.has_insert.2 (.inl (Setoid.refl d)))
  · split
    next h => exact .inl h
    next => exact .inr (Relations.has_insert.2 (.inl (Setoid.refl d)))

theorem mem_absorb {known : Relations} {p : Relations × List Relation} {d e : Relation}
    (h : e ∈ (absorb known p d).1.toList) : e = d ∨ e ∈ p.1.toList := by
  unfold absorb at h
  split at h
  · exact Relations.mem_insert h
  · split at h
    · exact .inr h
    · exact Relations.mem_insert h

theorem mem_absorb_queue {known : Relations} {p : Relations × List Relation} {d e : Relation}
    (h : e ∈ (absorb known p d).2) : e = d ∨ e ∈ p.2 := by
  unfold absorb at h
  split at h
  · exact .inr h
  · split at h
    · exact .inr h
    · simpa [or_comm] using h

theorem absorb_queue_mono {known : Relations} {p : Relations × List Relation} {d e : Relation}
    (h : e ∈ p.2) : e ∈ (absorb known p d).2 := by
  unfold absorb
  split
  · exact h
  · split
    · exact h
    · exact List.mem_append_left _ h

theorem absorb_queued {known : Relations} {p : Relations × List Relation} {d e : Relation}
    (h : (absorb known p d).1.has e) : p.1.has e ∨ ∃ f ∈ (absorb known p d).2, f ≈ e := by
  unfold absorb at h ⊢
  split at h
  next hd =>
    rcases Relations.has_insert.1 h with h | h
    · exact .inl ((Relations.has_congr h).1 hd)
    · exact .inl h
  next hd =>
    rw [if_neg hd]
    split at h
    next => exact .inl h
    next hk =>
      rw [if_neg hk]
      rcases Relations.has_insert.1 h with h | h
      · exact .inr ⟨d, by simp, h⟩
      · exact .inl h

structure Absorbed (known : Relations) (ds : List Relation) (p q : Relations × List Relation) :
    Prop where
  mono : ∀ {e}, p.1.has e → q.1.has e
  queue_mono : ∀ {e}, e ∈ p.2 → e ∈ q.2
  covers : ∀ {d}, d ∈ ds → known.has d ∨ q.1.has d
  found : ∀ {e}, e ∈ q.1.toList → e ∈ p.1.toList ∨ e ∈ ds
  queue : ∀ {e}, e ∈ q.2 → e ∈ p.2 ∨ e ∈ ds
  queued : ∀ {e}, q.1.has e → p.1.has e ∨ ∃ f ∈ q.2, f ≈ e

theorem absorbed (known : Relations) (ds : List Relation) (p : Relations × List Relation) :
    Absorbed known ds p (ds.foldl (absorb known) p) := by
  induction ds generalizing p with
  | nil => exact ⟨id, id, nofun, .inl, .inl, .inl⟩
  | cons d ds ih =>
    have h := ih (absorb known p d)
    refine ⟨fun he => h.mono (absorb_has_mono he), fun he => h.queue_mono (absorb_queue_mono he),
      fun he => ?_, fun he => ?_, fun he => ?_, fun he => ?_⟩
    · rcases List.mem_cons.1 he with rfl | he
      · exact (absorb_covers known p _).imp_right h.mono
      · exact h.covers he
    · rcases h.found he with he | he
      · exact (mem_absorb he).elim (fun he => .inr (he ▸ .head _)) .inl
      · exact .inr (.tail _ he)
    · rcases h.queue he with he | he
      · exact (mem_absorb_queue he).elim (fun he => .inr (he ▸ .head _)) .inl
      · exact .inr (.tail _ he)
    · rcases h.queued he with he | he
      · rcases absorb_queued he with he | ⟨f, hf, hfe⟩
        · exact .inl he
        · exact .inr ⟨f, h.queue_mono hf, hfe⟩
      · exact .inr he

theorem combine_absorbed (known : Relations) (r : Relation) (found : Relations) :
    Absorbed known (known.toList.filterMap r.deduce?) (found, []) (combine known r found) := by
  rw [combine_eq]
  exact absorbed known _ _

/-- A property that deduction from known relations keeps, all members of the closure have. -/
theorem saturate_induction {P : Relation → Prop} {known : Relations} {budget : Budget}
    (hdeduce : ∀ {d k e}, P d → k ∈ known.toList → d.deduce? k = some e → P e)
    {left : Nat} {queue : List Relation} {found result : Relations}
    (hqueue : ∀ d ∈ queue, P d) (hfound : ∀ e ∈ found.toList, P e)
    (h : saturate known budget left queue found = .ok result) : ∀ e ∈ result.toList, P e := by
  induction left generalizing queue found with
  | zero =>
    cases queue with
    | nil => cases h; exact hfound
    | cons => contradiction
  | succ left ih =>
    cases queue with
    | nil => cases h; exact hfound
    | cons r queue =>
      simp only [saturate] at h
      split at h
      next => contradiction
      next =>
        have hc := combine_absorbed known r found
        have hds : ∀ d ∈ known.toList.filterMap r.deduce?, P d := by
          intro d hd
          obtain ⟨k, hk, hd⟩ := List.mem_filterMap.1 hd
          exact hdeduce (hqueue r (.head _)) hk hd
        refine ih (fun d hd => ?_) (fun e he => ?_) h
        · rcases List.mem_append.1 hd with hd | hd
          · exact hqueue d (.tail _ hd)
          · exact hds d ((hc.queue hd).resolve_left List.not_mem_nil)
        · exact (hc.found he).elim (hfound e) (hds e)

theorem closure_induction {P : Relation → Prop} {r : Relation} {known result : Relations}
    {budget : Budget} (h : r.closure known budget = .ok result) (hr : P r)
    (hdeduce : ∀ {d k e}, P d → k ∈ known.toList → d.deduce? k = some e → P e) :
    ∀ e ∈ result.toList, P e :=
  saturate_induction hdeduce (by simpa using hr) (by simp) h

/-- What deduction from known relations keeps, all that is assumed together with `r` has. -/
theorem closure_insert_induction {P : Relation → Prop} {r : Relation} {known result : Relations}
    {budget : Budget} (h : r.closure known budget = .ok result) (hr : P r)
    (hdeduce : ∀ {d k e}, P d → k ∈ known.toList → d.deduce? k = some e → P e) :
    ∀ i ∈ (result.insert r).toList, P i := by
  intro i hi
  rcases Relations.mem_insert hi with rfl | hi
  · exact hr
  · exact closure_induction h hr hdeduce i hi

/-- The members of `all` are exhausted: all that follows from one of them and a known relation is
known or found, and whatever is found is among them. -/
structure Exhausted (known found : Relations) (all : List Relation) : Prop where
  deduced : ∀ {d k e}, d ∈ all → k ∈ known.toList → d.deduce? k = some e →
    known.has e ∨ found.has e
  found : ∀ {e}, found.has e → ∃ d ∈ all, d ≈ e

theorem saturate_exhausted {known : Relations} {budget : Budget} {left : Nat}
    {queue done : List Relation} {found result : Relations}
    (hdone : ∀ {d k e}, d ∈ done → k ∈ known.toList → d.deduce? k = some e →
      known.has e ∨ found.has e)
    (hfound : ∀ {e}, found.has e → ∃ d ∈ done ++ queue, d ≈ e)
    (h : saturate known budget left queue found = .ok result) :
    ∃ all, Exhausted known result all ∧ ∀ d ∈ done ++ queue, d ∈ all := by
  induction left generalizing queue found done with
  | zero =>
    cases queue with
    | nil =>
      cases h
      exact ⟨done, ⟨hdone, fun he => by simpa using hfound he⟩, by simp⟩
    | cons => contradiction
  | succ left ih =>
    cases queue with
    | nil =>
      cases h
      exact ⟨done, ⟨hdone, fun he => by simpa using hfound he⟩, by simp⟩
    | cons r queue =>
      simp only [saturate] at h
      split at h
      next => contradiction
      next =>
        have hc := combine_absorbed known r found
        -- `r` is done, and what it led to is queued
        have hdone' : ∀ {d k e}, d ∈ done ++ [r] → k ∈ known.toList → d.deduce? k = some e →
            known.has e ∨ Relations.has (combine known r found).1 e := by
          intro d k e hd hk he
          rcases List.mem_append.1 hd with hd | hd
          · exact (hdone hd hk he).imp_right hc.mono
          · cases List.mem_singleton.1 hd
            exact hc.covers (List.mem_filterMap.2 ⟨k, hk, he⟩)
        have hfound' : ∀ {e}, Relations.has (combine known r found).1 e →
            ∃ d ∈ (done ++ [r]) ++ (queue ++ (combine known r found).2), d ≈ e := by
          intro e he
          rcases hc.queued he with he | ⟨f, hf, hfe⟩
          · obtain ⟨d, hd, hde⟩ := hfound he
            exact ⟨d, by grind, hde⟩
          · exact ⟨f, by simp [hf], hfe⟩
        obtain ⟨all, hall, hsub⟩ := ih hdone' hfound' h
        exact ⟨all, hall, fun d hd => hsub d (by grind)⟩

/-- The closure of a relation is exhausted. -/
theorem closure_exhausted {r : Relation} {known result : Relations} {budget : Budget}
    (h : r.closure known budget = .ok result) :
    ∃ all, Exhausted known result all ∧ r ∈ all := by
  have hfound : ∀ {e}, Relations.has ∅ e → ∃ d ∈ [] ++ [r], d ≈ e := by simp [Relations.has_iff]
  obtain ⟨all, hall, hsub⟩ := saturate_exhausted (fun hd => absurd hd List.not_mem_nil) hfound h
  exact ⟨all, hall, hsub r (by simp)⟩

theorem closure_error {r : Relation} {known : Relations} {budget : Budget} {f : Failure}
    (h : r.closure known budget = .error f) :
    ∃ used iterations, f = .relationsExceeded used iterations := by
  have hsaturate : ∀ {left : Nat} {queue : List Relation} {found : Relations},
      saturate known budget left queue found = .error f →
        ∃ used iterations, f = .relationsExceeded used iterations := by
    intro left
    induction left with
    | zero =>
      intro queue found h
      cases queue with
      | nil => contradiction
      | cons => cases h; exact ⟨_, _, rfl⟩
    | succ left ih =>
      intro queue found h
      cases queue with
      | nil => contradiction
      | cons r queue =>
        simp only [saturate] at h
        split at h
        next => cases h; exact ⟨_, _, rfl⟩
        next => exact ih h
  exact hsaturate h

end Relation

end Pathwise
