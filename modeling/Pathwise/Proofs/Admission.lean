import Pathwise.Proofs.Constraints
import Pathwise.Proofs.Outcomes
import Pathwise.Proofs.Valuation

namespace Pathwise

open Outcomes

/-- A view of what is true: `C v c` if `v` may be said to hold `c`, `R r` if `r` may be said to hold,
and `I s` if the state `s` agrees with it. -/
structure Admits (C : Value → Constraint → Prop) (R : Relation → Prop) (I : State → Prop) : Prop where
  not : ∀ {id v b}, C (.not id v) (.truth b) → C v (.truth !b)
  binary : ∀ {id op l r b}, C (.binary id op l r) (.truth b) →
    ∃ a a', C l (.truth a) ∧ C r (.truth a') ∧ op.eval a a' = b
  relational : ∀ {r b}, C r.toValue (.truth b) → R (if b then r else r.inverse)
  constrain : ∀ {s v c}, I s → C v c → ∃ t, s.constrain? v c = some t ∧ I t
  known : ∀ {s r}, I s → r ∈ s.relations.toList → R r
  learn : ∀ {s r}, I s → R r → I (s.learn r)
  deduce : ∀ {r s d}, R r → R s → r.deduce? s = some d → R d
  resolve : ∀ {s r}, I s → R r → r.resolve s.relations ≠ .unfulfilled
  /-- What is carried over from one operand of a relation to the other is true of that. -/
  carry : ∀ {s r v w c c'}, I s → R r → v = r.left ∧ w = r.right ∨ v = r.right ∧ w = r.left →
    s.constraint? v c.domain = some c → c.copyOver r.kind = some c' → C w c'

variable {C : Value → Constraint → Prop} {R : Relation → Prop} {I : State → Prop}

theorem Admits.constrain_keeps (h : Admits C R I) {v : Value} {c : Constraint} (hc : C v c) :
    Keeps I fun s => .ok (s.constrain? v c).toList := by
  intro s states hs heq
  cases heq
  obtain ⟨t, ht, hIt⟩ := h.constrain hs hc
  exact ⟨t, by simp [ht], hIt⟩

theorem LogicalOp.split_keeps {f g : Bool → State → Outcomes} {a b : Bool} (hf : Keeps I (f a))
    (hg : Keeps I (g b)) (op : LogicalOp) : Keeps I (op.split (op.eval a b) f g) := by
  cases op with
  | and =>
    cases a with
    | true =>
      cases b with
      | true => exact hf.both hg
      | false => exact hg.either_right
    | false => exact hf.either_left
  | or =>
    cases a with
    | true => exact hf.either_left
    | false =>
      cases b with
      | true => exact hg.either_right
      | false => exact hf.both hg
  | xor =>
    cases a with
    | true =>
      cases b with
      | true => exact (hf.both hg).either_left
      | false => exact (hf.both hg).either_left
    | false =>
      cases b with
      | true => exact (hf.both hg).either_right
      | false => exact (hf.both hg).either_right

theorem Value.assumeTruth_keeps (h : Admits C R I) {relate : Relation → Bool → State → Outcomes}
    (hrelate : ∀ {r b}, R (if b then r else r.inverse) → Keeps I (relate r b)) {v : Value} {b : Bool}
    (hv : C v (.truth b)) : Keeps I (v.assumeTruth relate b) := by
  induction v generalizing b with
  | simple id => exact h.constrain_keeps hv
  | boolean id => exact h.constrain_keeps hv
  | not id w ih =>
    intro s states hs heq
    obtain ⟨t, ht, hIt⟩ := h.constrain hs hv
    simp only [assumeTruth, ht] at heq
    exact ih (h.not hv) hIt heq
  | binary id op l r ihl ihr =>
    obtain ⟨a, a', hl, hr, rfl⟩ := h.binary hv
    intro s states hs heq
    obtain ⟨t, ht, hIt⟩ := h.constrain hs hv
    simp only [assumeTruth, ht] at heq
    exact op.split_keeps (ihl hl) (ihr hr) hIt heq
  | relational k l r => exact hrelate (h.relational hv)

theorem Value.assumeWith_keeps (h : Admits C R I) {relate : Relation → Bool → State → Outcomes}
    (hrelate : ∀ {r b}, R (if b then r else r.inverse) → Keeps I (relate r b)) {v : Value}
    {c : Constraint} (hv : C v c) : Keeps I (v.assumeWith relate c) := by
  intro s states hs heq
  unfold assumeWith at heq
  split at heq
  next b hb =>
    have hcb : c = .truth b := by
      cases c <;> simp_all [Constraint.truth?]
    subst hcb
    exact assumeTruth_keeps h hrelate hv hs heq
  next => exact h.constrain_keeps hv hs heq

namespace Relation

variable {assume : Value → Constraint → State → Outcomes}

theorem impose_keeps (hassume : ∀ v c, C v c → Keeps I (assume v c)) {r : Relation}
    {target : Value} {held : ConstraintSet}
    (hheld : ∀ c ∈ held.toList, ∀ c', c.copyOver r.kind = some c' → C target c') :
    Keeps I (r.impose assume target held) := by
  intro s states hs h
  refine Keeps.foldlM (fun c' hc' => ?_) ⟨s, by simp, hs⟩ h
  obtain ⟨c, hc, hcopy⟩ := List.mem_filterMap.1 hc'
  exact hassume target c' (hheld c hc c' hcopy)

theorem transfer_keeps (h : Admits C R I) (hassume : ∀ v c, C v c → Keeps I (assume v c))
    {r : Relation} (hr : R r) {v w : Value}
    (hvw : v = r.left ∧ w = r.right ∨ v = r.right ∧ w = r.left) :
    Keeps I (r.transfer assume v w) := by
  intro s states hs heq
  unfold transfer at heq
  split at heq
  next held hheld =>
    exact impose_keeps hassume
      (fun c hc c' hcopy => h.carry hs hr hvw (State.mem_held hheld hc) hcopy) hs heq
  next held _ hheld =>
    have hwv : w = r.left ∧ v = r.right ∨ w = r.right ∧ v = r.left :=
      hvw.symm.imp And.symm And.symm
    exact impose_keeps hassume
      (fun c hc c' hcopy => h.carry hs hr hwv (State.mem_held hheld hc) hcopy) hs heq
  next =>
    cases heq
    exact ⟨s, by simp, hs⟩

theorem orNull_keeps {v : Value} {states out : List State} (hs : ∃ s ∈ states, I s)
    (h : orNull assume v states = .ok out) : ∃ t ∈ out, I t := by
  refine Keeps.each (fun s states hs h => ?_) hs h
  obtain ⟨nulls, _, h⟩ := bind_eq_ok.1 h
  cases h
  exact ⟨s, by simp, hs⟩

theorem record_keeps (h : Admits C R I) (hassume : ∀ v c, C v c → Keeps I (assume v c))
    {r : Relation} (hr : R r) : Keeps I (r.record assume) := by
  intro s states hs heq
  unfold record at heq
  have hs' : I (if s.canReach r.left || s.canReach r.right then s.learn r else s) := by
    split
    · exact h.learn hs hr
    · exact hs
  obtain ⟨mid, hmid, heq⟩ := bind_eq_ok.1 heq
  have hmid' := (transfer_keeps h hassume hr (.inl ⟨rfl, rfl⟩)).both
    (transfer_keeps h hassume hr (.inr ⟨rfl, rfl⟩)) hs' hmid
  split at heq
  next => exact orNull_keeps hmid' heq
  next =>
    cases heq
    exact hmid'

theorem assumeHolds_keeps (h : Admits C R I) (hassume : ∀ v c, C v c → Keeps I (assume v c))
    {budget : Budget} {r : Relation} (hr : R r) : Keeps I (r.assumeHolds assume budget) := by
  intro s states hs heq
  rcases assumeHolds_cases heq with ⟨_, rfl⟩ | ⟨found, hfound, heq⟩
  · exact ⟨s, by simp, hs⟩
  · have hR : ∀ i ∈ (found.insert r).toList, R i :=
      closure_insert_induction hfound hr fun hd hk he => h.deduce hd (h.known hs hk) he
    rcases heq with ⟨⟨i, hi, hruled⟩, _⟩ | ⟨_, heq⟩
    · exact absurd hruled (h.resolve hs (hR i hi))
    · exact Keeps.foldlM (fun i hi => record_keeps h hassume (hR i hi)) ⟨s, by simp, hs⟩ heq

end Relation

theorem Value.assumeAt_keeps (h : Admits C R I) (budget : Budget) (levels : Nat) {v : Value}
    {c : Constraint} (hv : C v c) : Keeps I (v.assumeAt budget levels c) := by
  induction levels generalizing v c with
  | zero => exact assumeWith_keeps h (fun _ _ _ _ heq => by contradiction) hv
  | succ levels ih =>
    exact assumeWith_keeps h (fun hr => Relation.assumeHolds_keeps h (fun v c hv => ih hv) hr) hv

/-- An assumption that is true has an outcome that agrees with what is true, if the state does. -/
theorem Admits.assume_keeps (h : Admits C R I) {v : Value} {c : Constraint} (hv : C v c)
    (budget : Budget) : Keeps I (v.assume c budget) :=
  fun _ _ hs heq => Value.assumeAt_keeps h budget _ hv hs heq

end Pathwise
