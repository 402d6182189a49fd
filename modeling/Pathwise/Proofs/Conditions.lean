import Mathlib.Tactic.Choose
import Pathwise.Proofs.Admission
import Pathwise.Proofs.Knowledge

namespace Pathwise

open Outcomes

namespace Value

/-- Whether the value is built from opaque values by logical operators alone. -/
def isLogical : Value → Bool
  | simple _ | boolean _ => .true
  | not _ v => v.isLogical
  | binary _ _ l r => l.isLogical && r.isLogical
  | relational _ _ _ => .false

def leaves : Value → List Value
  | simple id => [simple id]
  | boolean id => [boolean id]
  | not _ v => v.leaves
  | binary _ _ l r => l.leaves ++ r.leaves
  | relational _ l r => l.leaves ++ r.leaves

/-- The truth of a condition if opaque values are as assigned. Relations count as opaque. -/
def truth (a : Value → Bool) : Value → Bool
  | simple id => a (simple id)
  | boolean id => a (boolean id)
  | not _ v => !v.truth a
  | binary _ op l r => op.eval (l.truth a) (r.truth a)
  | relational k l r => a (relational k l r)

theorem isLogical_binary {id : Nat} {op : LogicalOp} {l r : Value} :
    (binary id op l r).isLogical ↔ l.isLogical ∧ r.isLogical := by
  simp only [isLogical, Bool.and_eq_true]

theorem normal_of_isLogical {v : Value} (h : v.isLogical) : v.normal = v := by
  induction v with
  | simple | boolean => rfl
  | not _ _ ih => rw [normal, ih h]
  | binary _ _ _ _ ihl ihr =>
    obtain ⟨hl, hr⟩ := isLogical_binary.1 h
    rw [normal, ihl hl, ihr hr]
  | relational => contradiction

theorem eq_of_isLogical {v w : Value} (hv : v.isLogical) (hw : w.isLogical) (h : v ≈ w) : v = w := by
  rwa [equiv_iff, normal_of_isLogical hv, normal_of_isLogical hw] at h

end Value

namespace State

/-- The assignment gives the opaque values the truth values that they hold. -/
def Allows (s : State) (leaves : List Value) (a : Value → Bool) : Prop :=
  ∀ v ∈ leaves, ∀ b, s.constraint? v .boolean = some (.truth b) → a v = b

/-- The assignment gives every condition the truth value that it holds. -/
def Fits (s : State) (a : Value → Bool) : Prop :=
  ∀ v b, v.isLogical → s.constraint? v .boolean = some (.truth b) → v.truth a = b

variable {s t : State} {v : Value} {leaves : List Value} {a : Value → Bool} {b : Bool}

theorem Extends.allows (h : s.Extends t) (ht : t.Allows leaves a) : s.Allows leaves a := by
  intro v hv b hb
  exact ht v hv b (h.constraint hb)

theorem Allows.of_constrain? (h : s.constrain? v (.truth b) = some t) (hv : v ∈ leaves)
    (ht : t.Allows leaves a) : a v = b := by
  apply ht v hv
  rw [constraint?_of_constrain? h, if_pos ⟨Setoid.refl v, rfl⟩]

theorem Fits.constrain? (h : s.Fits a) (hv : v.isLogical) :
    ∃ t, s.constrain? v (.truth (v.truth a)) = some t ∧ t.Fits a := by
  have hheld : ∀ c, s.constraint? v .boolean = some c → c = .truth (v.truth a) := by
    intro c hc
    have hdomain := constraint?_domain hc
    cases c with
    | truth b => rw [h v b hv hc]
    | null | notNull | custom => contradiction
  obtain ⟨t, ht⟩ := exists_constrain? (c := .truth (v.truth a)) hheld
  refine ⟨t, ht, fun w b hw hb => ?_⟩
  rw [constraint?_of_constrain? ht] at hb
  split at hb
  next heq =>
    cases hb
    rw [Value.eq_of_isLogical hv hw heq.1]
  next => exact h w b hw hb

end State

namespace Outcomes

def Ensures (Q : State → Prop) (f : State → Outcomes) : Prop :=
  ∀ ⦃s states⦄, f s = .ok states → ∀ t ∈ states, Q t

variable {Q R : State → Prop} {f g : State → Outcomes}

theorem Ensures.mono (hf : Ensures Q f) (h : ∀ t, Q t → R t) : Ensures R f :=
  fun _ _ heq t ht => h t (hf heq t ht)

theorem Ensures.both (hf : Ensures Q f) (hkeep : Preserves Q g) (hg : Ensures R g) :
    Ensures (fun t => Q t ∧ R t) (Outcomes.both f g) := by
  intro s states h t ht
  obtain ⟨mid, hmid, h⟩ := bind_eq_ok.1 h
  obtain ⟨u, hu, l, hl, htl⟩ := (mem_each h).1 ht
  exact ⟨hkeep (hf hmid u hu) hl t htl, hg hl t htl⟩

theorem Ensures.either (hf : Ensures Q f) (hg : Ensures Q g) : Ensures Q (Outcomes.either f g) := by
  intro s states h t ht
  obtain ⟨a, ha, h⟩ := bind_eq_ok.1 h
  obtain ⟨b, hb, h⟩ := bind_eq_ok.1 h
  cases h
  exact (List.mem_append.1 ht).elim (hf ha t) (hg hb t)

end Outcomes

namespace LogicalOp

variable {f g : Bool → State → Outcomes}

theorem split_total (hf : ∀ b, Total (f b)) (hg : ∀ b, Total (g b)) (op : LogicalOp) (b : Bool) :
    Total (op.split b f g) :=
  op.split_closed Total.both Total.either hf hg b

/-- Each case of a logical operator settles its truth: it fixes one operand that decides it, or
both. -/
theorem split_ensures {A : State → Prop} {x y : Bool}
    (hf : ∀ b, Ensures (fun t => A t → x = b) (f b))
    (hg : ∀ b, Ensures (fun t => A t → y = b) (g b))
    (hkeep : ∀ b b', Preserves (fun t => A t → x = b) (g b')) (op : LogicalOp) (b : Bool) :
    Ensures (fun t => A t → op.eval x y = b) (op.split b f g) := by
  have hboth (p q : Bool) :
      Ensures (fun t => A t → op.eval x y = op.eval p q) (Outcomes.both (f p) (g q)) := by
    intro s states h t ht hA
    obtain ⟨hx, hy⟩ := (hf p).both (hkeep p q) (hg q) h t ht
    rw [hx hA, hy hA]
  cases op with
  | and =>
    cases b with
    | true => exact hboth true true
    | false =>
      apply Ensures.either
      · exact (hf false).mono fun t hx ht => by rw [hx ht, eval, Bool.false_and]
      · exact (hg false).mono fun t hy ht => by rw [hy ht, eval, Bool.and_false]
  | or =>
    cases b with
    | true =>
      apply Ensures.either
      · exact (hf true).mono fun t hx ht => by rw [hx ht, eval, Bool.true_or]
      · exact (hg true).mono fun t hy ht => by rw [hy ht, eval, Bool.or_true]
    | false => exact hboth false false
  | xor =>
    cases b with
    | true => exact (hboth true false).either (hboth false true)
    | false => exact (hboth true true).either (hboth false false)

end LogicalOp

namespace Value

variable {v : Value} {relate : Relation → Bool → State → Outcomes}

theorem assumeTruth_total (hv : v.isLogical) (b : Bool) : Total (v.assumeTruth relate b) := by
  induction v generalizing b with
  | simple | boolean => exact fun s => ⟨_, rfl⟩
  | not id w ih =>
    intro s
    simp only [assumeTruth]
    split
    next t _ => exact ih hv _ t
    next => exact ⟨[], rfl⟩
  | binary id op l r ihl ihr =>
    obtain ⟨hl, hr⟩ := isLogical_binary.1 hv
    intro s
    simp only [assumeTruth]
    split
    next t _ => exact op.split_total (ihl hl) (ihr hr) b t
    next => exact ⟨[], rfl⟩
  | relational => contradiction

/-- An outcome allows only assignments under which the condition is as assumed. -/
theorem assumeTruth_ensures (hrelate : ∀ (s : State) r b, Preserves s.Extends (relate r b))
    (hv : v.isLogical) {leaves : List Value} (hleaves : ∀ w ∈ v.leaves, w ∈ leaves)
    (a : Value → Bool) (b : Bool) :
    Ensures (fun t => t.Allows leaves a → v.truth a = b) (v.assumeTruth relate b) := by
  induction v generalizing b with
  | simple | boolean =>
    intro s states h t ht hallows
    cases h
    rw [truth]
    exact hallows.of_constrain? (Option.mem_toList.1 ht) (hleaves _ (.head _))
  | not id w ih =>
    intro s states h t ht hallows
    simp only [assumeTruth] at h
    split at h
    next u _ =>
      have hw := ih hv hleaves (!b) h t ht hallows
      rw [truth, hw, Bool.not_not]
    next =>
      cases h
      contradiction
  | binary id op l r ihl ihr =>
    obtain ⟨hl, hr⟩ := isLogical_binary.1 hv
    have ihl := ihl hl fun w hw => hleaves w (List.mem_append_left _ hw)
    have ihr := ihr hr fun w hw => hleaves w (List.mem_append_right _ hw)
    -- what the first operand rules out stays ruled out
    have hkeep (b b' : Bool) :
        Preserves (fun t => t.Allows leaves a → l.truth a = b) (r.assumeTruth relate b') := by
      intro s states hs h t ht hallows
      have hextends : s.Extends t :=
        assumeTruth_preserves s.steady_extends.toAdditive (fun q b _ _ => hrelate s q b) trivial b'
          (.refl s) h t ht
      exact hs (hextends.allows hallows)
    intro s states h t ht hallows
    simp only [assumeTruth] at h
    split at h
    next u _ => exact op.split_ensures ihl ihr hkeep b h t ht hallows
    next =>
      cases h
      contradiction
  | relational => contradiction

/-- An assignment that fits is left by some outcome of what is true under it. -/
theorem assumeTruth_fits (hv : v.isLogical) (a : Value → Bool) :
    Keeps (State.Fits · a) (v.assumeTruth relate (v.truth a)) := by
  induction v with
  | simple | boolean =>
    intro s states hs h
    cases h
    obtain ⟨t, ht, hfits⟩ := hs.constrain? hv
    exact ⟨t, Option.mem_toList.2 ht, hfits⟩
  | not id w ih =>
    intro s states hs h
    obtain ⟨t, ht, hfits⟩ := hs.constrain? hv
    simp only [assumeTruth, ht] at h
    rw [truth, Bool.not_not] at h
    exact ih hv hfits h
  | binary id op l r ihl ihr =>
    obtain ⟨hl, hr⟩ := isLogical_binary.1 hv
    intro s states hs h
    obtain ⟨t, ht, hfits⟩ := hs.constrain? hv
    simp only [assumeTruth, ht] at h
    exact op.split_keeps (ihl hl) (ihr hr) hfits h
  | relational => contradiction

/-- Assuming a truth value within a limit on nesting is passing it down, with relations assumed in
some way that only adds to what is known. -/
theorem exists_relate (budget : Budget) (levels : Nat) :
    ∃ relate : Relation → Bool → State → Outcomes,
      (∀ (s : State) r b, Preserves s.Extends (relate r b)) ∧
        ∀ v b s, assumeAt budget levels v (.truth b) s = assumeTruth relate v b s := by
  cases levels with
  | zero =>
    refine ⟨fun _ _ _ => .error .nestingExceeded, ?_, fun _ _ _ => rfl⟩
    intro s r b t states _ h
    contradiction
  | succ levels =>
    refine ⟨Relation.assumeWith (assumeAt budget levels) budget, ?_, fun _ _ _ => rfl⟩
    intro s r b
    exact Relation.assumeWith_extends (fun s v c => v.assumeAt_extends budget levels s c) s budget r b

/-- Assuming that a condition is true or false never fails, and the outcomes split the assignments to
its opaque values exactly. -/
theorem assume_splits (hv : v.isLogical) (budget : Budget) (s : State) :
    ∃ outcomes : Bool → List State,
      (∀ b, v.assume (.truth b) budget s = .ok (outcomes b) ∧
        (∀ t ∈ outcomes b, ∀ a, t.Allows v.leaves a → v.truth a = b) ∧
        ∀ a, s.Fits a → v.truth a = b → ∃ t ∈ outcomes b, t.Fits a) ∧
      ∀ t ∈ outcomes .true, ∀ u ∈ outcomes .false, ∀ a,
        ¬ (t.Allows v.leaves a ∧ u.Allows v.leaves a) := by
  obtain ⟨relate, hrelate, hassume⟩ := exists_relate budget (s.nestingLimit v)
  have htotal : ∀ b, ∃ states, v.assumeTruth relate b s = .ok states :=
    fun b => assumeTruth_total hv b s
  choose outcomes houtcomes using htotal
  have hallows (b : Bool) (t : State) (ht : t ∈ outcomes b) (a : Value → Bool)
      (ha : t.Allows v.leaves a) : v.truth a = b :=
    assumeTruth_ensures hrelate hv (fun _ => id) a b (houtcomes b) t ht ha
  refine ⟨outcomes, fun b => ⟨(hassume v b s).trans (houtcomes b), hallows b, ?_⟩, ?_⟩
  · rintro a hs rfl
    exact assumeTruth_fits hv a hs (houtcomes _)
  · rintro t ht u hu a ⟨hta, hua⟩
    have htrue := hallows .true t ht a hta
    have hfalse := hallows .false u hu a hua
    rw [htrue] at hfalse
    contradiction

/-- `!(x ^ (p | x))`, for an opaque `x` and a boxed boolean `p`. -/
def sharedLeaf : Value := .not 7 (.binary 6 .xor (.simple 3) (.binary 5 .or (.boolean 4) (.simple 3)))

theorem assume_splits_sharedLeaf :
    sharedLeaf.isLogical ∧ ∃ outcomes : Bool → List State,
      (∀ b, sharedLeaf.assume (.truth b) {} State.empty = .ok (outcomes b)) ∧
      (outcomes .true).length = 3 ∧ (outcomes .false).length = 1 ∧
      (∀ b, ∀ t ∈ outcomes b, ∀ a, t.Allows sharedLeaf.leaves a → sharedLeaf.truth a = b) ∧
      ∀ t ∈ outcomes .true, ∀ u ∈ outcomes .false, ∀ a,
        ¬ (t.Allows sharedLeaf.leaves a ∧ u.Allows sharedLeaf.leaves a) := by
  have htrue : (sharedLeaf.assume (.truth .true) {} State.empty).toOption.map List.length = some 3 := by
    decide +kernel
  have hfalse :
      (sharedLeaf.assume (.truth .false) {} State.empty).toOption.map List.length = some 1 := by
    decide +kernel
  obtain ⟨outcomes, hsplit, hapart⟩ := assume_splits (v := sharedLeaf) rfl {} State.empty
  rw [(hsplit .true).1] at htrue
  rw [(hsplit .false).1] at hfalse
  exact ⟨rfl, outcomes, fun b => (hsplit b).1, Option.some.inj htrue, Option.some.inj hfalse,
    fun b => (hsplit b).2.1, hapart⟩

end Value

end Pathwise
