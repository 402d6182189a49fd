import Mathlib.Logic.Relation
import Pathwise.Proofs.Constraints
import Pathwise.Proofs.Gathered
import Pathwise.Proofs.Interpretation
import Pathwise.Proofs.Orders
import Pathwise.Proofs.Soundness

namespace Pathwise

open Outcomes

inductive Value.Boxed : Value → Prop
  | literal {id : Nat} (h : id < firstFreeId) : Boxed (.simple id)
  | box (id : Nat) : Boxed (.boolean id)

/-- Boxed booleans that hold a truth value, or none and are null. -/
def Valuation.boxes (σ : Nat → Option Bool) : Valuation := fun id => (σ id).elim .null .bool

def Interpretation.data (ρ : Valuation) : Interpretation (Option Datum) where
  object v := v.eval ρ
  congr h := Value.eval_congr h
  equals := Eq
  equivalence := ⟨fun _ => rfl, Eq.symm, Eq.trans⟩

namespace Value

variable {v w : Value} {σ : Nat → Option Bool}

theorem Boxed.isLeaf (h : v.Boxed) : v.isLeaf := by
  cases h <;> rfl

theorem Boxed.eq_of_equiv (hw : w.Boxed) (h : v ≈ w) : v = w := (equiv_leaf hw.isLeaf).1 h

theorem Boxed.eval_cases (h : v.Boxed) (σ : Nat → Option Bool) :
    v.eval (.boxes σ) = some .null ∨ ∃ b, v.eval (.boxes σ) = some (.bool b) := by
  cases h with
  | @literal id h =>
    match id, h with
    | 0, _ => exact .inl rfl
    | 1, _ => exact .inr ⟨_, rfl⟩
    | 2, _ => exact .inr ⟨_, rfl⟩
  | box id =>
    change some ((σ id).elim Datum.null Datum.bool) = _ ∨ ∃ b, some ((σ id).elim _ _) = _
    cases σ id with
    | none => exact .inl rfl
    | some b => exact .inr ⟨b, rfl⟩

theorem Boxed.isBoolean_or (h : v.Boxed) (hnull : v.eval (.boxes σ) = some .null) :
    v.isBoolean ∨ v = null := by
  cases h with
  | @literal id h =>
    match id, h with
    | 0, _ => exact .inr rfl
    | 1, _ => cases hnull
    | 2, _ => cases hnull
  | box => exact .inl rfl

end Value

def Constraint.Single (A : Value → Constraint → Prop) : Prop :=
  ∀ ⦃v c c'⦄, A v c → A v c' → c.domain = c'.domain → c = c'

def Constraint.Carries (A : Value → Constraint → Prop) (k : Relation.Kind) (v w : Value) : Prop :=
  ∀ ⦃c c'⦄, A v c → c.copyOver k = some c' → A w c'

open Constraint

namespace State

variable {A B : Value → Constraint → Prop} {R : Relation → Prop} {s t : State} {v : Value}
  {c : Constraint}

structure Tracks (A : Value → Constraint → Prop) (R : Relation → Prop) (s : State) : Prop where
  constraints : ∀ ⦃v c⦄, s.constraint? v c.domain = some c → A v c
  relations : ∀ r ∈ s.relations.toList, R r

theorem Tracks.mono (h : s.Tracks A R) (hAB : ∀ ⦃v c⦄, A v c → B v c) : s.Tracks B R :=
  ⟨fun _ _ hc => hAB (h.constraints hc), h.relations⟩

theorem Tracks.constrain? (h : s.Tracks A R) (hA : Single A) (hv : v.Boxed) (hc : A v c) :
    ∃ t, s.constrain? v c = some t ∧ t.Tracks A R := by
  have hheld : ∀ c', s.constraint? v c.domain = some c' → c' = c := by
    intro c' hc'
    have hdomain := constraint?_domain hc'
    apply hA (h.constraints (hdomain ▸ hc')) hc hdomain
  obtain ⟨t, ht⟩ := exists_constrain? hheld
  refine ⟨t, ht, fun w c' hc' => ?_, ?_⟩
  · rw [constraint?_of_constrain? ht] at hc'
    split at hc'
    next heq =>
      cases hc'
      cases hv.eq_of_equiv (Setoid.symm heq.1)
      exact hc
    next => exact h.constraints hc'
  · rw [relations_of_constrain? ht]
    exact h.relations

theorem Tracks.learn {r : Relation} (h : s.Tracks A R) (hr : R r) : (s.learn r).Tracks A R := by
  refine ⟨h.constraints, fun r' hr' => ?_⟩
  rcases Relations.mem_insert hr' with rfl | hr'
  · exact hr
  · exact h.relations r' hr'

theorem Tracks.release {d : Domain} (h : s.Tracks A R)
    (hAB : ∀ ⦃w c⦄, A w c → B w c ∨ w = v ∧ c.domain = d) : (s.release v d).Tracks B R := by
  refine ⟨fun w c hc => ?_, ?_⟩
  · rw [constraint?_release] at hc
    split at hc
    next => contradiction
    next hne =>
      apply (hAB (h.constraints hc)).resolve_right
      rintro ⟨rfl, rfl⟩
      exact hne ⟨Setoid.refl _, rfl⟩
  · rw [relations_release]
    exact h.relations

end State

namespace Relation

section

variable {A : Value → Constraint → Prop} {R : Relation → Prop} {r : Relation} {v w : Value}
  {assume : Value → Constraint → State → Outcomes}
  (hassume : ∀ {v c s}, v.Boxed → assume v c s = .ok (s.constrain? v c).toList)

include hassume

theorem assume_tracks {c : Constraint} (hA : Single A) (hv : v.Boxed) (hc : A v c) :
    Keeps (State.Tracks A R) (assume v c) := by
  intro s states hs h
  rw [hassume hv] at h
  cases h
  obtain ⟨t, ht, htracks⟩ := hs.constrain? hA hv hc
  exact ⟨t, by simp [ht], htracks⟩

theorem impose_tracks {held : ConstraintSet} (hA : Single A) (hw : w.Boxed)
    (hcarries : Carries A r.kind v w) (hheld : ∀ c ∈ held.toList, A v c) :
    Keeps (State.Tracks A R) (r.impose assume w held) := by
  intro s states hs h
  refine Keeps.foldlM (fun c hc => ?_) ⟨s, by simp, hs⟩ h
  obtain ⟨c', hc', hcopy⟩ := List.mem_filterMap.1 hc
  exact assume_tracks hassume hA hw (hcarries (hheld c' hc') hcopy)

theorem transfer_tracks (hA : Single A) (hv : v.Boxed) (hw : w.Boxed)
    (hforth : Carries A r.kind v w) (hback : Carries A r.kind w v) :
    Keeps (State.Tracks A R) (r.transfer assume v w) := by
  intro s states hs h
  unfold transfer at h
  split at h
  next held hheld =>
    apply impose_tracks hassume hA hw hforth _ hs h
    exact fun c hc => hs.constraints (State.mem_held hheld hc)
  next held _ hheld =>
    apply impose_tracks hassume hA hv hback _ hs h
    exact fun c hc => hs.constraints (State.mem_held hheld hc)
  next =>
    cases h
    exact ⟨s, by simp, hs⟩

end

end Relation

/-- The constraint is true of the value, and truth is known only of values in `T`. -/
def Constraint.Known (σ : Nat → Option Bool) (T : Value → Prop) (v : Value) (c : Constraint) :
    Prop :=
  (∃ d, v.eval (.boxes σ) = some d ∧ Meaning.builtIn.fits c d) ∧ (c.domain = .boolean → T v)

namespace Constraint

variable {σ : Nat → Option Bool} {T : Value → Prop} {v w : Value} {c : Constraint} {b : Bool}

theorem Known.fits (h : Known σ T v c) {d : Datum} (hv : v.eval (.boxes σ) = some d) :
    Meaning.builtIn.fits c d := by
  obtain ⟨d', hd', hfits⟩ := h.1
  cases hv.symm.trans hd'
  exact hfits

theorem known_single (σ : Nat → Option Bool) (T : Value → Prop) : Single (Known σ T) := by
  intro v c c' hc hc' hdomain
  obtain ⟨d, hd, hfits⟩ := hc.1
  exact Meaning.builtIn.unique hfits (hc'.fits hd) hdomain

theorem Known.eq_null (h : Known σ T v c) (hv : v.eval (.boxes σ) = some .null) : c = .null := by
  have hfits := h.fits hv
  cases c with
  | null => rfl
  | notNull => exact absurd rfl hfits
  | truth => cases hfits
  | custom => exact hfits.elim

theorem Known.of_bool (h : Known σ T v c) (hv : v.eval (.boxes σ) = some (.bool b)) :
    c = .notNull ∨ c = .truth b := by
  have hfits := h.fits hv
  cases c with
  | null => cases hfits
  | notNull => exact .inl rfl
  | truth b' =>
    cases hfits
    exact .inr rfl
  | custom => exact hfits.elim

theorem known_notNull (hv : v.eval (.boxes σ) = some (.bool b)) : Known σ T v .notNull :=
  ⟨⟨_, hv, nofun⟩, nofun⟩

theorem carries_equal (heval : v.eval (.boxes σ) = w.eval (.boxes σ)) (hT : T v → T w) :
    Carries (Known σ T) .equal v w := by
  intro c c' hc hcopy
  obtain ⟨⟨d, hd, hfits⟩, hboolean⟩ := hc
  have heq : c' = c := by
    cases c with
    | null | notNull | truth =>
      cases hcopy
      rfl
    | custom => exact hfits.elim
  rw [heq]
  exact ⟨⟨d, heval ▸ hd, hfits⟩, fun h => hT (hboolean h)⟩

theorem carries_notEqual (hv : v.eval (.boxes σ) = some (.bool b))
    (hw : w.eval (.boxes σ) = some (.bool !b)) (hT : T v → T w) :
    Carries (Known σ T) .notEqual v w := by
  intro c c' hc hcopy
  rcases hc.of_bool hv with rfl | rfl
  · contradiction
  · cases hcopy
    exact ⟨⟨_, hw, rfl⟩, fun _ => hT (hc.2 rfl)⟩

end Constraint

namespace Relation

variable {σ : Nat → Option Bool} {T : Value → Prop} {r s e : Relation}

/-- A comparison by identity of boxed booleans that is true of them, and both or none of them are
in `T`. -/
structure Fair (σ : Nat → Option Bool) (T : Value → Prop) (r : Relation) : Prop where
  kind : r.kind = .equal ∨ r.kind = .notEqual
  left : r.left.Boxed
  right : r.right.Boxed
  holdsIn : r.HoldsIn (.data (.boxes σ))
  sides : T r.left ↔ T r.right

theorem Fair.eval_eq (h : r.Fair σ T) (hk : r.kind = .equal) :
    r.left.eval (.boxes σ) = r.right.eval (.boxes σ) := by
  have hholds := h.holdsIn
  rw [HoldsIn, hk] at hholds
  exact hholds

theorem Fair.eval_ne (h : r.Fair σ T) (hk : r.kind = .notEqual) :
    r.left.eval (.boxes σ) ≠ r.right.eval (.boxes σ) := by
  have hholds := h.holdsIn
  rw [HoldsIn, hk] at hholds
  exact hholds

theorem Fair.sides_of_hasOperand (hr : r.Fair σ T) {v : Value} (hv : v.Boxed)
    (h : r.hasOperand v) : T r.left ↔ T v := by
  rcases hasOperand_iff.1 h with h | h
  · rw [hv.eq_of_equiv h]
  · rw [hr.sides, hv.eq_of_equiv h]

theorem Fair.substitute (hr : r.Fair σ T) (hs : s.Fair σ T) (hk : r.kind = .equal)
    (hshare : r.hasOperand s.left ∨ r.hasOperand s.right) : (r.substitute s).Fair σ T := by
  have hholds := HoldsIn.substitute hk hshare hr.holdsIn hs.holdsIn
  obtain ⟨v, hv, h⟩ := substitute_cases hshare
  have hboxed : v.Boxed := by
    rcases hv with rfl | rfl
    · exact hr.left
    · exact hr.right
  have hT : T v ↔ T r.left := by
    rcases hv with rfl | rfl
    · rfl
    · exact hr.sides.symm
  rcases h with ⟨hleft, h⟩ | ⟨hright, h⟩
  · rw [h] at hholds ⊢
    refine ⟨hs.kind, hboxed, hs.right, hholds, ?_⟩
    exact hT.trans ((hr.sides_of_hasOperand hs.left hleft).trans hs.sides)
  · rw [h] at hholds ⊢
    refine ⟨hs.kind, hs.left, hboxed, hholds, ?_⟩
    exact (hT.trans ((hr.sides_of_hasOperand hs.right hright).trans hs.sides.symm)).symm

theorem Fair.chain? (hr : r.Fair σ T) (hs : s.Fair σ T) (hoverlap : r.overlaps s)
    (h : r.chain? s = some e) : e.Fair σ T := by
  unfold Relation.chain? at h
  rcases hr.kind with hk | hk
  · rw [hk] at h
    cases h
    exact hr.substitute hs hk (overlaps_share hoverlap)
  · rw [hk] at h
    contradiction

theorem Fair.deduce? (hr : r.Fair σ T) (hs : s.Fair σ T) (h : r.deduce? s = some e) :
    e.Fair σ T := by
  rcases deduce?_cases h with h | ⟨hoverlap, h⟩ | ⟨hoverlap, h⟩
  · obtain ⟨⟨hk, _⟩, _⟩ := Option.ite_some_none_eq_some.1 h
    rcases hr.kind with hk' | hk' <;> cases hk.symm.trans hk'
  · exact hr.chain? hs hoverlap h
  · exact hs.chain? hr hoverlap h

end Relation

/-- The state holds constraints in `A`, which may pass a relation of this kind between `v` and `w`
both ways. -/
structure State.Passes (A : Value → Constraint → Prop) (R : Relation → Prop) (k : Relation.Kind)
    (v w : Value) (s : State) : Prop where
  single : Single A
  forth : Carries A k v w
  back : Carries A k w v
  tracks : s.Tracks A R

namespace State

variable {σ : Nat → Option Bool} {T : Value → Prop} {A : Value → Constraint → Prop}
  {R : Relation → Prop} {s : State} {k : Relation.Kind} {v w : Value} {b : Bool}

theorem Passes.symm (h : s.Passes A R k v w) : s.Passes A R k w v :=
  ⟨h.single, h.back, h.forth, h.tracks⟩

theorem passes_of_open (hs : s.Tracks (Known σ T) R) (hv : v.eval (.boxes σ) = some .null)
    (hw : w.eval (.boxes σ) = some (.bool b)) (hwBoxed : w.Boxed)
    (hopen : s.constraint? w .boolean = none) :
    s.Passes (fun x c => Known σ T x c ∧ ¬ (x = w ∧ c.domain = .boolean)) R .notEqual v w := by
  refine ⟨fun x c c' hc hc' => known_single σ T hc.1 hc'.1, ?_, ?_, ?_, hs.relations⟩
  · intro c c' hc hcopy
    rw [hc.1.eq_null hv] at hcopy
    cases hcopy
    exact ⟨known_notNull hw, fun h => nomatch h.2⟩
  · intro c c' hc hcopy
    rcases hc.1.of_bool hw with rfl | rfl
    · contradiction
    · exact absurd ⟨rfl, rfl⟩ hc.2
  · intro x c hc
    refine ⟨hs.constraints hc, ?_⟩
    rintro ⟨rfl, hboolean⟩
    rw [hboolean, hopen] at hc
    contradiction

/-- A known truth value passes negated to a value that is null, and comes back as it was. -/
theorem passes_of_truth (hs : s.Tracks (Known σ T) R) (hv : v.eval (.boxes σ) = some .null)
    (hw : w.eval (.boxes σ) = some (.bool b)) (htruth : Known σ T w (.truth b)) :
    s.Passes (fun x c => Known σ T x c ∨ x = v ∧ c = .truth !b) R .notEqual v w := by
  have hne : w ≠ v := by
    rintro rfl
    cases hv.symm.trans hw
  refine ⟨?_, ?_, ?_, fun x c hc => .inl (hs.constraints hc), hs.relations⟩
  · rintro x c c' (hc | ⟨rfl, rfl⟩) (hc' | ⟨hx, rfl⟩) hdomain
    · exact known_single σ T hc hc' hdomain
    · rw [hc.eq_null (hx ▸ hv)] at hdomain
      contradiction
    · rw [hc'.eq_null hv] at hdomain
      contradiction
    · rfl
  · rintro c c' (hc | ⟨_, rfl⟩) hcopy
    · rw [hc.eq_null hv] at hcopy
      cases hcopy
      exact .inl (known_notNull hw)
    · cases hcopy
      rw [Bool.not_not]
      exact .inl htruth
  · rintro c c' (hc | ⟨hx, _⟩) hcopy
    · rcases hc.of_bool hw with rfl | rfl
      · contradiction
      · cases hcopy
        exact .inr ⟨rfl, rfl⟩
    · exact absurd hx hne

end State

namespace Relation

section

variable {σ : Nat → Option Bool} {T : Value → Prop} {A : Value → Constraint → Prop}
  {R : Relation → Prop} {r : Relation} {s : State} {v w : Value} {b : Bool}

/-- Either all that gets known is true of the boxed booleans, or a truth value gets known of the
open operand, which is null. -/
def Settles (σ : Nat → Option Bool) (T : Value → Prop) (A : Value → Constraint → Prop)
    (r : Relation) (s : State) : Prop :=
  (∀ ⦃x c⦄, A x c → Known σ T x c) ∨
    ∃ v, r.openOperand? s = some v ∧ v.eval (.boxes σ) = some .null ∧
      ∀ ⦃x c⦄, A x c → Known σ T x c ∨ x = v ∧ c.domain = .boolean

theorem openOperand?_left (hk : r.kind = .notEqual) (hleft : s.constraint? r.left .boolean = none)
    (hright : s.constraint? r.right .boolean ≠ none) (hbox : r.left.isBoolean) :
    r.openOperand? s = some r.left := by
  obtain ⟨c, hc⟩ := Option.ne_none_iff_exists'.1 hright
  simp only [openOperand?, hk, hleft, hc, hbox, if_true]

theorem openOperand?_right (hk : r.kind = .notEqual)
    (hleft : s.constraint? r.left .boolean ≠ none)
    (hright : s.constraint? r.right .boolean = none) (hbox : r.right.isBoolean) :
    r.openOperand? s = some r.right := by
  obtain ⟨c, hc⟩ := Option.ne_none_iff_exists'.1 hleft
  simp only [openOperand?, hk, hright, hc, hbox, if_true]

theorem exists_passes_null (hs : s.Tracks (Known σ T) R) (hv : v.eval (.boxes σ) = some .null)
    (hw : w.eval (.boxes σ) = some (.bool b)) (hvBoxed : v.Boxed) (hwBoxed : w.Boxed)
    (hsides : T v ↔ T w) (hnull : ¬ T .null)
    (hopen : s.constraint? v .boolean = none → s.constraint? w .boolean ≠ none → v.isBoolean →
      r.openOperand? s = some v) :
    ∃ A, s.Passes A R .notEqual v w ∧ r.Settles σ T A s := by
  cases htruth : s.constraint? w .boolean with
  | none => exact ⟨_, State.passes_of_open hs hv hw hwBoxed htruth, .inl fun x c hc => hc.1⟩
  | some c =>
    have hdomain := State.constraint?_domain htruth
    have hknown := hs.constraints (hdomain ▸ htruth)
    have hc : c = .truth b := by
      rcases hknown.of_bool hw with rfl | rfl
      · contradiction
      · rfl
    -- the literal is not connected with values whose truth gets known, so `v` is a box
    have hbox : v.isBoolean := by
      apply (hvBoxed.isBoolean_or hv).resolve_right
      rintro rfl
      exact hnull (hsides.2 (hknown.2 hdomain))
    have hvopen : s.constraint? v .boolean = none := by
      rw [Option.eq_none_iff_forall_not_mem]
      intro c' hc'
      have hdomain' := State.constraint?_domain hc'
      have hknown' : Known σ T v c' := hs.constraints (hdomain' ▸ hc')
      rw [hknown'.eq_null hv] at hdomain'
      contradiction
    refine ⟨_, State.passes_of_truth hs hv hw (hc ▸ hknown), .inr ⟨v, ?_, hv, fun x c hc => ?_⟩⟩
    · exact hopen hvopen (by rw [htruth]; exact nofun) hbox
    · rcases hc with hc | ⟨rfl, rfl⟩
      · exact .inl hc
      · exact .inr ⟨rfl, rfl⟩

theorem Fair.exists_passes (hr : r.Fair σ T) (hnull : ¬ T .null)
    (hs : s.Tracks (Known σ T) R) :
    ∃ A, s.Passes A R r.kind r.left r.right ∧ r.Settles σ T A s := by
  rcases hr.kind with hk | hk
  · rw [hk]
    have heval := hr.eval_eq hk
    exact ⟨Known σ T, ⟨known_single σ T, carries_equal heval hr.sides.1,
      carries_equal heval.symm hr.sides.2, hs⟩, .inl fun x c hc => hc⟩
  · rw [hk]
    have hne := hr.eval_ne hk
    rcases hr.left.eval_cases σ with hl | ⟨a, hl⟩
    · rcases hr.right.eval_cases σ with hr' | ⟨b, hr'⟩
      · exact absurd (hl.trans hr'.symm) hne
      · exact exists_passes_null hs hl hr' hr.left hr.right hr.sides hnull (openOperand?_left hk)
    · rcases hr.right.eval_cases σ with hr' | ⟨b, hr'⟩
      · obtain ⟨A, hpasses, hsettles⟩ := exists_passes_null hs hr' hl hr.right hr.left
          hr.sides.symm hnull (fun h h' => openOperand?_right hk h' h)
        exact ⟨A, hpasses.symm, hsettles⟩
      · have hb : b = !a := by
          rw [hl, hr'] at hne
          cases a <;> cases b <;> simp_all
        have ha : a = !b := by rw [hb, Bool.not_not]
        exact ⟨Known σ T, ⟨known_single σ T, carries_notEqual hl (hb ▸ hr') hr.sides.1,
          carries_notEqual hr' (ha ▸ hl) hr.sides.2, hs⟩, .inl fun x c hc => hc⟩

end

section

variable {σ : Nat → Option Bool} {T : Value → Prop} {R : Relation → Prop} {r : Relation}
  {assume : Value → Constraint → State → Outcomes} {budget : Budget}
  (hassume : ∀ {v c s}, v.Boxed → assume v c s = .ok (s.constrain? v c).toList)

include hassume

/-- An operand that is null instead of true or false has an outcome of its own. -/
theorem orNull_tracks {A : Value → Constraint → Prop} {v : Value} {states out : List State}
    (hv : v.Boxed) (hnull : v.eval (.boxes σ) = some .null)
    (hA : ∀ ⦃x c⦄, A x c → Known σ T x c ∨ x = v ∧ c.domain = .boolean)
    (hs : ∃ s ∈ states, s.Tracks A R) (h : orNull assume v states = .ok out) :
    ∃ t ∈ out, t.Tracks (Known σ T) R := by
  obtain ⟨s, hmem, hs⟩ := hs
  obtain ⟨l, hl⟩ := ok_of_each h hmem
  obtain ⟨nulls, hnulls, hl'⟩ := bind_eq_ok.1 hl
  cases hl'
  have hknown : Known σ T v .null := ⟨⟨_, hnull, rfl⟩, nofun⟩
  obtain ⟨t, ht, htracks⟩ :=
    assume_tracks hassume (known_single σ T) hv hknown (hs.release hA) hnulls
  exact ⟨t, (mem_each h).2 ⟨s, hmem, _, hl, List.mem_append_left _ ht⟩, htracks⟩

theorem Fair.record_tracks (hr : r.Fair σ T) (hnull : ¬ T .null) :
    Keeps (State.Tracks (Known σ T) (Fair σ T)) (r.record assume) := by
  intro s states hs h
  unfold record at h
  dsimp only at h
  have hs' : (if s.canReach r.left || s.canReach r.right then s.learn r else s).Tracks
      (Known σ T) (Fair σ T) := by
    split
    · exact hs.learn hr
    · exact hs
  obtain ⟨A, hpasses, hsettles⟩ := hr.exists_passes hnull hs'
  obtain ⟨mid, hmid, h⟩ := bind_eq_ok.1 h
  have hmid' := (transfer_tracks hassume hpasses.single hr.left hr.right hpasses.forth
    hpasses.back).both (transfer_tracks hassume hpasses.single hr.right hr.left hpasses.back
      hpasses.forth) hpasses.tracks hmid
  rcases hsettles with hA | ⟨v, hv, heval, hA⟩
  · have hmid' : ∃ t ∈ mid, t.Tracks (Known σ T) (Fair σ T) :=
      hmid'.imp fun t ht => ⟨ht.1, ht.2.mono hA⟩
    split at h
    next => exact orNull_keeps hmid' h
    next =>
      cases h
      exact hmid'
  · -- the truth value that got known of `v` is dropped again where `v` is null
    rw [hv] at h
    have hboxed : v.Boxed := by
      rcases openOperand?_operand hv with rfl | rfl
      · exact hr.left
      · exact hr.right
    exact orNull_tracks hassume hboxed heval hA hmid' h

theorem Fair.assumeHolds_tracks (hr : r.Fair σ T) (hnull : ¬ T .null) :
    Keeps (State.Tracks (Known σ T) (Fair σ T)) (r.assumeHolds assume budget) := by
  intro s states hs h
  rcases assumeHolds_cases h with ⟨_, rfl⟩ | ⟨found, hfound, h⟩
  · exact ⟨s, by simp, hs⟩
  · have hfair := closure_insert_induction hfound hr
      fun hd hk he => hd.deduce? (hs.relations _ hk) he
    rcases h with ⟨⟨i, hi, hruled⟩, _⟩ | ⟨_, h⟩
    · -- relations that hold do not rule each other out
      have hholds : ∀ k ∈ s.relations.toList, k.HoldsIn (.data (.boxes σ)) :=
        fun k hk => (hs.relations k hk).holdsIn
      exact absurd hruled (HoldsIn.resolve_ne hholds (hfair i hi).holdsIn)
    · exact Keeps.foldlM (fun i hi => (hfair i hi).record_tracks hassume hnull)
        ⟨s, by simp, hs⟩ h

end

theorem stable_boxed :
    Stable Value.Boxed fun s => ∀ k ∈ s.relations.toList, k.left.Boxed ∧ k.right.Boxed :=
  stable_known fun hv hw => by cases hv <;> contradiction

variable {σ : Nat → Option Bool} {T : Value → Prop} {r : Relation} {rs : List Relation}
  {budget : Budget}

theorem Fair.assume_tracks (hr : r.Fair σ T) (hnull : ¬ T .null) :
    Keeps (State.Tracks (Known σ T) (Fair σ T)) (r.assume true budget) := by
  intro s states hs h
  obtain ⟨levels, hlevels⟩ := r.assume_true budget s
  rw [hlevels] at h
  exact hr.assumeHolds_tracks (fun hv => Value.assumeAt_leaf hv.isLeaf budget levels _ _) hnull hs h

theorem Fair.assume_error (hr : r.Fair σ T) {s : State} {f : Failure}
    (hs : ∀ k ∈ s.relations.toList, k.left.Boxed ∧ k.right.Boxed)
    (h : r.assume true budget s = .error f) :
    ∃ used iterations, f = .relationsExceeded used iterations := by
  obtain ⟨levels, hlevels⟩ := r.assume_true budget s
  rw [hlevels] at h
  apply assumeHolds_error _ hr.left hr.right hs h
  exact fun v c hv s => ⟨_, Value.assumeAt_leaf hv.isLeaf budget levels c s⟩

theorem Fair.assume_boxed (hr : r.Fair σ T) :
    Preserves (fun s => ∀ k ∈ s.relations.toList, k.left.Boxed ∧ k.right.Boxed)
      (r.assume true budget) := by
  intro s states hs h
  obtain ⟨levels, hlevels⟩ := r.assume_true budget s
  rw [hlevels] at h
  apply assumeHolds_preserves stable_boxed _ hr.left hr.right hs h
  intro v c hv
  exact Value.assumeAt_preserves stable_boxed budget levels hv c

/-- Assuming fair comparisons runs out of budget or keeps an outcome that is true of the boxed
booleans. -/
theorem assumeAll_tracks (budget : Budget) (hrs : ∀ r ∈ rs, r.Fair σ T) (hnull : ¬ T .null)
    {states : List State}
    (hboxed : ∀ s ∈ states, ∀ k ∈ s.relations.toList, k.left.Boxed ∧ k.right.Boxed)
    (hs : ∃ s ∈ states, s.Tracks (Known σ T) (Fair σ T)) :
    (∃ used iterations, assumeAll rs budget states = .error (.relationsExceeded used iterations)) ∨
      ∃ out, assumeAll rs budget states = .ok out ∧
        ∃ t ∈ out, t.Tracks (Known σ T) (Fair σ T) := by
  induction rs generalizing states with
  | nil => exact .inr ⟨states, rfl, hs⟩
  | cons r rs ih =>
    have hr := hrs r (.head _)
    rw [assumeAll, List.foldlM_cons]
    cases hmid : Outcomes.each (r.assume true budget) states with
    | error f =>
      obtain ⟨s, hmem, hf⟩ := exists_of_each_error hmid
      obtain ⟨used, iterations, rfl⟩ := hr.assume_error (hboxed s hmem) hf
      exact .inl ⟨used, iterations, rfl⟩
    | ok mid =>
      exact ih (fun r hr => hrs r (.tail _ hr)) (hr.assume_boxed.each hboxed hmid)
        ((hr.assume_tracks hnull).each hs hmid)

def Connected (rs : List Relation) : Value → Value → Prop :=
  Relation.EqvGen fun v w => ∃ k : Kind, ⟨k, v, w⟩ ∈ rs

theorem Connected.iff {P : Value → Prop} {v w : Value} (h : Connected rs v w)
    (hrs : ∀ r ∈ rs, P r.left ↔ P r.right) : P v ↔ P w := by
  induction h with
  | rel v w h =>
    obtain ⟨k, hmem⟩ := h
    exact hrs _ hmem
  | refl v => rfl
  | symm v w _ ih => exact ih.symm
  | trans u v w _ _ ih ih' => exact ih.trans ih'

theorem connected_operands (h : r ∈ rs) : Connected rs r.left r.right :=
  .rel _ _ ⟨r.kind, h⟩

theorem tracks_empty {s : State} (hconstraints : s.constraints = State.empty.constraints)
    (hrelations : s.relations = ∅) (htrue : T .true) (hfalse : T .false) :
    s.Tracks (Known σ T) (Fair σ T) := by
  refine ⟨fun v c hc => ?_, by simp [hrelations]⟩
  obtain ⟨held, hheld, hget⟩ := Option.bind_eq_some_iff.1 hc
  obtain ⟨e, he, hev, rfl⟩ := State.constraintsOf?_eq_some.1 hheld
  have hmem := (Keyed.find?_eq_some_iff.1 hget).1
  have hlist : (State.empty.constraints.toList.flatMap fun e => e.2.toList.map (e.1, ·)) =
      [(.null, .null), (.true, .notNull), (.true, .truth true), (.false, .notNull),
        (.false, .truth false)] := by
    decide +kernel
  have hpair : (e.1, c) ∈ State.empty.constraints.toList.flatMap fun e =>
      e.2.toList.map (e.1, ·) :=
    List.mem_flatMap.2 ⟨e, hconstraints ▸ he, List.mem_map.2 ⟨c, hmem, rfl⟩⟩
  simp only [hlist, List.mem_cons, List.not_mem_nil, or_false, Prod.mk.injEq] at hpair
  have hleaf : e.1.isLeaf := by
    rcases hpair with ⟨h, _⟩ | ⟨h, _⟩ | ⟨h, _⟩ | ⟨h, _⟩ | ⟨h, _⟩ <;> rw [h] <;> rfl
  rw [(Value.equiv_leaf hleaf).1 (Setoid.symm hev)]
  rcases hpair with ⟨h, rfl⟩ | ⟨h, rfl⟩ | ⟨h, rfl⟩ | ⟨h, rfl⟩ | ⟨h, rfl⟩ <;> rw [h]
  · exact ⟨⟨.null, rfl, rfl⟩, nofun⟩
  · exact ⟨⟨.bool true, rfl, nofun⟩, nofun⟩
  · exact ⟨⟨.bool true, rfl, rfl⟩, fun _ => htrue⟩
  · exact ⟨⟨.bool false, rfl, nofun⟩, nofun⟩
  · exact ⟨⟨.bool false, rfl, rfl⟩, fun _ => hfalse⟩

/-- Where comparisons of boxed booleans do not connect `null` with a truth value, every choice of
the boxed booleans that they are true of has an outcome whose constraints and relations are all true
of it. -/
theorem assumeAll_boxed {s : State} (hconstraints : s.constraints = State.empty.constraints)
    (hrelations : s.relations = ∅) (hkind : ∀ r ∈ rs, r.kind = .equal ∨ r.kind = .notEqual)
    (hboxed : ∀ r ∈ rs, r.left.Boxed ∧ r.right.Boxed)
    (hrs : ∀ r ∈ rs, r.HoldsIn (.data (.boxes σ))) (htrue : ¬ Connected rs .null .true)
    (hfalse : ¬ Connected rs .null .false)
    (hbudget : ∀ used iterations,
      assumeAll rs budget [s] ≠ .error (.relationsExceeded used iterations)) :
    ∃ states, assumeAll rs budget [s] = .ok states ∧ ∃ t ∈ states,
      (∀ v c, t.constraint? v c.domain = some c →
        ∃ d, v.eval (.boxes σ) = some d ∧ Meaning.builtIn.fits c d) ∧
      ∀ k ∈ t.relations.toList, k.HoldsIn (.data (.boxes σ)) := by
  -- truth may get known of all values but those that comparisons connect with `null`
  let T : Value → Prop := fun v => ¬ Connected rs .null v
  have hfair : ∀ r ∈ rs, r.Fair σ T := by
    intro r hr
    have hconnected := connected_operands hr
    refine ⟨hkind r hr, (hboxed r hr).1, (hboxed r hr).2, hrs r hr, not_congr ⟨?_, ?_⟩⟩
    · intro h
      exact h.trans _ _ _ hconnected
    · intro h
      exact h.trans _ _ _ hconnected.symm
  have hnull : ¬ T .null := fun h => h (.refl _)
  have hstart : s.Tracks (Known σ T) (Fair σ T) :=
    tracks_empty hconstraints hrelations htrue hfalse
  have hnone : ∀ u ∈ [s], ∀ k ∈ u.relations.toList, k.left.Boxed ∧ k.right.Boxed := by
    simp [hrelations]
  rcases assumeAll_tracks budget hfair hnull hnone ⟨s, List.mem_singleton_self s, hstart⟩ with
    ⟨used, iterations, h⟩ | ⟨states, h, t, ht, htracks⟩
  · exact absurd h (hbudget used iterations)
  · exact ⟨states, h, t, ht, fun v c hc => (htracks.constraints hc).1,
      fun k hk => (htracks.relations k hk).holdsIn⟩

end Relation

def State.boxedPair : State := (empty.put "p" (.boolean 3)).put "q" (.boolean 4)

namespace Relation

/-- The second boxed boolean is the first one, which is neither true nor false. -/
def undecided : List Relation := [
  ⟨.notEqual, .boolean 3, .true⟩, ⟨.equal, .boolean 4, .boolean 3⟩,
  ⟨.notEqual, .boolean 4, .false⟩]

theorem assumeAll_boxed_undecided :
    (∀ r ∈ undecided, r.HoldsIn (.data (.boxes fun _ => none))) ∧
      ∃ states, assumeAll undecided {} [State.boxedPair] = .ok states ∧ ∃ t ∈ states,
        (∀ v c, t.constraint? v c.domain = some c →
          ∃ d, v.eval (.boxes fun _ => none) = some d ∧ Meaning.builtIn.fits c d) ∧
        ∀ k ∈ t.relations.toList, k.HoldsIn (.data (.boxes fun _ => none)) := by
  have hkind : ∀ r ∈ undecided, r.kind = .equal ∨ r.kind = .notEqual := by decide
  have hboxed : ∀ r ∈ undecided, r.left.Boxed ∧ r.right.Boxed := by
    simp only [undecided, List.forall_mem_cons]
    exact ⟨⟨.box 3, .literal (by decide)⟩, ⟨.box 4, .box 3⟩, ⟨.box 4, .literal (by decide)⟩, nofun⟩
  have hrs : ∀ r ∈ undecided, r.HoldsIn (.data (.boxes fun _ => none)) := by
    simp only [undecided, List.forall_mem_cons]
    exact ⟨nofun, rfl, nofun, nofun⟩
  have hnull {v : Value} (hv : v ≠ .null) : ¬ Connected undecided .null v := by
    intro h
    exact hv ((h.iff (P := fun v => v = .null) (by decide)).1 rfl)
  have hok : (assumeAll undecided {} [State.boxedPair]).isOk := by decide +kernel
  exact ⟨hrs, assumeAll_boxed rfl rfl hkind hboxed hrs (hnull (by decide)) (hnull (by decide))
    fun _ _ => ne_error_of_isOk hok _⟩

/-- A boxed boolean is null, and is compared with both truth values. -/
def absent : List Relation := [
  ⟨.equal, .boolean 3, .null⟩, ⟨.notEqual, .boolean 3, .true⟩, ⟨.notEqual, .boolean 3, .false⟩]

/-- Comparisons that are true of a boxed boolean which is null cannot be assumed: `null` itself is
taken to be the opposite of either truth value. -/
theorem assumeAll_refuses_absent :
    (∀ r ∈ absent, r.HoldsIn (.data (.boxes fun _ => none))) ∧
      (∀ r ∈ absent, r.left.Boxed ∧ r.right.Boxed) ∧
      assumeAll absent {} [State.boxedPair] = .ok [] := by
  refine ⟨?_, ?_, eq_ok_of_toOption (by decide +kernel)⟩
  · simp only [absent, List.forall_mem_cons]
    exact ⟨rfl, nofun, nofun, nofun⟩
  · simp only [absent, List.forall_mem_cons]
    exact ⟨⟨.box 3, .literal (by decide)⟩, ⟨.box 3, .literal (by decide)⟩,
      ⟨.box 3, .literal (by decide)⟩, nofun⟩

end Relation

end Pathwise
