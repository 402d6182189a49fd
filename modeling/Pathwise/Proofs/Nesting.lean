import Pathwise.Proofs.Conditions

namespace Pathwise

namespace Outcomes

/-- `x` is the answer `y`, unless the limit on nesting was reached on the way. -/
def Nears (x y : Outcomes) : Prop := x = .error .nestingExceeded ∨ x = y

theorem Nears.refl (x : Outcomes) : Nears x x := .inr rfl

theorem Nears.trans {x y z : Outcomes} (h : Nears x y) (h' : Nears y z) : Nears x z := by
  rcases h with h | rfl
  · exact .inl h
  · exact h'

theorem Nears.bind {x y : Outcomes} {f g : List State → Outcomes} (h : Nears x y)
    (hfg : ∀ states, Nears (f states) (g states)) : Nears (x.bind f) (y.bind g) := by
  rcases h with rfl | rfl
  · exact .inl rfl
  · cases x with
    | error e => exact .refl _
    | ok states => exact hfg states

variable {f f' g g' : State → Outcomes}

theorem Nears.each (hf : ∀ s, Nears (f s) (f' s)) (states : List State) :
    Nears (each f states) (each f' states) := by
  induction states with
  | nil => exact .refl _
  | cons s states ih =>
    rw [each_cons, each_cons]
    exact (hf s).bind fun a => ih.bind fun b => .refl _

theorem Nears.both (hf : ∀ s, Nears (f s) (f' s)) (hg : ∀ s, Nears (g s) (g' s)) (s : State) :
    Nears (both f g s) (both f' g' s) :=
  (hf s).bind fun states => .each hg states

theorem Nears.either (hf : ∀ s, Nears (f s) (f' s)) (hg : ∀ s, Nears (g s) (g' s)) (s : State) :
    Nears (either f g s) (either f' g' s) :=
  (hf s).bind fun _ => (hg s).bind fun _ => .refl _

theorem Nears.foldlM {α : Type} {F G : α → State → Outcomes} (hF : ∀ a s, Nears (F a s) (G a s))
    (as : List α) (states : List State) :
    Nears (as.foldlM (fun states a => Outcomes.each (F a) states) states)
      (as.foldlM (fun states a => Outcomes.each (G a) states) states) := by
  induction as generalizing states with
  | nil => exact .refl _
  | cons a as ih =>
    rw [List.foldlM_cons, List.foldlM_cons]
    exact (Nears.each (hF a) states).bind ih

end Outcomes

open Outcomes

theorem LogicalOp.split_nears {f f' g g' : Bool → State → Outcomes}
    (hf : ∀ b s, Nears (f b s) (f' b s)) (hg : ∀ b s, Nears (g b s) (g' b s)) (op : LogicalOp)
    (b : Bool) (s : State) : Nears (op.split b f g s) (op.split b f' g' s) :=
  op.split_related (R := fun f f' => ∀ s, Nears (f s) (f' s)) Nears.both Nears.either hf hg b s

namespace Value

variable {relate relate' : Relation → Bool → State → Outcomes}
  (hrelate : ∀ r b s, Nears (relate r b s) (relate' r b s))

include hrelate

theorem assumeTruth_nears (v : Value) (b : Bool) (s : State) :
    Nears (v.assumeTruth relate b s) (v.assumeTruth relate' b s) := by
  induction v generalizing b s with
  | simple | boolean => exact .refl _
  | not id w ih =>
    simp only [assumeTruth]
    split
    next t _ => exact ih (!b) t
    next => exact .refl _
  | binary id op l r ihl ihr =>
    simp only [assumeTruth]
    split
    next t _ => exact op.split_nears ihl ihr b t
    next => exact .refl _
  | relational k l r => exact hrelate ⟨k, l, r⟩ b s

theorem assumeWith_nears (v : Value) (c : Constraint) (s : State) :
    Nears (v.assumeWith relate c s) (v.assumeWith relate' c s) := by
  unfold assumeWith
  split
  next b _ => exact assumeTruth_nears hrelate v b s
  next => exact .refl _

end Value

namespace Relation

variable {assume assume' : Value → Constraint → State → Outcomes}
  (hassume : ∀ v c s, Nears (assume v c s) (assume' v c s))

include hassume

theorem transfer_nears (r : Relation) (a b : Value) (s : State) :
    Nears (r.transfer assume a b s) (r.transfer assume' a b s) := by
  unfold transfer
  split
  · exact .foldlM (hassume b) _ _
  · exact .foldlM (hassume a) _ _
  · exact .refl _

theorem orNull_nears (v : Value) (states : List State) :
    Nears (orNull assume v states) (orNull assume' v states) :=
  .each (fun s => (hassume v .null (s.release v .boolean)).bind fun _ => .refl _) states

theorem record_nears (r : Relation) (s : State) :
    Nears (r.record assume s) (r.record assume' s) := by
  unfold record
  dsimp only
  apply (Nears.both (transfer_nears hassume r _ _) (transfer_nears hassume r _ _) _).bind
  intro states
  split
  next v _ => exact orNull_nears hassume v states
  next => exact .refl _

theorem assumeWith_nears (budget : Budget) (r : Relation) (b : Bool) (s : State) :
    Nears (r.assumeWith assume budget b s) (r.assumeWith assume' budget b s) := by
  unfold assumeWith assumeHolds
  generalize (if b then r else r.inverse) = r
  split
  · exact .refl _
  · cases r.closure s.relations budget with
    | error => exact .refl _
    | ok found =>
      change Nears (ite _ _ _) (ite _ _ _)
      split
      · exact .refl _
      · exact .foldlM (record_nears hassume) _ _

end Relation

namespace Value

theorem assumeAt_nears_succ (budget : Budget) (levels : Nat) (v : Value) (c : Constraint)
    (s : State) : Nears (v.assumeAt budget levels c s) (v.assumeAt budget (levels + 1) c s) := by
  induction levels generalizing v c s with
  | zero => exact assumeWith_nears (fun _ _ _ => .inl rfl) v c s
  | succ levels ih => exact assumeWith_nears (Relation.assumeWith_nears ih budget) v c s

/-- A larger limit on nesting changes no answer but that the limit is reached. -/
theorem assumeAt_nears (budget : Budget) {levels levels' : Nat} (h : levels ≤ levels') (v : Value)
    (c : Constraint) (s : State) :
    Nears (v.assumeAt budget levels c s) (v.assumeAt budget levels' c s) := by
  induction h with
  | refl => exact .refl _
  | step _ ih => exact ih.trans (assumeAt_nears_succ budget _ v c s)

end Value

namespace Outcomes

/-- Where a state has the property, the limit on nesting is not reached, and all outcomes have it. -/
structure Concludes (I : State → Prop) (f : State → Outcomes) : Prop where
  ends : ∀ {s}, I s → f s ≠ .error .nestingExceeded
  preserves : Preserves I f

variable {I : State → Prop} {f g : State → Outcomes}

theorem Concludes.both (hf : Concludes I f) (hg : Concludes I g) : Concludes I (both f g) where
  ends := by
    intro s hs h
    rcases bind_eq_error.1 h with h | ⟨states, hstates, h⟩
    · exact hf.ends hs h
    · obtain ⟨t, ht, h⟩ := exists_of_each_error h
      exact hg.ends (hf.preserves hs hstates t ht) h
  preserves := hf.preserves.both hg.preserves

theorem Concludes.either (hf : Concludes I f) (hg : Concludes I g) : Concludes I (either f g) where
  ends := by
    intro s hs h
    rcases bind_eq_error.1 h with h | ⟨_, _, h⟩
    · exact hf.ends hs h
    · rcases bind_eq_error.1 h with h | ⟨_, _, h⟩
      · exact hg.ends hs h
      · contradiction
  preserves := hf.preserves.either hg.preserves

end Outcomes

theorem LogicalOp.split_concludes {I : State → Prop} {f g : Bool → State → Outcomes}
    (hf : ∀ b, Concludes I (f b)) (hg : ∀ b, Concludes I (g b)) (op : LogicalOp) (b : Bool) :
    Concludes I (op.split b f g) :=
  op.split_closed Concludes.both Concludes.either hf hg b

def State.Unnested (s : State) : Prop :=
  ∀ k ∈ s.relations.toList, k.left.isLogical ∧ k.right.isLogical

/-- Whether the relations in the value are between conditions. -/
def Value.isFlat : Value → Bool
  | simple _ | boolean _ => .true
  | not _ v => v.isFlat
  | binary _ _ l r => l.isFlat && r.isFlat
  | relational _ l r => l.isLogical && r.isLogical

theorem Value.isLogical_operand {v w : Value} (hv : v.isLogical) (hw : w ∈ v.operands) :
    w.isLogical := by
  cases v with
  | simple | boolean => contradiction
  | not => exact List.mem_singleton.1 hw ▸ hv
  | binary =>
    obtain ⟨hl, hr⟩ := isLogical_binary.1 hv
    rcases List.mem_cons.1 hw with rfl | hw
    · exact hl
    · exact List.mem_singleton.1 hw ▸ hr
  | relational => contradiction

theorem State.Unnested.of_constrain? {s t : State} {v : Value} {c : Constraint} (hs : s.Unnested)
    (h : s.constrain? v c = some t) : t.Unnested := by
  rwa [Unnested, relations_of_constrain? h]

theorem State.stable_unnested : Stable (fun v => v.isLogical) State.Unnested :=
  stable_known Value.isLogical_operand

namespace Value

variable {v : Value}

theorem assumeAt_total (hv : v.isLogical) (budget : Budget) (levels : Nat) (c : Constraint) :
    Total (v.assumeAt budget levels c) := by
  have hwith (relate : Relation → Bool → State → Outcomes) : Total (v.assumeWith relate c) := by
    intro s
    unfold assumeWith
    split
    next b _ => exact assumeTruth_total hv b s
    next => exact ⟨_, rfl⟩
  cases levels with
  | zero => exact hwith _
  | succ levels => exact hwith _

end Value

/-- A relation between conditions needs no nesting. -/
theorem Relation.assumeWith_concludes (budget : Budget) (levels : Nat) {r : Relation}
    (hl : r.left.isLogical) (hr : r.right.isLogical) (b : Bool) :
    Concludes State.Unnested (r.assumeWith (Value.assumeAt budget levels) budget b) where
  ends := by
    intro s hs h
    have hholds {r : Relation} (hl : r.left.isLogical) (hr : r.right.isLogical)
        (h : r.assumeHolds (Value.assumeAt budget levels) budget s = .error .nestingExceeded) :
        False := by
      obtain ⟨used, iterations, hf⟩ := assumeHolds_error (P := fun v => v.isLogical)
        (fun v c hv => Value.assumeAt_total hv budget levels c) hl hr hs h
      contradiction
    cases b with
    | true => exact hholds hl hr h
    | false => exact hholds (r := r.inverse) hl hr h
  preserves := by
    apply assumeWith_preserves State.stable_unnested _ hl hr
    exact fun v c hv => Value.assumeAt_preserves State.stable_unnested budget levels hv c

namespace Value

variable {v : Value} {s : State}

theorem constrain_concludes (v : Value) (c : Constraint) :
    Concludes State.Unnested fun s => .ok (s.constrain? v c).toList where
  ends _ h := by contradiction
  preserves := by
    intro s states hs h t ht
    cases h
    exact hs.of_constrain? (Option.mem_toList.1 ht)

theorem constrain_then_concludes {f : State → Outcomes} (hf : Concludes State.Unnested f) (v : Value)
    (c : Constraint) :
    Concludes State.Unnested fun s =>
      match s.constrain? v c with
      | some s => f s
      | none => .ok [] where
  ends := by
    intro s hs
    split
    next t ht => exact hf.ends (hs.of_constrain? ht)
    next => exact fun h => by contradiction
  preserves := by
    intro s states hs h
    dsimp only at h
    split at h
    next t ht => exact hf.preserves (hs.of_constrain? ht) h
    next =>
      cases h
      exact List.forall_mem_nil _

theorem assumeTruth_concludes {relate : Relation → Bool → State → Outcomes}
    (hrelate : ∀ r b, r.left.isLogical → r.right.isLogical → Concludes State.Unnested (relate r b))
    (hv : v.isFlat) (b : Bool) : Concludes State.Unnested (v.assumeTruth relate b) := by
  induction v generalizing b with
  | simple | boolean => exact constrain_concludes _ (.truth b)
  | not id w ih => exact constrain_then_concludes (ih hv (!b)) _ (.truth b)
  | binary id op l r ihl ihr =>
    obtain ⟨hl, hr⟩ := Bool.and_eq_true_iff.1 hv
    exact constrain_then_concludes (op.split_concludes (ihl hl) (ihr hr) b) _ (.truth b)
  | relational k l r =>
    obtain ⟨hl, hr⟩ := Bool.and_eq_true_iff.1 hv
    exact hrelate ⟨k, l, r⟩ b hl hr

theorem assumeWith_concludes {relate : Relation → Bool → State → Outcomes}
    (hrelate : ∀ r b, r.left.isLogical → r.right.isLogical → Concludes State.Unnested (relate r b))
    (hv : v.isFlat) (c : Constraint) : Concludes State.Unnested (v.assumeWith relate c) := by
  unfold assumeWith
  cases c.truth? with
  | none => exact constrain_concludes v c
  | some b => exact assumeTruth_concludes hrelate hv b

/-- One level is enough for relations between conditions. -/
theorem assumeAt_concludes (hv : v.isFlat) (budget : Budget) (levels : Nat) (c : Constraint) :
    Concludes State.Unnested (v.assumeAt budget (levels + 1) c) :=
  assumeWith_concludes (fun _ b hl hr => Relation.assumeWith_concludes budget levels hl hr b) hv c

end Value

/-- If relations are between conditions, in the value and among those known, then every assumption
about the value ends: its answer is not that the limit on nesting is reached, and it is the same
whatever limit there is. -/
theorem Value.assume_ends {v : Value} {s : State} (hv : v.isFlat) (hs : s.Unnested) (c : Constraint)
    (budget : Budget) :
    v.assume c budget s ≠ .error .nestingExceeded ∧
      ∀ levels, 0 < levels → v.assumeAt budget levels c s = v.assume c budget s := by
  have hends (levels : Nat) : v.assumeAt budget (levels + 1) c s ≠ .error .nestingExceeded :=
    (assumeAt_concludes hv budget levels c).ends hs
  have hone (levels : Nat) (h : 0 < levels) :
      v.assumeAt budget 1 c s = v.assumeAt budget levels c s :=
    (assumeAt_nears budget h v c s).resolve_left (hends 0)
  have hassume := hone _ (s.nestingLimit_pos v)
  refine ⟨fun h => hends 0 (hassume.trans h), fun levels h => ?_⟩
  rw [← hone levels h, hassume, assume]

/-- `!(x == y) & p`, for opaque values and a boxed boolean. -/
def Value.apart : Value :=
  .binary 7 .and (.not 6 (.relational .equal (.simple 3) (.simple 4))) (.boolean 5)

def State.atLeast : State :=
  ((State.empty.put "x" (.simple 3)).put "y" (.simple 4)).learn
    ⟨.greaterOrEqual, .simple 3, .simple 4⟩

theorem assume_ends_apart :
    Value.apart.isFlat ∧ State.atLeast.Unnested ∧
      (Value.apart.assume (.truth true) {} .atLeast).isOk ∧
      Value.apart.assume (.truth true) {} .atLeast ≠ .error .nestingExceeded ∧
      ∀ levels, 0 < levels →
        Value.apart.assumeAt {} levels (.truth true) .atLeast =
          Value.apart.assume (.truth true) {} .atLeast := by
  have hunnested : State.atLeast.Unnested := by
    unfold State.Unnested
    decide +kernel
  exact ⟨rfl, hunnested, by decide +kernel, Value.assume_ends rfl hunnested (.truth true) {}⟩

namespace Relation

variable {assume : Value → Constraint → State → Outcomes} {r : Relation} {s : State}

theorem transfer_truth (hr : r.kind = .equal) {v w : Value}
    (hv : s.constraintsOf? v = some (.ofList [.truth true])) :
    r.transfer assume v w s = assume w (.truth true) s := by
  rw [transfer, hv]
  dsimp only
  rw [impose, hr]
  change (each (assume w (.truth true)) [s]).bind Except.ok = _
  rw [each_cons]
  cases assume w (.truth true) s with
  | error e => rfl
  | ok states => exact congrArg Except.ok (List.append_nil states)

theorem record_truth (hr : r.kind = .equal) (hl : s.canReach r.left = false)
    (hright : s.canReach r.right = false)
    (hheld : s.constraintsOf? r.left = some (.ofList [.truth true])) :
    r.record assume s =
      (assume r.right (.truth true) s).bind (each (r.transfer assume r.right r.left)) := by
  have hopen : r.openOperand? s = none := by rw [openOperand?, hr]
  simp only [record, hl, hright, Bool.or_self, Bool.false_eq_true, if_false, hopen, both,
    transfer_truth hr hheld]
  exact bind_pure _

def twins : Relation := ⟨.equal, .simple 3, .simple 4⟩

def echo : Relation := ⟨.equal, .simple 4, twins.toValue⟩

end Relation

/-- Both `x` and `y` are true, and `x` is whether `x == y`. None of them can be observed. -/
def State.circular : State :=
  { State.empty with
    constraints := (State.empty.constraints.insert (.simple 3, .ofList [.truth true])).insert
      (.simple 4, .ofList [.truth true])
    relations := .ofList [⟨.equal, .simple 3, Relation.twins.toValue⟩] }

namespace Relation

variable {assume : Value → Constraint → State → Outcomes}

/-- That `y` is whether `x == y` follows from `x == y`, which is assumed all over again for `y`. -/
theorem assumeHolds_circular
    (hx : assume (.simple 3) (.truth true) .circular = .ok [.circular])
    (hy : assume (.simple 4) (.truth true) .circular = .ok [.circular]) {e : Failure}
    (hself : assume twins.toValue (.truth true) .circular = .error e) :
    twins.assumeHolds assume {} .circular = .error e := by
  have hheld : State.circular.constraintsOf? (.simple 3) = some (.ofList [.truth true]) ∧
      State.circular.constraintsOf? (.simple 4) = some (.ofList [.truth true]) := by
    decide +kernel
  have hreach : State.circular.canReach (.simple 3) = false ∧
      State.circular.canReach (.simple 4) = false ∧
      State.circular.canReach twins.toValue = false := by
    decide +kernel
  have hclosure : (twins.closure State.circular.relations {}).toOption.map
      (fun found => (found.insert twins).toList) = some [twins, echo] := by
    decide +kernel
  obtain ⟨found, hfound, himplied⟩ := Option.map_eq_some_iff.1 hclosure
  have htwins : twins.record assume .circular = .ok [.circular] := by
    rw [record_truth rfl hreach.1 hreach.2.1 hheld.1, twins, hy]
    change each _ [State.circular] = _
    rw [each_cons, transfer_truth rfl hheld.2, hx]
    rfl
  have hecho : echo.record assume .circular = .error e := by
    rw [record_truth rfl hreach.2.1 hreach.2.2 hheld.2, echo, hself]
    rfl
  unfold assumeHolds
  rw [if_neg (by decide +kernel), eq_ok_of_toOption hfound]
  change ite _ _ _ = _
  rw [himplied, if_neg (by decide +kernel), List.foldlM_cons]
  change (each _ [State.circular]).bind _ = _
  rw [each_cons, htwins]
  change (each _ [State.circular]).bind _ = _
  rw [each_cons, hecho]
  rfl

end Relation

/-- Where a relation is about itself, no limit on nesting is large enough. -/
theorem Value.assumeAt_circular (levels : Nat) :
    Relation.twins.toValue.assumeAt {} levels (.truth .true) State.circular =
      .error .nestingExceeded := by
  induction levels with
  | zero => rfl
  | succ levels ih =>
    have hheld {v : Value} (hv : v.isLeaf)
        (htrue : State.circular.constrain? v (.truth .true) = some .circular) :
        v.assumeAt {} levels (.truth .true) State.circular = .ok [.circular] := by
      rw [assumeAt_leaf hv, htrue]
      rfl
    exact Relation.assumeHolds_circular (hheld rfl (by decide +kernel))
      (hheld rfl (by decide +kernel)) ih

end Pathwise
