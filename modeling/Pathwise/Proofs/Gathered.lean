import Pathwise.Proofs.Outcomes

namespace Pathwise

open Outcomes

/-- The id of a value without constraints that is no constant and that a variable is bound to. -/
structure State.Open (s : State) (id : Nat) : Prop where
  free : ¬ (Value.simple id).isConstant
  bound : ∃ name, s.value? name = some (.simple id)
  unconstrained : ∀ d, s.constraint? (.simple id) d = none

theorem State.Open.firstFreeId_le {s : State} {id : Nat} (h : s.Open id) :
    Value.firstFreeId ≤ id := by
  simpa [Value.isConstant] using h.free

theorem State.Open.of_put {s : State} {id : Nat} (name : String)
    (hfree : ¬ (Value.simple id).isConstant) (hname : s.value? name = some (.simple id))
    (hnone : s.constraintsOf? (.simple id) = none) : s.Open id := by
  refine ⟨hfree, ⟨name, hname⟩, fun d => ?_⟩
  rw [State.constraint?, hnone]
  rfl

theorem Value.references_self (v : Value) : v.references v := by
  unfold references
  simp [Setoid.refl]

theorem State.canReach_of_value? {s : State} {name : String} {v : Value}
    (h : s.value? name = some v) : s.canReach v := by
  obtain ⟨e, he, rfl⟩ := Option.map_eq_some_iff.1 h
  refine List.any_eq_true.2 ⟨e.2, ?_, Value.references_self e.2⟩
  have hmem := (Keyed.find?_eq_some_iff.1 he).1
  simp only [roots, List.mem_append, List.mem_map]
  exact .inl (.inr ⟨e, hmem, rfl⟩)

theorem ConstraintSet.toList_eq_nil {held : ConstraintSet} (h : ∀ d, held.get? d = none) :
    held.toList = [] := by
  refine List.eq_nil_iff_forall_not_mem.2 fun c hc => ?_
  have hget := Keyed.mem_toList_iff.1 hc
  rw [show held.find? c.domain = none from h c.domain] at hget
  contradiction

namespace Relation

variable {assume : Value → Constraint → State → Outcomes} {budget : Budget} {V : Nat → Prop}
  {r k e : Relation} {s : State} {K : Relations}

inductive Between (V : Nat → Prop) : Relation → Prop
  | intro {k : Kind} {x y : Nat} (hx : V x) (hy : V y) : Between V ⟨k, .simple x, .simple y⟩

theorem between_iff : r.Between V ↔
    (∃ x, V x ∧ r.left = .simple x) ∧ ∃ y, V y ∧ r.right = .simple y := by
  constructor
  · rintro ⟨hx, hy⟩
    exact ⟨⟨_, hx, rfl⟩, _, hy, rfl⟩
  · obtain ⟨k, l, m⟩ := r
    rintro ⟨⟨x, hx, rfl⟩, y, hy, rfl⟩
    exact .intro hx hy

theorem Between.deduce? (hr : r.Between V) (hk : k.Between V) (h : r.deduce? k = some e) :
    e.Between V := by
  rw [between_iff] at hr hk ⊢
  exact deduce?_operands (P := fun v => ∃ x, V x ∧ v = .simple x) hr hk h

theorem Between.closure (hr : r.Between V) (hK : ∀ k ∈ K.toList, k.Between V) {found : Relations}
    (hfound : r.closure K budget = .ok found) : ∀ i ∈ (found.insert r).toList, i.Between V :=
  closure_insert_induction hfound hr fun hd hk he => hd.deduce? (hK _ hk) he

theorem impose_of_unconstrained {held : ConstraintSet} (target : Value)
    (h : ∀ d, held.get? d = none) : r.impose assume target held s = .ok [s] := by
  rw [impose, ConstraintSet.toList_eq_nil h]
  rfl

theorem transfer_of_unconstrained {a b : Value} (ha : ∀ d, s.constraint? a d = none)
    (hb : ∀ d, s.constraint? b d = none) : r.transfer assume a b s = .ok [s] := by
  have hheld {v : Value} {held : ConstraintSet} (hv : ∀ d, s.constraint? v d = none)
      (hs : s.constraintsOf? v = some held) (d : Domain) : held.get? d = none := by
    have hd := hv d
    rwa [State.constraint?, hs] at hd
  unfold transfer
  split
  next held hs => exact impose_of_unconstrained b (hheld ha hs)
  next held _ hs => exact impose_of_unconstrained a (hheld hb hs)
  next => rfl

theorem Between.openOperand? (h : r.Between V) (s : State) : r.openOperand? s = none := by
  cases h
  unfold Relation.openOperand?
  split
  · split <;> rfl
  · split <;> rfl
  · rfl

theorem record_of_open (h : r.Between s.Open) :
    r.record assume { s with relations := K } = .ok [{ s with relations := K.insert r }] := by
  obtain ⟨⟨x, hx, hl⟩, y, hy, hr⟩ := between_iff.1 h
  obtain ⟨name, hname⟩ := hx.bound
  have hreach : State.canReach { s with relations := K } r.left := by
    rw [hl]
    exact State.canReach_of_value? hname
  let t : State := { s with relations := K.insert r }
  have hforth : r.transfer assume (.simple x) (.simple y) t = .ok [t] :=
    transfer_of_unconstrained hx.unconstrained hy.unconstrained
  have hback : r.transfer assume (.simple y) (.simple x) t = .ok [t] :=
    transfer_of_unconstrained hy.unconstrained hx.unconstrained
  have htransfer : Outcomes.both (r.transfer assume r.left r.right)
      (r.transfer assume r.right r.left) t = .ok [t] := by
    rw [hl, hr, Outcomes.both, hforth]
    change Outcomes.each _ [t] = _
    rw [each_cons, hback]
    rfl
  unfold record
  simp only [hreach, Bool.true_or, if_true, State.learn]
  rw [show Outcomes.both _ _ { s with relations := K.insert r } = _ from htransfer, h.openOperand?]
  rfl

theorem assume_true (r : Relation) (budget : Budget) (s : State) :
    ∃ levels, r.assume true budget s = r.assumeHolds (Value.assumeAt budget levels) budget s :=
  r.exists_assume_eq true budget s

end Relation

namespace Relations

def insertAll (K : Relations) (is : List Relation) : Relations := is.foldl (fun K i => K.insert i) K

theorem has_insertAll {K : Relations} {is : List Relation} {e : Relation} :
    (K.insertAll is).has e ↔ (∃ i ∈ is, i ≈ e) ∨ K.has e := by
  induction is generalizing K with
  | nil => simp [insertAll]
  | cons i is ih =>
    have hcons := ih (K := K.insert i)
    rw [has_insert] at hcons
    simp only [List.mem_cons, exists_eq_or_imp]
    exact hcons.trans (by grind)

theorem mem_insertAll {K : Relations} {is : List Relation} {e : Relation}
    (h : e ∈ (K.insertAll is).toList) : e ∈ is ∨ e ∈ K.toList := by
  induction is generalizing K with
  | nil => exact .inr h
  | cons i is ih =>
    rcases ih h with h | h
    · exact .inl (.tail _ h)
    · rcases mem_insert h with rfl | h
      · exact .inl (.head _)
      · exact .inr h

/-- Something that follows from `r` is ruled out. -/
def Excludes (K : Relations) (budget : Budget) (r : Relation) : Prop :=
  ∃ found, r.closure K budget = .ok found ∧
    ∃ i ∈ (found.insert r).toList, i.resolve K = .unfulfilled

/-- What is known once `r` is assumed: no more if it was known, and else all that follows from it,
if nothing of that is ruled out. -/
inductive Adds (K : Relations) (budget : Budget) (r : Relation) : Relations → Prop
  | known (h : K.has r) : Adds K budget r K
  | closure {found : Relations} (hfound : r.closure K budget = .ok found)
      (hresolve : ∀ i ∈ (found.insert r).toList, i.resolve K ≠ .unfulfilled) :
      Adds K budget r (K.insertAll (found.insert r).toList)

end Relations

namespace Relation

variable {budget : Budget} {s : State} {K : Relations} {r : Relation}

theorem foldlM_record {assume : Value → Constraint → State → Outcomes} {is : List Relation}
    (h : ∀ i ∈ is, i.Between s.Open) :
    is.foldlM (fun states i => Outcomes.each (i.record assume) states) [{ s with relations := K }] =
      .ok [{ s with relations := K.insertAll is }] := by
  induction is generalizing K with
  | nil => rfl
  | cons i is ih =>
    rw [List.foldlM_cons, each_cons, record_of_open (h i (.head _))]
    exact ih fun j hj => h j (.tail _ hj)

/-- Assuming a relation between open values runs out of budget, or is refused, or makes more
relations known. -/
theorem assume_of_open (budget : Budget) (hK : ∀ k ∈ K.toList, k.Between s.Open)
    (hr : r.Between s.Open) :
    (∃ used iterations, r.assume true budget { s with relations := K } =
        .error (.relationsExceeded used iterations)) ∨
      (r.assume true budget { s with relations := K } = .ok [] ∧ K.Excludes budget r) ∨
      ∃ L, r.assume true budget { s with relations := K } = .ok [{ s with relations := L }] ∧
        K.Adds budget r L := by
  obtain ⟨levels, hlevels⟩ := r.assume_true budget { s with relations := K }
  rw [hlevels, assumeHolds]
  by_cases hhas : K.has r
  · rw [if_pos hhas]
    exact .inr (.inr ⟨K, rfl, .known hhas⟩)
  rw [if_neg hhas]
  cases hfound : r.closure K budget with
  | error f =>
    obtain ⟨used, iterations, rfl⟩ := closure_error hfound
    exact .inl ⟨used, iterations, rfl⟩
  | ok found =>
    change _ ∨ (ite _ _ _ = _ ∧ _) ∨ ∃ L, ite _ _ _ = _ ∧ _
    by_cases hany : (found.insert r).toList.any fun i => i.resolve K == .unfulfilled
    · rw [if_pos hany]
      exact .inr (.inl ⟨rfl, found, hfound, by simpa using hany⟩)
    · rw [if_neg hany]
      exact .inr (.inr ⟨_, foldlM_record (hr.closure hK hfound),
        .closure hfound (by simpa using hany)⟩)

/-- Assumes that all the relations are true, one after the other. -/
def assumeAll (rs : List Relation) (budget : Budget) (states : List State) : Outcomes :=
  rs.foldlM (fun states r => Outcomes.each (r.assume true budget) states) states

theorem assumeAll_cons (r : Relation) (rs : List Relation) (budget : Budget) (s : State) :
    assumeAll (r :: rs) budget [s] =
      (r.assume true budget s).bind fun states => assumeAll rs budget states := by
  rw [assumeAll, List.foldlM_cons, each_cons]
  cases r.assume true budget s with
  | error f => rfl
  | ok states =>
    change assumeAll rs budget (states ++ []) = _
    rw [List.append_nil]
    rfl

theorem assumeAll_nil (rs : List Relation) (budget : Budget) : assumeAll rs budget [] = .ok [] := by
  induction rs with
  | nil => rfl
  | cons r rs ih => exact ih

theorem assumeAll_append (rs ss : List Relation) (budget : Budget) (states : List State) :
    assumeAll (rs ++ ss) budget states = (assumeAll rs budget states).bind (assumeAll ss budget) :=
  List.foldlM_append

/-- If each assumption runs out of budget, or refutes the relations assumed so far, or leaves one
state in which they are settled, so do all of them together. -/
theorem assumeAll_of_assume {I : Relations → List Relation → Prop} {J : List Relation → Prop}
    (happend : ∀ {ps rs}, J ps → J (ps ++ rs)) {rs : List Relation}
    (hassume : ∀ {K ps r}, I K ps → r ∈ rs →
      (∃ used iterations, r.assume true budget { s with relations := K } =
          .error (.relationsExceeded used iterations)) ∨
        (r.assume true budget { s with relations := K } = .ok [] ∧ J (ps ++ [r])) ∨
        ∃ L, r.assume true budget { s with relations := K } = .ok [{ s with relations := L }] ∧
          I L (ps ++ [r]))
    {ps : List Relation} (h : I K ps) :
    (∃ used iterations, assumeAll rs budget [{ s with relations := K }] =
        .error (.relationsExceeded used iterations)) ∨
      (assumeAll rs budget [{ s with relations := K }] = .ok [] ∧ J (ps ++ rs)) ∨
      ∃ L, assumeAll rs budget [{ s with relations := K }] = .ok [{ s with relations := L }] ∧
        I L (ps ++ rs) := by
  induction rs generalizing K ps with
  | nil => exact .inr (.inr ⟨K, rfl, by rwa [List.append_nil]⟩)
  | cons r rs ih =>
    have hassoc : ps ++ r :: rs = ps ++ [r] ++ rs := by simp
    rw [assumeAll_cons, hassoc]
    rcases hassume h (.head _) with
      ⟨used, iterations, hstep⟩ | ⟨hstep, hrefuted⟩ | ⟨L, hstep, hL⟩
    · rw [hstep]
      exact .inl ⟨used, iterations, rfl⟩
    · rw [hstep]
      exact .inr (.inl ⟨assumeAll_nil rs budget, happend hrefuted⟩)
    · rw [hstep]
      exact ih (fun h hq => hassume h (.tail _ hq)) hL

end Relation

namespace Relations

/-- The relations that are known after all of a list have been assumed, and none before. -/
inductive Gathered (budget : Budget) : Relations → List Relation → Prop
  | nil : Gathered budget ∅ []
  | snoc {K L : Relations} {rs : List Relation} {r : Relation} (h : Gathered budget K rs)
      (hadds : K.Adds budget r L) : Gathered budget L (rs ++ [r])

def Refused (budget : Budget) (rs : List Relation) : Prop :=
  ∃ ps r K, ps ++ [r] <+: rs ∧ Gathered budget K ps ∧ K.Excludes budget r

variable {budget : Budget} {K L : Relations} {rs : List Relation} {r : Relation} {V : Nat → Prop}

theorem Adds.forall_mem {P : Relation → Prop} (h : K.Adds budget r L)
    (hdeduce : ∀ {d k e}, P d → P k → d.deduce? k = some e → P e) (hK : ∀ k ∈ K.toList, P k)
    (hr : P r) : ∀ k ∈ L.toList, P k := by
  cases h with
  | known => exact hK
  | closure hfound _ =>
    intro k hk
    rcases mem_insertAll hk with hk | hk
    · exact Relation.closure_insert_induction hfound hr (fun hd hk => hdeduce hd (hK _ hk)) k hk
    · exact hK k hk

/-- What the assumed relations have and deduction keeps, all known relations have. -/
theorem Gathered.forall_mem {P : Relation → Prop} (h : Gathered budget K rs)
    (hdeduce : ∀ {d k e}, P d → P k → d.deduce? k = some e → P e) (hrs : ∀ r ∈ rs, P r) :
    ∀ k ∈ K.toList, P k := by
  induction h with
  | nil => simp
  | snoc _ hadds ih =>
    rw [List.forall_mem_append, List.forall_mem_singleton] at hrs
    exact hadds.forall_mem hdeduce (ih hrs.1) hrs.2

theorem Gathered.between (h : Gathered budget K rs) (hrs : ∀ r ∈ rs, r.Between V) :
    ∀ k ∈ K.toList, k.Between V :=
  h.forall_mem Relation.Between.deduce? hrs

theorem Refused.append {ss : List Relation} (h : Refused budget rs) :
    Refused budget (rs ++ ss) := by
  obtain ⟨ps, r, K, hpre, hK⟩ := h
  exact ⟨ps, r, K, hpre.trans (List.prefix_append rs ss), hK⟩

end Relations

namespace Relation

open Relations

variable {s : State} {rs ps : List Relation} {budget : Budget} {K : Relations} {r : Relation}

theorem assume_gathered (hK : Gathered budget K ps) (hps : ∀ p ∈ ps, p.Between s.Open)
    (hr : r.Between s.Open) :
    (∃ used iterations, r.assume true budget { s with relations := K } =
        .error (.relationsExceeded used iterations)) ∨
      (r.assume true budget { s with relations := K } = .ok [] ∧ Refused budget (ps ++ [r])) ∨
      ∃ L, r.assume true budget { s with relations := K } = .ok [{ s with relations := L }] ∧
        Gathered budget L (ps ++ [r]) ∧ ∀ p ∈ ps ++ [r], p.Between s.Open := by
  rcases assume_of_open budget (hK.between hps) hr with h | ⟨h, hexcludes⟩ | ⟨L, h, hadds⟩
  · exact .inl h
  · exact .inr (.inl ⟨h, ps, r, K, List.prefix_refl _, hK, hexcludes⟩)
  · refine .inr (.inr ⟨L, h, hK.snoc hadds, ?_⟩)
    rw [List.forall_mem_append, List.forall_mem_singleton]
    exact ⟨hps, hr⟩

/-- Assuming relations between open values where none are known refuses one of them or gathers
all. -/
theorem assumeAll_of_open (hrelations : s.relations = ∅) (hrs : ∀ r ∈ rs, r.Between s.Open)
    (hbudget : ∀ used iterations,
      assumeAll rs budget [s] ≠ .error (.relationsExceeded used iterations)) (i : Nat) :
    (assumeAll (rs.take i) budget [s] = .ok [] ∧ Refused budget (rs.take i)) ∨
      ∃ K, assumeAll (rs.take i) budget [s] = .ok [{ s with relations := K }] ∧
        Gathered budget K (rs.take i) := by
  have hstart : s = { s with relations := ∅ } := by rw [← hrelations]
  have htake : ∀ r ∈ rs.take i, r.Between s.Open := fun r hr => hrs r (List.mem_of_mem_take hr)
  have hall := assumeAll_of_assume
    (I := fun K ps => Gathered budget K ps ∧ ∀ p ∈ ps, p.Between s.Open) Refused.append
    (fun hK hr => assume_gathered hK.1 hK.2 (htake _ hr))
    ⟨.nil, List.forall_mem_nil _⟩
  rw [List.nil_append, ← hstart] at hall
  rcases hall with ⟨used, iterations, h⟩ | h | ⟨K, h, hK, _⟩
  · refine absurd ?_ (hbudget used iterations)
    rw [← List.take_append_drop i rs, assumeAll_append, h]
    rfl
  · exact .inl h
  · exact .inr ⟨K, h, hK⟩

end Relation

def State.corners : State :=
  (((empty.put "a" (.simple 3)).put "b" (.simple 4)).put "c" (.simple 5)).put "d" (.simple 6)

theorem State.corners_open {id : Nat} (h : id ∈ [3, 4, 5, 6]) : State.corners.Open id := by
  simp only [List.mem_cons, List.not_mem_nil, or_false] at h
  rcases h with rfl | rfl | rfl | rfl
  · exact .of_put "a" (by decide) (by decide +kernel) (by decide +kernel)
  · exact .of_put "b" (by decide) (by decide +kernel) (by decide +kernel)
  · exact .of_put "c" (by decide) (by decide +kernel) (by decide +kernel)
  · exact .of_put "d" (by decide) (by decide +kernel) (by decide +kernel)

end Pathwise
