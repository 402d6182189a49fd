import Pathwise.Assumption
import Pathwise.Proofs.Closure
import Pathwise.Proofs.Constraints

namespace Pathwise

theorem bind_eq_ok {ε α β : Type} {x : Except ε α} {f : α → Except ε β} {b : β} :
    x.bind f = .ok b ↔ ∃ a, x = .ok a ∧ f a = .ok b := by
  cases x with
  | error e => simp [Except.bind]
  | ok a => simp [Except.bind]

theorem bind_eq_error {ε α β : Type} {x : Except ε α} {f : α → Except ε β} {e : ε} :
    x.bind f = .error e ↔ x = .error e ∨ ∃ a, x = .ok a ∧ f a = .error e := by
  cases x with
  | error e' => simp [Except.bind]
  | ok a => simp [Except.bind]

theorem eq_ok_of_toOption {ε α : Type} {x : Except ε α} {a : α} (h : x.toOption = some a) :
    x = .ok a := by
  cases x with
  | error e => contradiction
  | ok b => exact congrArg _ (Option.some.inj h)

theorem ne_error_of_isOk {ε α : Type} {x : Except ε α} (h : x.isOk) (e : ε) : x ≠ .error e := by
  rintro rfl
  contradiction

namespace Outcomes

@[simp] theorem each_nil (f : State → Outcomes) : each f [] = .ok [] := rfl

theorem each_cons (f : State → Outcomes) (s : State) (states : List State) :
    each f (s :: states) = (f s).bind fun a => (each f states).bind fun b => .ok (a ++ b) := by
  simp only [each, List.mapM_cons, bind, pure, Except.bind, Except.pure]
  cases f s with
  | error e => rfl
  | ok a => cases states.mapM f <;> rfl

theorem mem_each {f : State → Outcomes} {states out : List State} (h : each f states = .ok out)
    {t : State} : t ∈ out ↔ ∃ s ∈ states, ∃ l, f s = .ok l ∧ t ∈ l := by
  induction states generalizing out with
  | nil =>
    cases h
    simp
  | cons s states ih =>
    rw [each_cons] at h
    obtain ⟨a, ha, h⟩ := bind_eq_ok.1 h
    obtain ⟨b, hb, h⟩ := bind_eq_ok.1 h
    cases h
    simp [ih hb, ha]

theorem ok_of_each {f : State → Outcomes} {states out : List State} (h : each f states = .ok out)
    {s : State} (hs : s ∈ states) : ∃ l, f s = .ok l := by
  induction states generalizing out with
  | nil => contradiction
  | cons s' states ih =>
    rw [each_cons] at h
    obtain ⟨a, ha, h⟩ := bind_eq_ok.1 h
    obtain ⟨b, hb, _⟩ := bind_eq_ok.1 h
    rcases List.mem_cons.1 hs with rfl | hs
    · exact ⟨a, ha⟩
    · exact ih hb hs

theorem exists_of_each_error {f : State → Outcomes} {states : List State} {e : Failure}
    (h : each f states = .error e) : ∃ s ∈ states, f s = .error e := by
  induction states with
  | nil => contradiction
  | cons s states ih =>
    rw [each_cons] at h
    cases hs : f s with
    | error e' =>
      rw [hs] at h
      cases h
      exact ⟨s, .head _, hs⟩
    | ok a =>
      rw [hs] at h
      cases hrest : each f states with
      | error e' =>
        rw [hrest] at h
        cases h
        obtain ⟨t, ht, hf⟩ := ih hrest
        exact ⟨t, .tail _ ht, hf⟩
      | ok b =>
        rw [hrest] at h
        contradiction

/-- All outcomes have a property that the state has. -/
def Preserves (I : State → Prop) (f : State → Outcomes) : Prop :=
  ∀ ⦃s states⦄, I s → f s = .ok states → ∀ t ∈ states, I t

/-- Whatever the state, there are outcomes. -/
def Total (f : State → Outcomes) : Prop := ∀ s, ∃ states, f s = .ok states

/-- Some outcome has a property that the state has. -/
def Keeps (I : State → Prop) (f : State → Outcomes) : Prop :=
  ∀ ⦃s states⦄, I s → f s = .ok states → ∃ t ∈ states, I t

section

variable {I : State → Prop} {f g : State → Outcomes}

theorem Preserves.each (hf : Preserves I f) {states out : List State} (hs : ∀ s ∈ states, I s)
    (h : Outcomes.each f states = .ok out) : ∀ t ∈ out, I t := by
  intro t ht
  obtain ⟨s, hmem, l, hl, ht⟩ := (mem_each h).1 ht
  exact hf (hs s hmem) hl t ht

theorem Preserves.both (hf : Preserves I f) (hg : Preserves I g) :
    Preserves I (Outcomes.both f g) := by
  intro s states hs h
  obtain ⟨a, ha, h⟩ := bind_eq_ok.1 h
  exact hg.each (hf hs ha) h

theorem Preserves.either (hf : Preserves I f) (hg : Preserves I g) :
    Preserves I (Outcomes.either f g) := by
  intro s states hs h
  obtain ⟨a, ha, h⟩ := bind_eq_ok.1 h
  obtain ⟨b, hb, h⟩ := bind_eq_ok.1 h
  cases h
  intro t ht
  exact (List.mem_append.1 ht).elim (hf hs ha t) (hg hs hb t)

theorem Preserves.foldlM {α : Type} {F : α → State → Outcomes} {as : List α}
    (hF : ∀ a ∈ as, Preserves I (F a)) {states out : List State} (hs : ∀ s ∈ states, I s)
    (h : as.foldlM (fun states a => Outcomes.each (F a) states) states = .ok out) :
    ∀ t ∈ out, I t := by
  induction as generalizing states with
  | nil =>
    cases h
    exact hs
  | cons a as ih =>
    obtain ⟨mid, hmid, h⟩ := bind_eq_ok.1 h
    exact ih (fun b hb => hF b (.tail _ hb)) ((hF a (.head _)).each hs hmid) h

theorem Total.each (hf : Total f) (states : List State) :
    ∃ out, Outcomes.each f states = .ok out := by
  induction states with
  | nil => exact ⟨[], rfl⟩
  | cons s states ih =>
    obtain ⟨a, ha⟩ := hf s
    obtain ⟨b, hb⟩ := ih
    refine ⟨a ++ b, ?_⟩
    rw [each_cons, ha, hb]
    rfl

theorem Total.both (hf : Total f) (hg : Total g) : Total (Outcomes.both f g) := by
  intro s
  obtain ⟨a, ha⟩ := hf s
  rw [Outcomes.both, ha]
  exact hg.each a

theorem Total.either (hf : Total f) (hg : Total g) : Total (Outcomes.either f g) := by
  intro s
  obtain ⟨a, ha⟩ := hf s
  obtain ⟨b, hb⟩ := hg s
  refine ⟨a ++ b, ?_⟩
  rw [Outcomes.either, ha, hb]
  rfl

theorem Total.foldlM {α : Type} {F : α → State → Outcomes} {as : List α}
    (hF : ∀ a ∈ as, Total (F a)) (states : List State) :
    ∃ out, as.foldlM (fun states a => Outcomes.each (F a) states) states = .ok out := by
  induction as generalizing states with
  | nil => exact ⟨states, rfl⟩
  | cons a as ih =>
    obtain ⟨mid, hmid⟩ := (hF a (.head _)).each states
    rw [List.foldlM_cons, hmid]
    exact ih (fun b hb => hF b (.tail _ hb)) mid

theorem Keeps.each (hf : Keeps I f) {states out : List State} (hs : ∃ s ∈ states, I s)
    (h : Outcomes.each f states = .ok out) : ∃ t ∈ out, I t := by
  obtain ⟨s, hmem, hs⟩ := hs
  obtain ⟨l, hl⟩ := ok_of_each h hmem
  obtain ⟨t, ht, hIt⟩ := hf hs hl
  exact ⟨t, (mem_each h).2 ⟨s, hmem, l, hl, ht⟩, hIt⟩

theorem Keeps.both (hf : Keeps I f) (hg : Keeps I g) : Keeps I (Outcomes.both f g) := by
  intro s states hs h
  obtain ⟨a, ha, h⟩ := bind_eq_ok.1 h
  exact hg.each (hf hs ha) h

theorem Keeps.either_left (hf : Keeps I f) : Keeps I (Outcomes.either f g) := by
  intro s states hs h
  obtain ⟨a, ha, h⟩ := bind_eq_ok.1 h
  obtain ⟨b, hb, h⟩ := bind_eq_ok.1 h
  cases h
  obtain ⟨t, ht, hIt⟩ := hf hs ha
  exact ⟨t, List.mem_append_left _ ht, hIt⟩

theorem Keeps.either_right (hg : Keeps I g) : Keeps I (Outcomes.either f g) := by
  intro s states hs h
  obtain ⟨a, ha, h⟩ := bind_eq_ok.1 h
  obtain ⟨b, hb, h⟩ := bind_eq_ok.1 h
  cases h
  obtain ⟨t, ht, hIt⟩ := hg hs hb
  exact ⟨t, List.mem_append_right _ ht, hIt⟩

theorem Keeps.foldlM {α : Type} {F : α → State → Outcomes} {as : List α}
    (hF : ∀ a ∈ as, Keeps I (F a)) {states out : List State} (hs : ∃ s ∈ states, I s)
    (h : as.foldlM (fun states a => Outcomes.each (F a) states) states = .ok out) :
    ∃ t ∈ out, I t := by
  induction as generalizing states with
  | nil =>
    cases h
    exact hs
  | cons a as ih =>
    obtain ⟨mid, hmid, h⟩ := bind_eq_ok.1 h
    exact ih (fun b hb => hF b (.tail _ hb)) ((hF a (.head _)).each hs hmid) h

end

end Outcomes

open Outcomes

/-- A property that is kept by adding constraints to values with property `P`, which their operands
have again. -/
structure Additive (P : Value → Prop) (I : State → Prop) : Prop where
  operand : ∀ {v w}, P v → w ∈ v.operands → P w
  constrain : ∀ {s t v c}, I s → P v → s.constrain? v c = some t → I t

structure Steady (P : Value → Prop) (I : State → Prop) : Prop extends Additive P I where
  known : ∀ {s r}, I s → r ∈ s.relations.toList → P r.left ∧ P r.right
  learn : ∀ {s r}, I s → P r.left → P r.right → I (s.learn r)

/-- A property that is kept by what assumptions do, for values with property `P`. -/
structure Stable (P : Value → Prop) (I : State → Prop) : Prop extends Steady P I where
  release : ∀ {s v d}, I s → P v → I (s.release v d)

variable {P : Value → Prop} {I : State → Prop}

/-- That the known relations are between values of one sort is kept, if operands are of that sort
again. -/
theorem stable_known (hoperand : ∀ {v w}, P v → w ∈ v.operands → P w) :
    Stable P fun s => ∀ k ∈ s.relations.toList, P k.left ∧ P k.right where
  operand := hoperand
  known hs hr := hs _ hr
  constrain hs _ h := by rwa [State.relations_of_constrain? h]
  release hs _ := by rwa [State.relations_release]
  learn hs hl hr k hk := by
    rcases Relations.mem_insert hk with rfl | hk
    · exact ⟨hl, hr⟩
    · exact hs k hk

theorem Additive.constrain_preserves (h : Additive P I) {v : Value} (hv : P v) (c : Constraint) :
    Preserves I fun s => .ok (s.constrain? v c).toList := by
  intro s states hs heq t ht
  cases heq
  exact h.constrain hs hv (Option.mem_toList.1 ht)

theorem LogicalOp.split_related {R : (State → Outcomes) → (State → Outcomes) → Prop}
    (hboth : ∀ {f f' g g'}, R f f' → R g g' → R (Outcomes.both f g) (Outcomes.both f' g'))
    (heither : ∀ {f f' g g'}, R f f' → R g g' → R (Outcomes.either f g) (Outcomes.either f' g'))
    {f f' g g' : Bool → State → Outcomes} (hf : ∀ b, R (f b) (f' b)) (hg : ∀ b, R (g b) (g' b))
    (op : LogicalOp) (b : Bool) : R (op.split b f g) (op.split b f' g') := by
  cases op with
  | and =>
    cases b with
    | true => exact hboth (hf _) (hg _)
    | false => exact heither (hf _) (hg _)
  | or =>
    cases b with
    | true => exact heither (hf _) (hg _)
    | false => exact hboth (hf _) (hg _)
  | xor =>
    cases b with
    | true => exact heither (hboth (hf _) (hg _)) (hboth (hf _) (hg _))
    | false => exact heither (hboth (hf _) (hg _)) (hboth (hf _) (hg _))

theorem LogicalOp.split_closed {C : (State → Outcomes) → Prop}
    (hboth : ∀ {f g}, C f → C g → C (Outcomes.both f g))
    (heither : ∀ {f g}, C f → C g → C (Outcomes.either f g))
    {f g : Bool → State → Outcomes} (hf : ∀ b, C (f b)) (hg : ∀ b, C (g b)) (op : LogicalOp)
    (b : Bool) : C (op.split b f g) :=
  (op.split_related (R := fun f f' => C f ∧ C f')
    (fun h h' => ⟨hboth h.1 h'.1, hboth h.2 h'.2⟩)
    (fun h h' => ⟨heither h.1 h'.1, heither h.2 h'.2⟩)
    (fun b => ⟨hf b, hf b⟩) (fun b => ⟨hg b, hg b⟩) b).1

theorem LogicalOp.split_preserves {f g : Bool → State → Outcomes} (hf : ∀ b, Preserves I (f b))
    (hg : ∀ b, Preserves I (g b)) (op : LogicalOp) (b : Bool) : Preserves I (op.split b f g) :=
  op.split_closed Preserves.both Preserves.either hf hg b

theorem Value.assumeTruth_preserves (h : Additive P I) {relate : Relation → Bool → State → Outcomes}
    (hrelate : ∀ r b, P r.left → P r.right → Preserves I (relate r b)) {v : Value} (hv : P v)
    (b : Bool) : Preserves I (v.assumeTruth relate b) := by
  induction v generalizing b with
  | simple id => exact h.constrain_preserves hv (.truth b)
  | boolean id => exact h.constrain_preserves hv (.truth b)
  | not id w ih =>
    intro s states hs heq
    simp only [assumeTruth] at heq
    split at heq
    next t ht => exact ih (h.operand hv (.head _)) _ (h.constrain hs hv ht) heq
    next =>
      cases heq
      exact nofun
  | binary id op l r ihl ihr =>
    intro s states hs heq
    simp only [assumeTruth] at heq
    split at heq
    next t ht =>
      exact op.split_preserves (ihl (h.operand hv (.head _)))
        (ihr (h.operand hv (.tail _ (.head _)))) b (h.constrain hs hv ht) heq
    next =>
      cases heq
      exact nofun
  | relational k l r =>
    exact hrelate ⟨k, l, r⟩ b (h.operand hv (.head _)) (h.operand hv (.tail _ (.head _)))

theorem Value.assumeWith_preserves (h : Additive P I) {relate : Relation → Bool → State → Outcomes}
    (hrelate : ∀ r b, P r.left → P r.right → Preserves I (relate r b)) {v : Value} (hv : P v)
    (c : Constraint) : Preserves I (v.assumeWith relate c) := by
  intro s states hs heq
  unfold assumeWith at heq
  split at heq
  next b _ => exact assumeTruth_preserves h hrelate hv b hs heq
  next => exact h.constrain_preserves hv c hs heq

namespace Relation

variable {assume : Value → Constraint → State → Outcomes}

theorem impose_preserves (hassume : ∀ v c, P v → Preserves I (assume v c)) {r : Relation}
    {target : Value} (ht : P target) (held : ConstraintSet) :
    Preserves I (r.impose assume target held) := by
  intro s states hs h
  exact Preserves.foldlM (fun c _ => hassume target c ht) (by simpa using hs) h

theorem transfer_preserves (hassume : ∀ v c, P v → Preserves I (assume v c)) {r : Relation}
    {a b : Value} (ha : P a) (hb : P b) : Preserves I (r.transfer assume a b) := by
  intro s states hs h
  unfold transfer at h
  split at h
  · exact impose_preserves hassume hb _ hs h
  · exact impose_preserves hassume ha _ hs h
  · cases h
    simpa using hs

theorem openOperand?_operand {r : Relation} {s : State} {v : Value}
    (h : r.openOperand? s = some v) : v = r.left ∨ v = r.right := by
  unfold openOperand? at h
  grind

theorem orNull_preserves {v : Value} (hrelease : ∀ {s}, I s → I (s.release v .boolean))
    (hassume : Preserves I (assume v .null)) {states out : List State} (hs : ∀ s ∈ states, I s)
    (heq : orNull assume v states = .ok out) : ∀ t ∈ out, I t := by
  refine Preserves.each (fun s states hs heq => ?_) hs heq
  obtain ⟨nulls, hnulls, heq⟩ := bind_eq_ok.1 heq
  cases heq
  intro t ht
  rcases List.mem_append.1 ht with ht | ht
  · exact hassume (hrelease hs) hnulls t ht
  · exact List.mem_singleton.1 ht ▸ hs

theorem record_preserves_of_learn {r : Relation} (hlearn : ∀ {s}, I s → I (s.learn r))
    (hrelease : ∀ {s v}, I s → P v → I (s.release v .boolean))
    (hassume : ∀ v c, P v → Preserves I (assume v c)) (hl : P r.left) (hr : P r.right) :
    Preserves I (r.record assume) := by
  intro s states hs heq
  unfold record at heq
  have hs' : I (if s.canReach r.left || s.canReach r.right then s.learn r else s) := by
    split
    · exact hlearn hs
    · exact hs
  obtain ⟨mid, hmid, heq⟩ := bind_eq_ok.1 heq
  have hmid' := (transfer_preserves hassume hl hr).both (transfer_preserves hassume hr hl) hs' hmid
  split at heq
  next v hv =>
    have hPv : P v := by
      rcases openOperand?_operand hv with rfl | rfl
      · exact hl
      · exact hr
    exact orNull_preserves (hrelease · hPv) (hassume v .null hPv) hmid' heq
  next =>
    cases heq
    exact hmid'

theorem record_preserves (h : Stable P I) (hassume : ∀ v c, P v → Preserves I (assume v c))
    {r : Relation} (hl : P r.left) (hr : P r.right) : Preserves I (r.record assume) :=
  record_preserves_of_learn (h.learn · hl hr) h.release hassume hl hr

/-- What assuming a relation comes to: it is known, or it is ruled out by something that follows
from it, or all that follows is recorded. -/
theorem assumeHolds_cases {budget : Budget} {r : Relation} {s : State} {states : List State}
    (h : r.assumeHolds assume budget s = .ok states) :
    (s.relations.has r ∧ states = [s]) ∨
      ∃ found, r.closure s.relations budget = .ok found ∧
        ((∃ i ∈ (found.insert r).toList, i.resolve s.relations = .unfulfilled) ∧ states = [] ∨
          (∀ i ∈ (found.insert r).toList, i.resolve s.relations ≠ .unfulfilled) ∧
            (found.insert r).toList.foldlM
              (fun states i => Outcomes.each (i.record assume) states) [s] = .ok states) := by
  unfold assumeHolds at h
  split at h
  next hknown =>
    cases h
    exact .inl ⟨hknown, rfl⟩
  next =>
    obtain ⟨found, hfound, h⟩ := bind_eq_ok.1 h
    refine .inr ⟨found, hfound, ?_⟩
    dsimp only at h
    split at h
    next hany =>
      cases h
      exact .inl ⟨by simpa using hany, rfl⟩
    next hany => exact .inr ⟨by simpa using hany, h⟩

theorem assumeHolds_preserves_of_record (h : Steady P I)
    (hrecord : ∀ i : Relation, P i.left → P i.right → Preserves I (i.record assume))
    {budget : Budget} {r : Relation} (hl : P r.left) (hr : P r.right) :
    Preserves I (r.assumeHolds assume budget) := by
  intro s states hs heq
  rcases assumeHolds_cases heq with ⟨_, rfl⟩ | ⟨found, hfound, ⟨_, rfl⟩ | ⟨_, heq⟩⟩
  · simpa using hs
  · exact nofun
  · have hP : ∀ i ∈ (found.insert r).toList, P i.left ∧ P i.right :=
      closure_insert_induction hfound ⟨hl, hr⟩
        fun hd hk he => deduce?_operands hd (h.known hs hk) he
    exact Preserves.foldlM (fun i hi => hrecord i (hP i hi).1 (hP i hi).2) (by simpa using hs) heq

theorem assumeHolds_preserves (h : Stable P I) (hassume : ∀ v c, P v → Preserves I (assume v c))
    {budget : Budget} {r : Relation} (hl : P r.left) (hr : P r.right) :
    Preserves I (r.assumeHolds assume budget) :=
  assumeHolds_preserves_of_record h.toSteady (fun _ => record_preserves h hassume) hl hr

theorem assumeWith_preserves (h : Stable P I) (hassume : ∀ v c, P v → Preserves I (assume v c))
    {budget : Budget} {r : Relation} (hl : P r.left) (hr : P r.right) (b : Bool) :
    Preserves I (r.assumeWith assume budget b) := by
  cases b with
  | true => exact assumeHolds_preserves h hassume hl hr
  | false => exact assumeHolds_preserves h hassume hl hr

theorem transfer_total {r : Relation} {a b : Value} (ha : ∀ c, Total (assume a c))
    (hb : ∀ c, Total (assume b c)) : Total (r.transfer assume a b) := by
  intro s
  unfold transfer
  split
  · exact Total.foldlM (fun c _ => hb c) [s]
  · exact Total.foldlM (fun c _ => ha c) [s]
  · exact ⟨[s], rfl⟩

theorem record_total {r : Relation} (hl : ∀ c, Total (assume r.left c))
    (hr : ∀ c, Total (assume r.right c)) : Total (r.record assume) := by
  intro s
  unfold record
  dsimp only
  generalize (if s.canReach r.left || s.canReach r.right then s.learn r else s) = t
  obtain ⟨mid, hmid⟩ := (transfer_total hl hr).both (transfer_total hr hl) t
  rw [hmid]
  cases hv : r.openOperand? t with
  | none => exact ⟨mid, rfl⟩
  | some v =>
    have htotal : ∀ c, Total (assume v c) := by
      rcases openOperand?_operand hv with rfl | rfl
      · exact hl
      · exact hr
    change ∃ out, orNull assume v mid = Except.ok out
    apply Total.each
    intro u
    obtain ⟨nulls, hnulls⟩ := htotal .null (u.release v .boolean)
    dsimp only
    rw [hnulls]
    exact ⟨_, rfl⟩

/-- Where anything can be assumed of the operands, a relation fails only by running out of budget. -/
theorem assumeHolds_error (hassume : ∀ v c, P v → Total (assume v c)) {budget : Budget}
    {r : Relation} {s : State} {f : Failure} (hl : P r.left) (hr : P r.right)
    (hs : ∀ k ∈ s.relations.toList, P k.left ∧ P k.right)
    (h : r.assumeHolds assume budget s = .error f) :
    ∃ used iterations, f = .relationsExceeded used iterations := by
  unfold assumeHolds at h
  split at h
  · contradiction
  cases hfound : r.closure s.relations budget with
  | error f' =>
    rw [hfound] at h
    cases h
    exact closure_error hfound
  | ok found =>
    have hP : ∀ i ∈ (found.insert r).toList, P i.left ∧ P i.right :=
      closure_insert_induction hfound ⟨hl, hr⟩
        fun hd hk he => deduce?_operands hd (hs _ hk) he
    have hrecord : ∀ i ∈ (found.insert r).toList, Total (i.record assume) := fun i hi =>
      record_total (fun c => hassume _ c (hP i hi).1) (fun c => hassume _ c (hP i hi).2)
    obtain ⟨out, hout⟩ := Total.foldlM hrecord [s]
    rw [hfound] at h
    change ite _ _ _ = _ at h
    split at h
    · contradiction
    · rw [hout] at h
      contradiction

end Relation

theorem Value.assumeAt_leaf {v : Value} (h : v.isLeaf) (budget : Budget) (levels : Nat)
    (c : Constraint) (s : State) :
    v.assumeAt budget levels c s = .ok (s.constrain? v c).toList := by
  have hwith (relate : Relation → Bool → State → Outcomes) :
      v.assumeWith relate c s = .ok (s.constrain? v c).toList := by
    cases v with
    | simple | boolean => cases c <;> rfl
    | not | binary | relational => contradiction
  cases levels with
  | zero => exact hwith _
  | succ levels => exact hwith _

theorem Value.assumeAt_preserves (h : Stable P I) (budget : Budget) (levels : Nat) {v : Value}
    (hv : P v) (c : Constraint) : Preserves I (v.assumeAt budget levels c) := by
  induction levels generalizing v c with
  | zero => exact assumeWith_preserves h.toAdditive (fun _ _ _ _ _ _ _ heq => by contradiction) hv c
  | succ levels ih =>
    exact assumeWith_preserves h.toAdditive
      (fun r b hl hr => Relation.assumeWith_preserves h (fun v c hv => ih hv c) hl hr b) hv c

/-- All outcomes of an assumption have a stable property. -/
theorem Value.assume_preserves (h : Stable P I) {v : Value} (hv : P v) (c : Constraint)
    (budget : Budget) : Preserves I (v.assume c budget) :=
  fun _ _ hs heq => assumeAt_preserves h budget _ hv c hs heq

theorem Value.size_pos (v : Value) : 0 < v.size := by
  cases v with
  | simple | boolean => exact Nat.one_pos
  | not | binary | relational => exact Nat.succ_pos _

theorem State.nestingLimit_pos (s : State) (v : Value) : 0 < s.nestingLimit v := by
  have hsize := v.size_pos
  exact Nat.mul_pos (by omega) (Nat.succ_pos _)

theorem Relation.exists_assume_eq (r : Relation) (b : Bool) (budget : Budget) (s : State) :
    ∃ levels, r.assume b budget s = r.assumeWith (Value.assumeAt budget levels) budget b s := by
  obtain ⟨levels, hlevels⟩ := Nat.exists_eq_add_of_lt (s.nestingLimit_pos r.toValue)
  refine ⟨levels, ?_⟩
  rw [Relation.assume, Value.assume, hlevels, Nat.zero_add]
  rfl

end Pathwise
