import Mathlib.Logic.Relation
import Pathwise.Proofs.Equivariance
import Pathwise.Proofs.Fresh

namespace Pathwise

namespace Renaming

protected def refl : Renaming where
  toFun id := id
  increases h := h
  constants _ := rfl

def Shifts (π : Renaming) (n : Nat) : Prop := ∀ i, π (n + i) = π n + i

theorem Shifts.succ {π : Renaming} {n : Nat} (h : π.Shifts n) : π (n + 1) = π n + 1 := h 1

theorem Shifts.next {π : Renaming} {n : Nat} (h : π.Shifts n) : π.Shifts (n + 1) := by
  intro i
  have hi := h (1 + i)
  rw [h.succ, Nat.add_assoc, hi, Nat.add_assoc]

/-- The renaming on ids less than `n`, while `n` and all that follow go to `m` and what follows. -/
def extend (π : Renaming) (n m : Nat) (hn : Value.firstFreeId ≤ n) (h : ∀ id < n, π id < m) :
    Renaming where
  toFun id := if id < n then π id else m + (id - n)
  increases {a b} hab := by
    by_cases hb : b < n
    · rw [if_pos hb, if_pos (Nat.lt_trans hab hb)]
      exact π.increases hab
    · rw [if_neg hb]
      by_cases ha : a < n
      · rw [if_pos ha]
        exact Nat.lt_of_lt_of_le (h a ha) (Nat.le_add_right _ _)
      · rw [if_neg ha]
        omega
  constants {id} hid := by
    rw [if_pos (Nat.lt_of_lt_of_le hid hn)]
    exact π.constants hid

variable {π : Renaming} {n m : Nat} {hn : Value.firstFreeId ≤ n} {h : ∀ id < n, π id < m}

theorem extend_of_lt {id : Nat} (hid : id < n) : π.extend n m hn h id = π id := if_pos hid

theorem extend_self : π.extend n m hn h n = m := by
  change (if n < n then _ else _) = _
  rw [if_neg (Nat.lt_irrefl n), Nat.sub_self, Nat.add_zero]

theorem extend_shifts : (π.extend n m hn h).Shifts n := by
  intro i
  rw [extend_self]
  change (if n + i < n then _ else _) = _
  rw [if_neg (by omega), Nat.add_sub_cancel_left]

end Renaming

variable {π σ : Renaming} {visits : Visits} {n : Nat}

theorem Value.rename_refl (v : Value) : v.rename .refl = v := by
  induction v with
  | simple | boolean => rfl
  | not _ _ ih => rw [rename, ih]; rfl
  | binary _ _ _ _ ihl ihr => rw [rename, ihl, ihr]; rfl
  | relational _ _ _ ihl ihr => rw [rename, ihl, ihr]

theorem Value.Below.rename_congr {v : Value} (h : v.Below n) (hπ : ∀ id < n, π id = σ id) :
    v.rename π = v.rename σ := by
  induction v with
  | simple id => exact congrArg simple (hπ id h)
  | boolean id => exact congrArg boolean (hπ id h)
  | not id v ih => rw [rename, rename, hπ id h.1, ih h.2]
  | binary id op l r ihl ihr => rw [rename, rename, hπ id h.1, ihl h.2.1, ihr h.2.2]
  | relational k l r ihl ihr => rw [rename, rename, ihl h.1, ihr h.2]

theorem Value.exists_below (v : Value) : ∃ n, v.Below n := by
  induction v with
  | simple id => exact ⟨id + 1, Nat.lt_succ_self id⟩
  | boolean id => exact ⟨id + 1, Nat.lt_succ_self id⟩
  | not id v ih =>
    obtain ⟨n, hn⟩ := ih
    exact ⟨max (id + 1) n, Nat.lt_of_lt_of_le (Nat.lt_succ_self id) (Nat.le_max_left ..),
      hn.mono (Nat.le_max_right ..)⟩
  | binary id op l r ihl ihr =>
    obtain ⟨n, hn⟩ := ihl
    obtain ⟨m, hm⟩ := ihr
    exact ⟨max (id + 1) (max n m), Nat.lt_of_lt_of_le (Nat.lt_succ_self id) (Nat.le_max_left ..),
      hn.mono (Nat.le_trans (Nat.le_max_left ..) (Nat.le_max_right ..)),
      hm.mono (Nat.le_trans (Nat.le_max_right ..) (Nat.le_max_right ..))⟩
  | relational k l r ihl ihr =>
    obtain ⟨n, hn⟩ := ihl
    obtain ⟨m, hm⟩ := ihr
    exact ⟨max n m, hn.mono (Nat.le_max_left ..), hm.mono (Nat.le_max_right ..)⟩

namespace State

variable {s t : State}

theorem rename_refl (s : State) (visits : Visits) : s.rename .refl visits = { s with visits } := by
  have hvars : s.vars.rename .refl = s.vars := by
    apply Keyed.ext
    refine (List.map_congr_left fun e _ => ?_).trans (List.map_id _)
    exact congrArg (Prod.mk e.1) e.2.rename_refl
  have hconstraints : s.constraints.rename .refl = s.constraints := by
    apply Keyed.ext
    refine (List.map_congr_left fun e _ => ?_).trans (List.map_id _)
    exact congrArg (Prod.mk · e.2) e.1.rename_refl
  have hrelations : s.relations.rename .refl = s.relations := by
    apply Keyed.ext
    refine (List.map_congr_left fun r _ => ?_).trans (List.map_id _)
    rw [Relation.rename, r.left.rename_refl, r.right.rename_refl]
    rfl
  have hvalue : Value.rename .refl = id := funext Value.rename_refl
  simp only [rename, hvars, hconstraints, hrelations, hvalue, List.map_id, Option.map_id_fun, id_eq]

theorem Below.rename_congr (h : s.Below n) (hπ : ∀ id < n, π id = σ id) (visits : Visits) :
    s.rename π visits = s.rename σ visits := by
  have hstack : s.stack.map (Value.rename π) = s.stack.map (Value.rename σ) :=
    List.map_congr_left fun v hv => (h.stack v hv).rename_congr hπ
  have hvars : s.vars.rename π = s.vars.rename σ := by
    apply Keyed.ext
    refine List.map_congr_left fun e he => ?_
    rw [(h.vars e he).rename_congr hπ]
  have hconstraints : s.constraints.rename π = s.constraints.rename σ := by
    apply Keyed.ext
    refine List.map_congr_left fun e he => ?_
    rw [(h.constraints e he).rename_congr hπ]
  have hrelations : s.relations.rename π = s.relations.rename σ := by
    apply Keyed.ext
    refine List.map_congr_left fun r hr => ?_
    rw [Relation.rename, Relation.rename, (h.relations r hr).1.rename_congr hπ,
      (h.relations r hr).2.rename_congr hπ]
  have hexit : s.exit?.map (Value.rename π) = s.exit?.map (Value.rename σ) :=
    Option.map_congr fun v hv => (h.exit v hv).rename_congr hπ
  simp only [rename, hstack, hvars, hconstraints, hrelations, hexit]

theorem exists_below (s : State) : ∃ n, Value.firstFreeId ≤ n ∧ s.Below n := by
  have hlist (vs : List Value) : ∃ n, ∀ v ∈ vs, v.Below n := by
    induction vs with
    | nil => exact ⟨0, nofun⟩
    | cons v vs ih =>
      obtain ⟨m, hm⟩ := v.exists_below
      obtain ⟨n, hn⟩ := ih
      refine ⟨max m n, List.forall_mem_cons.2 ⟨hm.mono (Nat.le_max_left ..), fun w hw => ?_⟩⟩
      exact (hn w hw).mono (Nat.le_max_right ..)
  obtain ⟨a, ha⟩ := hlist s.values
  refine ⟨max Value.firstFreeId a, Nat.le_max_left .., ?_⟩
  exact Below.mono (all_iff.2 ha) (Nat.le_max_right ..)

/-- The states differ in the choice of ids and in their visits only. -/
def Alike : State → State → Prop := Relation.EqvGen fun s t => ∃ π visits, t = s.rename π visits

theorem alike_rename (s : State) (π : Renaming) (visits : Visits) : s.Alike (s.rename π visits) :=
  .rel _ _ ⟨π, visits, rfl⟩

theorem alike_visits (s : State) (visits : Visits) : s.Alike { s with visits } := by
  rw [← s.rename_refl visits]
  exact s.alike_rename _ visits

theorem Alike.cleanup (h : s.Alike t) : s.cleanup.Alike t.cleanup := by
  induction h with
  | rel s t h =>
    obtain ⟨π, visits, rfl⟩ := h
    rw [cleanup_rename]
    exact s.cleanup.alike_rename π visits
  | refl s => exact .refl _
  | symm s t _ ih => exact ih.symm
  | trans s t u _ _ ih ih' => exact ih.trans _ _ _ ih'

end State

def Supply.rename (π : Renaming) (supply : Supply) : Supply := ⟨π supply.next⟩

namespace Supply

variable {supply : Supply}

theorem rename_next (h : π.Shifts supply.next) :
    Supply.rename π ⟨supply.next + 1⟩ = ⟨π supply.next + 1⟩ := congrArg mk h.succ

theorem fresh_rename (h : π.Shifts supply.next) :
    (supply.rename π).fresh = (supply.fresh.1.rename π, supply.fresh.2.rename π) :=
  congrArg (Prod.mk _) (rename_next h).symm

theorem ofType_rename (h : π.Shifts supply.next) (type : ValueType) :
    (supply.rename π).ofType type =
      ((supply.ofType type).1.rename π, (supply.ofType type).2.rename π) := by
  unfold Supply.ofType
  split
  · exact congrArg (Prod.mk _) (rename_next h).symm
  · exact fresh_rename h

end Supply

theorem BinaryOp.apply_rename {supply : Supply} (h : π.Shifts supply.next) (op : BinaryOp)
    (l r : Value) :
    op.apply (l.rename π) (r.rename π) (supply.rename π) =
      ((op.apply l r supply).1.rename π, (op.apply l r supply).2.rename π) := by
  cases op with
  | equal | notEqual | lessThan | greaterOrEqual | greaterThan | lessOrEqual => rfl
  | and | or | xor => exact congrArg (Prod.mk _) (Supply.rename_next h).symm
  | plus | minus | multiply | divide | remainder => exact Supply.fresh_rename h

namespace Instruction

variable {supply : Supply}

theorem abrupt?_rename (i : Instruction) (s : State) :
    i.abrupt? (s.rename π visits) = (i.abrupt? s).map (Option.map (State.rename π visits)) := by
  unfold abrupt?
  split
  · split
    · rw [State.unstack_rename]
      cases s.unstack i.operands with
      | error => rfl
      | ok => rfl
    · rfl
  · rfl

/-- What an instruction does follows a renaming that goes on to the ids it hands out. -/
theorem execute_rename (h : π.Shifts supply.next) (i : Instruction) (s : State) :
    i.execute (s.rename π visits) (supply.rename π) =
      (i.execute s supply).map fun (t, left) => (t.rename π visits, left.rename π) := by
  cases i with
  | literal value pos =>
    rcases value with _ | ⟨_ | _⟩ | _ | _ | _
    · exact congrArg (fun v => Except.ok ((s.rename π visits).push v, _)) (Value.rename_null π).symm
    · exact congrArg (fun v => Except.ok ((s.rename π visits).push v, _))
        (Value.rename_false π).symm
    · exact congrArg (fun v => Except.ok ((s.rename π visits).push v, _)) (Value.rename_true π).symm
    · simp only [execute, Supply.fresh_rename h]
      rfl
    · simp only [execute, Supply.fresh_rename h]
      rfl
    · simp only [execute, Supply.fresh_rename h, State.constrain_rename]
      rfl
  | read var pos =>
    simp only [execute, State.value?_rename]
    cases s.value? var with
    | none => rfl
    | some v => rfl
  | assign var pos =>
    simp only [execute, State.pop_rename]
    cases s.pop with
    | error => rfl
    | ok p =>
      simp only [Except.map, bind, Except.bind, State.put_rename]
      rfl
  | pop pos =>
    simp only [execute, State.pop_rename]
    cases s.pop with
    | error => rfl
    | ok p => rfl
  | newObject method arguments pos =>
    simp only [execute, State.unstack_rename, Supply.fresh_rename h]
    cases s.unstack arguments.length with
    | error => rfl
    | ok p =>
      simp only [Except.map, bind, Except.bind, State.constrain_rename]
      rfl
  | invoke method receiver arguments pos =>
    simp only [execute, State.unstack_rename, Supply.ofType_rename h]
    cases s.unstack (invoke method receiver arguments pos).operands with
    | error => rfl
    | ok p =>
      obtain ⟨t, vs⟩ := p
      have hrest : (if method.returns.isVoid then .ok (t.rename π visits, supply.rename π)
          else .ok ((t.rename π visits).push ((supply.ofType method.returns).1.rename π),
            (supply.ofType method.returns).2.rename π)) =
          (if method.returns.isVoid then .ok (t, supply)
            else .ok (t.push (supply.ofType method.returns).1,
              (supply.ofType method.returns).2) : Except Failure (State × Supply)).map
            fun (t, left) => (t.rename π visits, left.rename π) := by
        split <;> rfl
      cases hequals : method.isEquals with
      | false => exact hrest
      | true =>
        -- a comparison by value takes exactly two operands
        rcases vs with _ | ⟨l, _ | ⟨r, _ | _⟩⟩
        · exact hrest
        · exact hrest
        · rfl
        · exact hrest
  | memberSelect field type pos =>
    simp only [execute, State.pop_rename, Supply.ofType_rename h]
    cases s.pop with
    | error => rfl
    | ok p => rfl
  | binary op pos =>
    simp only [execute, State.unstack_rename]
    cases s.unstack 2 with
    | error => rfl
    | ok p =>
      obtain ⟨t, vs⟩ := p
      rcases vs with _ | ⟨l, _ | ⟨r, _ | _⟩⟩
      · rfl
      · rfl
      · simp only [Except.map, bind, Except.bind, List.map_cons, List.map_nil,
          BinaryOp.apply_rename h]
        rfl
      · rfl
  | unary op pos =>
    simp only [execute, State.pop_rename]
    cases s.pop with
    | error => rfl
    | ok p =>
      cases op with
      | not =>
        refine congrArg (fun left => Except.ok (_, left)) ?_
        exact (Supply.rename_next h).symm
      | negate =>
        refine congrArg (fun left => Except.ok (_, left)) ?_
        exact (Supply.rename_next h).symm

end Instruction

abbrev Continuation := Except Failure (List Successor × Supply)

namespace ControlFlow

variable (c : ControlFlow) (o : Options) (p : Point)

def thrown (s : State) (supply : Supply) (i : Instruction) : Continuation :=
  if o.exceptionalPaths then do
    match ← i.abrupt? s with
    | some t => return (thrownTo (← c.handlers p.block) t supply.fresh.1, supply.fresh.2)
    | none => return ([], supply)
  else return ([], supply)

def continued (s : State) : Terminator → Except Failure (List Successor)
  | .goto target => return [⟨⟨target, 0⟩, s, false⟩]
  | .branch trueTarget falseTarget _ => do
    let (t, condition) ← s.pop
    let falseStates ← condition.assume (.truth false) o.budget t
    let trueStates ← condition.assume (.truth true) o.budget t
    return falseStates.map (⟨⟨falseTarget, 0⟩, ·, false⟩) ++
      trueStates.map (⟨⟨trueTarget, 0⟩, ·, false⟩)
  | .ret _ _ | .exit => return []
  | .throw _ => do
    let (t, exception) ← s.pop
    return thrownTo (← c.handlers p.block) t exception

/-- The successors of the element at `p` in the state `s`. -/
def outgoing (s : State) (supply : Supply) : Continuation := do
  match ← c.element p with
  | .instruction i =>
    let (thrown, left) ← c.thrown o p s supply i
    let (t, left) ← i.execute s left
    return (thrown ++ [⟨p.next, t, false⟩], left)
  | .terminator t => return (← c.continued o p s t, supply)

variable {c o p} {s : State} {supply left : Supply}

theorem thrown_of_throws {i : Instruction} {as : List Successor}
    (h : Throws o c p s supply i as left) : c.thrown o p s supply i = .ok (as, left) := by
  unfold thrown
  cases h with
  | quiet h =>
    split
    next ho => rw [h ho]; rfl
    next => rfl
  | thrown ho habrupt hhandlers =>
    rw [if_pos ho, habrupt]
    simp only [bind, Except.bind, hhandlers]
    rfl

/-- Without detectors, an element yields just what follows the state. -/
theorem outgoing_of_yields {element : Element} {as : List Successor}
    (helement : c.element p = .ok element) (h : Yields [] o c p s supply element as left) :
    c.outgoing o p s supply = .ok (as, left) := by
  simp only [outgoing, helement, bind, Except.bind]
  cases h with
  | next hthrows hexecute hadjusted =>
    cases hadjusted.eq_of_nil
    simp only [thrown_of_throws hthrows, hexecute]
    rfl
  | stopped hne => contradiction
  | goto => rfl
  | branch hpop hfalse htrue =>
    simp only [continued, bind, Except.bind, hpop, hfalse, htrue]
    rfl
  | ret => rfl
  | exit => rfl
  | throw hpop hhandlers =>
    simp only [continued, bind, Except.bind, hpop, hhandlers]
    rfl

end ControlFlow

namespace Successor

def rename (π : Renaming) (visits : Visits) (a : Successor) : Successor :=
  { a with state := a.state.rename π visits }

end Successor

namespace Continuation

def rename (π : Renaming) (visits : Visits) (x : Continuation) : Continuation :=
  x.map fun (as, left) => (as.map (Successor.rename π visits), left.rename π)

/-- Where the first succeeds the second does, with a successor alike for each of its own. -/
def Covers (x y : Continuation) : Prop :=
  ∀ as left, x = .ok (as, left) → ∃ bs left', y = .ok (bs, left') ∧
    ∀ a ∈ as, ∃ b ∈ bs, b.point = a.point ∧ a.state.Alike b.state

end Continuation

theorem thrownTo_rename (handlers : List BlockId) (s : State) (exception : Value) :
    thrownTo handlers (s.rename π visits) (exception.rename π) =
      (thrownTo handlers s exception).map (Successor.rename π visits) := by
  simp only [thrownTo, State.constrain_rename, State.push_rename, List.map_map]
  rfl

namespace ControlFlow

variable {c : ControlFlow} {o : Options} {p : Point} {s t : State} {supply : Supply}

theorem thrown_rename (h : π.Shifts supply.next) (i : Instruction) :
    c.thrown o p (s.rename π visits) (supply.rename π) i =
      (c.thrown o p s supply i).rename π visits := by
  unfold thrown
  split
  · rw [Instruction.abrupt?_rename, Supply.fresh_rename h]
    cases i.abrupt? s with
    | error => rfl
    | ok t? =>
      cases t? with
      | none => rfl
      | some t =>
        simp only [Except.map, Option.map, bind, Except.bind]
        cases c.handlers p.block with
        | error => rfl
        | ok handlers =>
          simp only [thrownTo_rename]
          rfl
  · rfl

theorem shifts_of_thrown {as : List Successor} {left : Supply} (h : π.Shifts supply.next)
    {i : Instruction} (hthrown : c.thrown o p s supply i = .ok (as, left)) :
    π.Shifts left.next := by
  unfold thrown at hthrown
  split at hthrown
  · obtain ⟨t?, _, hthrown⟩ := bind_eq_ok.1 hthrown
    cases t? with
    | none =>
      cases hthrown
      exact h
    | some t =>
      obtain ⟨handlers, _, hthrown⟩ := bind_eq_ok.1 hthrown
      cases hthrown
      exact h.next
  · cases hthrown
    exact h

theorem continued_rename (t : Terminator) :
    c.continued o p (s.rename π visits) t =
      (c.continued o p s t).map (List.map (Successor.rename π visits)) := by
  cases t with
  | goto target => rfl
  | branch trueTarget falseTarget pos =>
    simp only [continued, State.pop_rename]
    cases s.pop with
    | error => rfl
    | ok q =>
      obtain ⟨t, condition⟩ := q
      have hassume (b : Bool) : (condition.rename π).assume (.truth b) o.budget
          (t.rename π visits) = (condition.assume (.truth b) o.budget t).map (List.map _) :=
        condition.assume_follows (.truth b) o.budget t
      simp only [Except.map, bind, Except.bind] at hassume ⊢
      rw [hassume false, hassume true]
      cases condition.assume (.truth false) o.budget t with
      | error => rfl
      | ok falseStates =>
        cases condition.assume (.truth true) o.budget t with
        | error => rfl
        | ok trueStates =>
          simp only [pure, Except.pure, List.map_append, List.map_map]
          rfl
  | ret => rfl
  | exit => rfl
  | throw pos =>
    simp only [continued, State.pop_rename]
    cases s.pop with
    | error => rfl
    | ok q =>
      simp only [Except.map, bind, Except.bind]
      cases c.handlers p.block with
      | error => rfl
      | ok handlers =>
        simp only [thrownTo_rename]
        rfl

theorem outgoing_rename (h : π.Shifts supply.next) :
    c.outgoing o p (s.rename π visits) (supply.rename π) =
      (c.outgoing o p s supply).rename π visits := by
  unfold outgoing
  cases c.element p with
  | error => rfl
  | ok element =>
    cases element with
    | instruction i =>
      simp only [bind, Except.bind, thrown_rename h]
      cases hthrown : c.thrown o p s supply i with
      | error => rfl
      | ok q =>
        obtain ⟨as, left⟩ := q
        simp only [Continuation.rename, Except.map,
          i.execute_rename (shifts_of_thrown h hthrown) s]
        cases i.execute s left with
        | error => rfl
        | ok r =>
          simp only [pure, Except.pure, List.map_append]
          rfl
    | terminator t =>
      simp only [bind, Except.bind, continued_rename]
      cases c.continued o p s t with
      | error => rfl
      | ok as => rfl

theorem outgoing_extend (c : ControlFlow) (o : Options) (p : Point) (visits : Visits) {n m : Nat}
    (hs : s.Below n) (hn : Value.firstFreeId ≤ n) (h : ∀ id < n, π id < m) :
    c.outgoing o p (s.rename π visits) ⟨m⟩ =
      (c.outgoing o p s ⟨n⟩).rename (π.extend n m hn h) visits := by
  have hstate : s.rename π visits = s.rename (π.extend n m hn h) visits :=
    hs.rename_congr (fun id hid => (Renaming.extend_of_lt hid).symm) visits
  have hsupply : (⟨m⟩ : Supply) = Supply.rename (π.extend n m hn h) ⟨n⟩ :=
    congrArg Supply.mk Renaming.extend_self.symm
  rw [hstate, hsupply]
  exact outgoing_rename Renaming.extend_shifts

end ControlFlow

namespace Continuation

variable {x y z : Continuation}

def Alike : Continuation → Continuation → Prop :=
  Relation.EqvGen fun x y => ∃ π visits, y = x.rename π visits

theorem covers_rename (x : Continuation) (π : Renaming) (visits : Visits) :
    x.Covers (x.rename π visits) := by
  rintro as left rfl
  refine ⟨_, _, rfl, fun a ha => ⟨_, List.mem_map_of_mem ha, rfl, ?_⟩⟩
  exact a.state.alike_rename π visits

theorem rename_covers (x : Continuation) (π : Renaming) (visits : Visits) :
    (x.rename π visits).Covers x := by
  intro as left h
  cases x with
  | error => contradiction
  | ok q =>
    cases h
    refine ⟨_, _, rfl, fun b hb => ?_⟩
    obtain ⟨a, ha, rfl⟩ := List.mem_map.1 hb
    exact ⟨a, ha, rfl, (a.state.alike_rename π visits).symm⟩

theorem Covers.refl (x : Continuation) : x.Covers x :=
  fun as left hx => ⟨as, left, hx, fun a ha => ⟨a, ha, rfl, .refl _⟩⟩

theorem Covers.trans (h : x.Covers y) (h' : y.Covers z) : x.Covers z := by
  intro as left hx
  obtain ⟨bs, left', hy, hbs⟩ := h as left hx
  obtain ⟨ds, left'', hz, hds⟩ := h' bs left' hy
  refine ⟨ds, left'', hz, fun a ha => ?_⟩
  obtain ⟨b, hb, hp, hs⟩ := hbs a ha
  obtain ⟨d, hd, hp', hs'⟩ := hds b hb
  exact ⟨d, hd, hp'.trans hp, hs.trans _ _ _ hs'⟩

theorem Alike.covers (h : x.Alike y) : x.Covers y ∧ y.Covers x := by
  induction h with
  | rel x y h =>
    obtain ⟨π, visits, rfl⟩ := h
    exact ⟨x.covers_rename π visits, x.rename_covers π visits⟩
  | refl x => exact ⟨.refl x, .refl x⟩
  | symm x y _ ih => exact ih.symm
  | trans x y z _ _ ih ih' => exact ⟨ih.1.trans ih'.1, ih'.2.trans ih.2⟩

end Continuation

namespace ControlFlow

section

variable (c : ControlFlow) (o : Options) (p : Point) {s t : State} {n m : Nat}

theorem outgoing_alike_of_le (hs : s.Below n) (hn : Value.firstFreeId ≤ n) (hnm : n ≤ m) :
    (c.outgoing o p s ⟨n⟩).Alike (c.outgoing o p s ⟨m⟩) := by
  have hlt : ∀ id < n, Renaming.refl id < m := fun id hid => Nat.lt_of_lt_of_le hid hnm
  have hextend := c.outgoing_extend o p s.visits hs hn hlt
  rw [State.rename_refl s s.visits] at hextend
  exact .rel _ _ ⟨_, s.visits, hextend⟩

/-- Like states are followed by like states, whatever ids are left. -/
theorem outgoing_alike (h : s.Alike t) (hs : s.Below n) (hn : Value.firstFreeId ≤ n)
    (ht : t.Below m) (hm : Value.firstFreeId ≤ m) :
    (c.outgoing o p s ⟨n⟩).Alike (c.outgoing o p t ⟨m⟩) := by
  induction h generalizing n m with
  | rel s t h =>
    obtain ⟨π, visits, rfl⟩ := h
    -- from `n` to the larger bound, by the renaming, and from there back to `m`
    have hk : Value.firstFreeId ≤ max n m := Nat.le_trans hn (Nat.le_max_left n m)
    have hmk : m ≤ π (max n m) := Nat.le_trans (Nat.le_max_right n m) (π.le_apply _)
    have hleft := c.outgoing_alike_of_le o p hs hn (Nat.le_max_left n m)
    have hextend := c.outgoing_extend o p visits (hs.mono (Nat.le_max_left n m)) hk
      fun id hid => π.increases hid
    have hright := c.outgoing_alike_of_le o p ht hm hmk
    exact (hleft.trans _ _ _ (.rel _ _ ⟨_, visits, hextend⟩)).trans _ _ _ hright.symm
  | refl s =>
    have hleft := c.outgoing_alike_of_le o p hs hn (Nat.le_max_left n m)
    have hright := c.outgoing_alike_of_le o p ht hm (Nat.le_max_right n m)
    exact hleft.trans _ _ _ hright.symm
  | symm s t _ ih => exact (ih ht hm hs hn).symm
  | trans s t u _ _ ih ih' =>
    obtain ⟨k, hk, ht'⟩ := t.exists_below
    exact (ih hs hn ht' hk).trans _ _ _ (ih' ht' hk ht hm)

end

/-- A path of the routine arrives at the point in the state. The ids of new values are any that are
free, and visits are not part of the state. -/
inductive Arrives (c : ControlFlow) (o : Options) : Point → State → Prop
  | start : Arrives c o c.entry (State.initial c.parameters {}).1
  | visited {p s} (visits : Visits) : Arrives c o p s → Arrives c o p { s with visits }
  | step {p s supply as left a} : Arrives c o p s → s.Below supply.next →
      Value.firstFreeId ≤ supply.next → c.outgoing o p s supply = .ok (as, left) → a ∈ as →
      Arrives c o a.point a.state.cleanup

end ControlFlow

end Pathwise
