import Pathwise.Proofs.Concrete
import Pathwise.Proofs.Fresh

namespace Pathwise

/-- Under the valuation, stack and variables of the state are those of the frame, and all that the
state knows is true. -/
structure Represents (ρ : Valuation) (s : State) (f : Frame) : Prop where
  stack : s.stack.map (Value.eval ρ) = f.stack.map some
  vars : ∀ name, (s.value? name).map (Value.eval ρ) = (f.vars name).map some
  models : s.Models .builtIn ρ

namespace Represents

variable {ρ σ : Valuation} {s t : State} {f : Frame} {v : Value} {d : Datum}

theorem cleanup (h : Represents ρ s f) : Represents ρ s.cleanup f where
  stack := h.stack
  vars := h.vars
  models := ⟨fun e he => h.models.constraints e (List.mem_filter.1 he).1,
    fun r hr => h.models.relations r (List.mem_filter.1 hr).1⟩

theorem push (h : Represents ρ s f) (hv : v.eval ρ = some d) :
    Represents ρ (s.push v) ⟨d :: f.stack, f.vars⟩ where
  stack := by
    rw [State.push, List.map_cons, List.map_cons, hv, h.stack]
  vars := h.vars
  models := ⟨h.models.constraints, h.models.relations⟩

theorem put (h : Represents ρ s f) (var : String) (hv : v.eval ρ = some d) :
    Represents ρ (s.put var v)
      ⟨f.stack, fun name => if name = var then some d else f.vars name⟩ where
  stack := h.stack
  vars name := by
    dsimp only
    rw [State.value?_put]
    split
    · rw [Option.map_some, Option.map_some, hv]
    · exact h.vars name
  models := ⟨h.models.constraints, h.models.relations⟩

theorem unstack (h : Represents ρ s f) {n : Nat} {vs : List Value} {ds rest : List Datum}
    (hunstack : s.unstack n = .ok (t, vs)) (hstack : f.stack = ds ++ rest)
    (hlength : ds.length = n) :
    vs.map (Value.eval ρ) = ds.reverse.map some ∧ Represents ρ t ⟨rest, f.vars⟩ := by
  have hmap := h.stack
  rw [hstack] at hmap
  unfold State.unstack at hunstack
  split at hunstack
  next =>
    cases hunstack
    refine ⟨?_, ?_, h.vars, ⟨h.models.constraints, h.models.relations⟩⟩
    · rw [List.map_reverse, List.map_take, hmap, ← List.map_take, List.take_left' hlength,
        List.map_reverse]
    · rw [List.map_drop, hmap, ← List.map_drop, List.drop_left' hlength]
  next => contradiction

theorem unstack_two (h : Represents ρ s f) {vs : List Value} {a b : Datum} {rest : List Datum}
    (hunstack : s.unstack 2 = .ok (t, vs)) (hstack : f.stack = b :: a :: rest) :
    ∃ l r, vs = [l, r] ∧ l.eval ρ = some a ∧ r.eval ρ = some b ∧ Represents ρ t ⟨rest, f.vars⟩ := by
  have hsplit : f.stack = [b, a] ++ rest := hstack
  obtain ⟨hvs, ht⟩ := h.unstack hunstack hsplit rfl
  rcases vs with _ | ⟨l, _ | ⟨r, _ | _⟩⟩ <;> simp at hvs
  exact ⟨l, r, rfl, hvs.1, hvs.2, ht⟩

theorem pop (h : Represents ρ s f) {rest : List Datum} (hpop : s.pop = .ok (t, v))
    (hstack : f.stack = d :: rest) : v.eval ρ = some d ∧ Represents ρ t ⟨rest, f.vars⟩ := by
  have hmap := h.stack
  unfold State.pop at hpop
  split at hpop
  next => contradiction
  next w ws hw =>
    cases hpop
    rw [hw, hstack, List.map_cons, List.map_cons, List.cons.injEq] at hmap
    exact ⟨hmap.1, hmap.2, h.vars, ⟨h.models.constraints, h.models.relations⟩⟩

theorem value? (h : Represents ρ s f) {var : String} (hd : f.vars var = some d) :
    ∃ v, s.value? var = some v ∧ v.eval ρ = some d := by
  have hvar := h.vars var
  rw [hd, Option.map_some, Option.map_eq_some_iff] at hvar
  exact hvar

theorem of_below (h : Represents ρ s f) {n : Nat} (hbelow : s.Below n)
    (hρ : ∀ id < n, ρ id = σ id) : Represents σ s f where
  stack := by
    rw [← h.stack]
    exact List.map_congr_left fun v hv =>
      (Value.eval_of_below (hbelow.stack v hv) hρ).symm
  vars name := by
    rw [← h.vars name]
    cases hv : s.value? name with
    | none => rfl
    | some v =>
      have hv := hbelow.vars _ (State.value?_eq_some.1 hv)
      exact congrArg some (Value.eval_of_below hv hρ).symm
  models := h.models.of_below hbelow hρ

end Represents

def Valuation.set (ρ : Valuation) (id : Nat) (d : Datum) : Valuation :=
  fun j => if j = id then d else ρ j

theorem Valuation.set_of_lt (ρ : Valuation) (d : Datum) {j id : Nat} (h : j < id) :
    ρ j = ρ.set id d j := by
  rw [set, if_neg (Nat.ne_of_lt h)]

theorem Valuation.eval_set (ρ : Valuation) {id : Nat} (hid : Value.firstFreeId ≤ id) (d : Datum)
    {v : Value} (hv : v = .simple id ∨ v = .boolean id) : v.eval (ρ.set id d) = some d := by
  have hset : ρ.set id d id = d := if_pos rfl
  rcases hv with rfl | rfl
  · rw [Value.eval, read_of_le hid, hset]
  · rw [Value.eval, hset]

theorem Represents.push_fresh {ρ : Valuation} {s : State} {f : Frame} {supply : Supply}
    (h : Represents ρ s f) (hbelow : s.Below supply.next)
    (hfree : Value.firstFreeId ≤ supply.next) (d : Datum) {v : Value}
    (hv : v = .simple supply.next ∨ v = .boolean supply.next) :
    ∃ σ, Represents σ (s.push v) ⟨d :: f.stack, f.vars⟩ :=
  ⟨ρ.set supply.next d, (h.of_below hbelow fun _ => ρ.set_of_lt d).push (ρ.eval_set hfree d hv)⟩

theorem BinaryOp.eval_apply_of_compares {op : BinaryOp} {g : Int → Int → Bool}
    (hop : op.compares? = some g) {ρ : Valuation} {l r : Value} {a b : Int}
    (hl : l.eval ρ = some (.int a)) (hr : r.eval ρ = some (.int b)) (supply : Supply) :
    (op.apply l r supply).1.eval ρ = some (.bool (g a b)) := by
  cases op <;> cases hop
  case greaterThan => exact Value.eval_relational_eq_some.2 ⟨b, a, _, hr, hl, rfl, rfl⟩
  case lessOrEqual => exact Value.eval_relational_eq_some.2 ⟨b, a, _, hr, hl, rfl, rfl⟩
  all_goals exact Value.eval_relational_eq_some.2 ⟨a, b, _, hl, hr, rfl, rfl⟩

theorem BinaryOp.eval_apply_of_logical {op : BinaryOp} {g : Bool → Bool → Bool}
    (hop : op.logical? = some g) {ρ : Valuation} {l r : Value} {a b : Bool}
    (hl : l.eval ρ = some (.bool a)) (hr : r.eval ρ = some (.bool b)) (supply : Supply) :
    (op.apply l r supply).1.eval ρ = some (.bool (g a b)) := by
  cases op <;> cases hop <;> exact Value.eval_binary_eq_some.2 ⟨a, b, hl, hr, rfl⟩

theorem BinaryOp.apply_of_isArithmetic {op : BinaryOp} (hop : op.isArithmetic) (l r : Value)
    (supply : Supply) : (op.apply l r supply).1 = .simple supply.next := by
  cases op <;> try contradiction
  all_goals rfl

theorem Supply.ofType_eq (supply : Supply) (type : ValueType) :
    (supply.ofType type).1 = .simple supply.next ∨
      (supply.ofType type).1 = .boolean supply.next := by
  unfold ofType
  split
  · exact .inr rfl
  · exact .inl rfl

/-- Whatever an instruction can do to a frame, executing it represents. -/
theorem Instruction.execute_represents {i : Instruction} {s t : State} {supply left : Supply}
    {ρ : Valuation} {f f' : Frame} (h : Represents ρ s f) (hbelow : s.Below supply.next)
    (hfree : Value.firstFreeId ≤ supply.next) (hruns : i.Runs f f')
    (hexecute : i.execute s supply = .ok (t, left)) : ∃ σ, Represents σ t f' := by
  have hdurable := State.durable_below hfree
  cases hruns with
  | int =>
    cases hexecute
    exact h.push_fresh hbelow hfree _ (.inl rfl)
  | @bool b =>
    cases b <;> cases hexecute <;> exact ⟨ρ, h.push rfl⟩
  | read hd =>
    obtain ⟨v, hv, heval⟩ := h.value? hd
    simp only [execute, hv] at hexecute
    cases hexecute
    exact ⟨ρ, h.push heval⟩
  | assign =>
    obtain ⟨⟨u, v⟩, hpop, hexecute⟩ := bind_eq_ok.1 hexecute
    obtain ⟨heval, hu⟩ := h.pop hpop rfl
    cases hexecute
    exact ⟨ρ, hu.put _ heval⟩
  | pop =>
    obtain ⟨⟨u, v⟩, hpop, hexecute⟩ := bind_eq_ok.1 hexecute
    cases hexecute
    exact ⟨ρ, (h.pop hpop rfl).2⟩
  | @call method _ _ _ _ _ _ d _ hequals hvoid hlength _ =>
    obtain ⟨⟨u, vs⟩, hunstack, hexecute⟩ := bind_eq_ok.1 hexecute
    have hu := (h.unstack hunstack rfl hlength).2
    have hbelow' := (hdurable.unstack_kept hbelow hunstack).1
    simp only [hequals, hvoid, Bool.false_eq_true, if_false] at hexecute
    cases hexecute
    exact hu.push_fresh hbelow' hfree d (supply.ofType_eq method.returns)
  | perform _ hequals hvoid hlength =>
    obtain ⟨⟨u, vs⟩, hunstack, hexecute⟩ := bind_eq_ok.1 hexecute
    have hu := (h.unstack hunstack rfl hlength).2
    simp only [hequals, hvoid, if_true] at hexecute
    cases hexecute
    exact ⟨ρ, hu⟩
  | @compare op _ _ a b _ _ hop =>
    obtain ⟨⟨u, vs⟩, hunstack, hexecute⟩ := bind_eq_ok.1 hexecute
    obtain ⟨l, r, rfl, hl, hr, hu⟩ := h.unstack_two hunstack rfl
    cases hexecute
    exact ⟨ρ, hu.push (BinaryOp.eval_apply_of_compares hop hl hr supply)⟩
  | @logic op _ _ a b _ _ hop =>
    obtain ⟨⟨u, vs⟩, hunstack, hexecute⟩ := bind_eq_ok.1 hexecute
    obtain ⟨l, r, rfl, hl, hr, hu⟩ := h.unstack_two hunstack rfl
    cases hexecute
    exact ⟨ρ, hu.push (BinaryOp.eval_apply_of_logical hop hl hr supply)⟩
  | @arithmetic op _ a b i _ _ hop =>
    obtain ⟨⟨u, vs⟩, hunstack, hexecute⟩ := bind_eq_ok.1 hexecute
    have hbelow' := (hdurable.unstack_kept hbelow hunstack).1
    obtain ⟨l, r, rfl, _, _, hu⟩ := h.unstack_two hunstack rfl
    cases hexecute
    have happly := BinaryOp.apply_of_isArithmetic hop l r supply
    exact hu.push_fresh hbelow' hfree (.int i) (.inl happly)
  | not =>
    obtain ⟨⟨u, v⟩, hpop, hexecute⟩ := bind_eq_ok.1 hexecute
    obtain ⟨heval, hu⟩ := h.pop hpop rfl
    cases hexecute
    exact ⟨ρ, hu.push (Value.eval_not_eq_some.2 ⟨_, heval, rfl⟩)⟩
  | @negate _ a i =>
    obtain ⟨⟨u, v⟩, hpop, hexecute⟩ := bind_eq_ok.1 hexecute
    have hu := (h.pop hpop rfl).2
    have hbelow' := (hdurable.pop_kept hbelow hpop).1
    cases hexecute
    exact hu.push_fresh hbelow' hfree (.int i) (.inl rfl)

end Pathwise
