import Pathwise.Proofs.Bounds
import Pathwise.Proofs.Gathered

namespace Pathwise

/-- Some integers satisfy all the relations. -/
def Feasible (rs : List Relation) : Prop :=
  ∃ a : Nat → Int, ∀ r ∈ rs, r.Holds fun id => .int (a id)

theorem Feasible.of_append {rs ss : List Relation} (h : Feasible (rs ++ ss)) : Feasible rs := by
  obtain ⟨a, ha⟩ := h
  exact ⟨a, fun r hr => ha r (List.mem_append_left _ hr)⟩

/-- What is known after `rs` have been assumed and found to hold together. -/
structure Relations.Settles (K : Relations) (V : Nat → Prop) (rs : List Relation) : Prop where
  ordering : ∀ k ∈ K.toList, k.IsOrdering V
  closed : K.Closed
  known : ∀ r ∈ rs, K.has r
  follows : ∀ {ρ}, (∀ r ∈ rs, r.Holds ρ) → ∀ k ∈ K.toList, k.Holds ρ

namespace Relations

variable {V : Nat → Prop} {K : Relations} {rs : List Relation} {r : Relation}

theorem settles_nil : Settles ∅ V [] where
  ordering := by simp
  closed := closed_empty
  known := by simp
  follows := by simp

theorem Settles.feasible (h : K.Settles V rs) (hV : ∀ {x}, V x → Value.firstFreeId ≤ x) :
    Feasible rs := by
  obtain ⟨a, hlt, hle, _⟩ := h.closed.exists_solution
  refine ⟨a, fun r hr => ?_⟩
  obtain ⟨k, hk, hkr⟩ := has_iff.1 (h.known r hr)
  refine (Relation.holds_congr hkr).1 ((h.ordering k hk).holds hV (fun h => ?_) fun h => ?_)
  · exact hlt (bounds_of_mem hk h)
  · exact hle (bounds_of_mem hk h)

theorem Settles.of_has (h : K.Settles V rs) (hr : K.has r) : K.Settles V (rs ++ [r]) where
  ordering := h.ordering
  closed := h.closed
  known := by
    intro s hs
    rcases List.mem_append.1 hs with hs | hs
    · exact h.known s hs
    · exact List.mem_singleton.1 hs ▸ hr
  follows hρ := h.follows fun s hs => hρ s (List.mem_append_left _ hs)

theorem Settles.closure_holds {found : Relations} {budget : Budget} {ρ : Valuation}
    (h : K.Settles V rs) (hfound : r.closure K budget = .ok found)
    (hρ : ∀ s ∈ rs ++ [r], s.Holds ρ) : ∀ i ∈ (found.insert r).toList, i.Holds ρ := by
  have hr : r.Holds ρ := hρ r (by simp)
  have hknown := h.follows fun s hs => hρ s (List.mem_append_left _ hs)
  exact Relation.closure_insert_induction hfound hr
    fun hd hk he => Relation.deduce?_holds hd (hknown _ hk) he

theorem Settles.closure_ordering {found : Relations} {budget : Budget} (h : K.Settles V rs)
    (hr : r.IsOrdering V) (hfound : r.closure K budget = .ok found) :
    ∀ i ∈ (found.insert r).toList, i.IsOrdering V :=
  Relation.closure_insert_induction hfound hr
    fun hd hk he => (hd.deduce?_joins (h.ordering _ hk) he).1

theorem Settles.not_feasible {found : Relations} {budget : Budget} (h : K.Settles V rs)
    (hfound : r.closure K budget = .ok found) {i : Relation} (hi : i ∈ (found.insert r).toList)
    (hunfulfilled : i.resolve K = .unfulfilled) : ¬ Feasible (rs ++ [r]) := by
  rintro ⟨a, ha⟩
  have hknown := h.follows fun s hs => ha s (List.mem_append_left _ hs)
  exact Relation.not_holds_of_resolve hknown hunfulfilled (h.closure_holds hfound ha i hi)

/-- A relation that is not excluded is settled by adding it with its closure. -/
theorem Settles.add {found : Relations} {budget : Budget} (h : K.Settles V rs)
    (hV : ∀ {x}, V x → Value.firstFreeId ≤ x) (hr : r.IsOrdering V)
    (hfound : r.closure K budget = .ok found) (hresolve : r.resolve K ≠ .unfulfilled) :
    (K.insertAll (found.insert r).toList).Settles V (rs ++ [r]) := by
  have hcomparison : ∀ k ∈ K.toList, k.IsComparison V := fun k hk => .ordering (h.ordering k hk)
  have hcompatible := compatible_of_resolve h.closed hcomparison hV (.ordering hr) hresolve
  have hhas {e : Relation} :
      (K.insertAll (found.insert r).toList).has e ↔ has (found.insert r) e ∨ K.has e := by
    rw [has_insertAll, ← has_iff]
  have hclosed := h.closed.add hcompatible
    (h.closed.bounds_iff_reaches hcomparison (.ordering hr) hcompatible hfound hhas)
  refine ⟨fun e he => ?_, hclosed, fun s hs => ?_, fun hρ e he => ?_⟩
  · rcases mem_insertAll he with he | he
    · exact h.closure_ordering hr hfound e he
    · exact h.ordering e he
  · rcases List.mem_append.1 hs with hs | hs
    · exact hhas.2 (.inr (h.known s hs))
    · cases List.mem_singleton.1 hs
      exact hhas.2 (.inl (has_insert.2 (.inl (Setoid.refl r))))
  · rcases mem_insertAll he with he | he
    · exact h.closure_holds hfound hρ e he
    · exact h.follows (fun s hs => hρ s (List.mem_append_left _ hs)) e he

end Relations

namespace Relation

variable {s : State} {K : Relations} {rs ps : List Relation} {r : Relation}

theorem IsOrdering.between {V : Nat → Prop} (h : r.IsOrdering V) : r.Between V := by
  cases h with
  | less hx hy | greaterOrEqual hx hy | equal hx hy => exact .intro hx hy

/-- Assuming one more relation runs out of budget, or tells that the relations cannot hold together,
or settles them. -/
theorem assume_settles (budget : Budget) (h : K.Settles s.Open rs) (hr : r.IsOrdering s.Open) :
    (∃ used iterations, r.assume true budget { s with relations := K } =
        .error (.relationsExceeded used iterations)) ∨
      (r.assume true budget { s with relations := K } = .ok [] ∧ ¬ Feasible (rs ++ [r])) ∨
      ∃ L, r.assume true budget { s with relations := K } = .ok [{ s with relations := L }] ∧
        L.Settles s.Open (rs ++ [r]) := by
  rcases assume_of_open budget (fun k hk => (h.ordering k hk).between) hr.between with
    hstep | ⟨hstep, found, hfound, i, hi, hunfulfilled⟩ | ⟨L, hstep, hadds⟩
  · exact .inl hstep
  · exact .inr (.inl ⟨hstep, h.not_feasible hfound hi hunfulfilled⟩)
  · refine .inr (.inr ⟨L, hstep, ?_⟩)
    cases hadds with
    | known hhas => exact h.of_has hhas
    | closure hfound hresolve =>
      exact h.add State.Open.firstFreeId_le hr hfound (hresolve r (Relations.mem_insert_self _ r))

theorem assumeAll_settles (budget : Budget) (h : K.Settles s.Open ps)
    (hrs : ∀ r ∈ rs, r.IsOrdering s.Open) :
    (∃ used iterations, assumeAll rs budget [{ s with relations := K }] =
        .error (.relationsExceeded used iterations)) ∨
      (assumeAll rs budget [{ s with relations := K }] = .ok [] ∧ ¬ Feasible (ps ++ rs)) ∨
      ∃ L, assumeAll rs budget [{ s with relations := K }] = .ok [{ s with relations := L }] ∧
        L.Settles s.Open (ps ++ rs) :=
  assumeAll_of_assume (I := fun K ps => K.Settles s.Open ps) (J := fun ps => ¬ Feasible ps)
    (fun hps h => hps h.of_append) (fun hK hr => assume_settles budget hK (hrs _ hr)) h

/-- Assuming ordering relations between values about which nothing is known decides, after each of
them, whether integers satisfy all those assumed so far. -/
theorem assumeAll_feasible {s : State} {rs : List Relation} {budget : Budget}
    (hrelations : s.relations = ∅) (hrs : ∀ r ∈ rs, r.IsOrdering s.Open)
    (hbudget : ∀ used iterations,
      assumeAll rs budget [s] ≠ .error (.relationsExceeded used iterations)) (i : Nat) :
    ∃ states, assumeAll (rs.take i) budget [s] = .ok states ∧
      (Feasible (rs.take i) → ∃ t, states = [t]) ∧ (¬ Feasible (rs.take i) → states = []) := by
  have hstart : s = { s with relations := ∅ } := by rw [← hrelations]
  have htake : ∀ r ∈ rs.take i, r.IsOrdering s.Open := fun r hr => hrs r (List.mem_of_mem_take hr)
  have hsettles := assumeAll_settles budget Relations.settles_nil htake
  rw [List.nil_append, ← hstart] at hsettles
  rcases hsettles with ⟨used, iterations, h⟩ | ⟨h, hfeasible⟩ | ⟨L, h, hL⟩
  · refine absurd ?_ (hbudget used iterations)
    rw [← List.take_append_drop i rs, assumeAll_append, h]
    rfl
  · exact ⟨[], h, fun hf => absurd hf hfeasible, fun _ => rfl⟩
  · have hf := hL.feasible State.Open.firstFreeId_le
    exact ⟨_, h, fun _ => ⟨_, rfl⟩, fun hn => absurd hf hn⟩

end Relation

def Relation.square : List Relation := [
  ⟨.greaterOrEqual, .simple 3, .simple 4⟩, ⟨.greaterOrEqual, .simple 5, .simple 6⟩,
  ⟨.greaterOrEqual, .simple 6, .simple 3⟩, ⟨.equal, .simple 4, .simple 5⟩,
  ⟨.lessThan, .simple 6, .simple 4⟩]

theorem Relation.assumeAll_feasible_square :
    State.corners.relations = ∅ ∧ (∀ r ∈ square, r.IsOrdering State.corners.Open) ∧
      Feasible (square.take 4) ∧ (∃ t, assumeAll (square.take 4) {} [State.corners] = .ok [t]) ∧
      ¬ Feasible square ∧ assumeAll square {} [State.corners] = .ok [] := by
  have hordering : ∀ r ∈ square, r.IsOrdering State.corners.Open := by
    simp only [square, List.forall_mem_cons]
    refine ⟨.greaterOrEqual ?_ ?_, .greaterOrEqual ?_ ?_, .greaterOrEqual ?_ ?_, .equal ?_ ?_,
      .less ?_ ?_, List.forall_mem_nil _⟩ <;> exact State.corners_open (by decide)
  have hbudget (used iterations : Nat) :
      assumeAll square {} [State.corners] ≠ .error (.relationsExceeded used iterations) := by
    intro h
    have hok : (assumeAll square {} [State.corners]).isOk := by decide +kernel
    rw [h] at hok
    exact Bool.false_ne_true hok
  have hfeasible : Feasible (square.take 4) :=
    ⟨fun _ => 0, by simp only [Holds]; decide⟩
  have hinfeasible : ¬ Feasible square := by
    rintro ⟨a, ha⟩
    simp [square, Holds, toValue, Value.eval, Valuation.read, Datum.int?, Kind.decide?] at ha
    omega
  obtain ⟨states, hstates, hone, _⟩ := assumeAll_feasible rfl hordering hbudget 4
  obtain ⟨t, rfl⟩ := hone hfeasible
  obtain ⟨states', hstates', _, hnone⟩ := assumeAll_feasible rfl hordering hbudget 5
  rw [show square.take 5 = square from rfl] at hstates' hnone
  cases hnone hinfeasible
  exact ⟨rfl, hordering, hfeasible, ⟨t, hstates⟩, hinfeasible, hstates'⟩

end Pathwise
