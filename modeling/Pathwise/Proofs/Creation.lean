import Pathwise.Proofs.Run
import Pathwise.Proofs.Visits

namespace Pathwise

namespace ControlFlow

variable {c : ControlFlow} {o : Options} {p q : Point}

def points (c : ControlFlow) : List Point :=
  c.routine.blocks.flatMap fun b => (List.range (b.instructions.length + 1)).map (⟨b.id, ·⟩)

theorem mem_points {b : Block} (h : c.block? p.block = some b)
    (hp : p.index ≤ b.instructions.length) : p ∈ c.points := by
  obtain ⟨hb, hid⟩ := mem_of_block? h
  refine List.mem_flatMap.2 ⟨b, hb, List.mem_map.2 ⟨p.index, ?_, ?_⟩⟩
  · exact List.mem_range.2 (Nat.lt_succ_of_le hp)
  · rw [hid]

theorem first_mem_points {id : BlockId} (h : id ∈ c.routine.blockIds) : ⟨id, 0⟩ ∈ c.points := by
  obtain ⟨b, hb⟩ := exists_block h
  exact mem_points hb (Nat.zero_le _)

theorem block_eq_ok {id : BlockId} {b : Block} (h : c.block id = .ok b) : c.block? id = some b := by
  unfold block at h
  split at h
  next hb =>
    cases h
    exact hb
  next => contradiction

theorem handlers_eq_ok {id : BlockId} {handlers : List BlockId} (h : c.handlers id = .ok handlers) :
    ∃ b, c.block? id = some b ∧ b.handlers = handlers := by
  obtain ⟨b, hb, h⟩ := bind_eq_ok.1 h
  cases h
  exact ⟨b, block_eq_ok hb, rfl⟩

theorem element_eq_instruction {i : Instruction} (h : c.element p = .ok (.instruction i)) :
    ∃ b, c.block? p.block = some b ∧ p.index < b.instructions.length := by
  obtain ⟨b, hb, h⟩ := bind_eq_ok.1 h
  refine ⟨b, block_eq_ok hb, ?_⟩
  split at h
  next hi => exact (List.getElem?_eq_some_iff.1 hi).1
  next => split at h <;> cases h

theorem element_eq_terminator {t : Terminator} (h : c.element p = .ok (.terminator t)) :
    ∃ b, c.block? p.block = some b ∧ b.terminator = t := by
  obtain ⟨b, hb, h⟩ := bind_eq_ok.1 h
  refine ⟨b, block_eq_ok hb, ?_⟩
  split at h
  next => cases h
  next =>
    split at h
    · cases h
      rfl
    · cases h

theorem Follows.mem_points {exceptional : Bool} (h : c.Follows o p exceptional q) :
    q ∈ c.points := by
  have htarget {id target : BlockId} {b : Block} (hb : c.block? id = some b)
      (ht : target ∈ b.targets) : ⟨target, 0⟩ ∈ c.points :=
    first_mem_points (c.targets_mem b (mem_of_block? hb).1 target ht)
  cases h with
  | next hi =>
    obtain ⟨b, hb, hlt⟩ := element_eq_instruction hi
    exact ControlFlow.mem_points hb hlt
  | jump ht hmem =>
    obtain ⟨b, hb, rfl⟩ := element_eq_terminator ht
    exact htarget hb (List.mem_append_left _ hmem)
  | throw _ hhandlers hmem =>
    obtain ⟨b, hb, rfl⟩ := handlers_eq_ok hhandlers
    exact htarget hb (List.mem_append_right _ hmem)
  | call _ _ _ _ hhandlers hmem =>
    obtain ⟨b, hb, rfl⟩ := handlers_eq_ok hhandlers
    exact htarget hb (List.mem_append_right _ hmem)

end ControlFlow

namespace State

theorem visitCount_visit (s : State) (p q : Point) :
    (s.visit p).visitCount q = if p = q then s.visitCount q + 1 else s.visitCount q := by
  have hkey : compare p q = .eq ↔ p = q := Std.LawfulEqCmp.compare_eq_iff_eq
  simp only [visitCount, visit, Keyed.find?_insert, hkey]
  split
  next h => simp [h]
  next => rfl

theorem visitCount_congr {s t : State} (h : s.visits = t.visits) (p : Point) :
    s.visitCount p = t.visitCount p := by
  rw [visitCount, visitCount, h]

end State

namespace Graph

/-- The points of the nodes by which a node was created, from its own one back to the entry. -/
inductive Created (g : Graph) : NodeId → List Point → Prop
  | entry {n} : g.node? 0 = some n → Created g 0 [n.point]
  | child {id n e ps} : id ≠ 0 → g.node? id = some n → n.parents.head? = some e →
      Created g e.parent ps → Created g id (n.point :: ps)

variable {g h : Graph} {o : Options} {id : NodeId} {ps qs : List Point}

theorem Created.unique (hps : g.Created id ps) (hqs : g.Created id qs) : ps = qs := by
  induction hps generalizing qs with
  | entry hn =>
    cases hqs with
    | entry hm => rw [Option.some.inj (hn.symm.trans hm)]
    | child hne => contradiction
  | child hne hn he _ ih =>
    cases hqs with
    | entry => contradiction
    | child _ hm he' hrest =>
      cases hn.symm.trans hm
      cases he.symm.trans he'
      rw [ih hrest]

theorem Created.extends (hps : g.Created id ps) (hextends : g.Extends h) : h.Created id ps := by
  induction hps with
  | entry hn =>
    obtain ⟨n', hn', hnn'⟩ := hextends.node hn
    exact hnn'.point ▸ .entry hn'
  | child hne hn he _ ih =>
    obtain ⟨n', hn', hnn'⟩ := hextends.node hn
    obtain ⟨more, hmore⟩ := hnn'.parents
    refine hnn'.point ▸ .child hne hn' ?_ ih
    rw [← hmore, List.head?_append, he]
    rfl

theorem WellFormed.mem_points_of_created (hg : g.WellFormed o) (hps : g.Created id ps) :
    ∀ p ∈ ps, p ∈ g.flow.points := by
  induction hps with
  | entry hn =>
    obtain ⟨n, hn', hp⟩ := hg.entry
    cases hn.symm.trans hn'
    intro p hmem
    rw [List.mem_singleton.1 hmem, hp]
    exact ControlFlow.first_mem_points g.flow.entry_mem
  | child _ hn he _ ih =>
    intro p hmem
    rcases List.mem_cons.1 hmem with rfl | hmem
    · obtain ⟨m, _, hfollow⟩ := hg.edges_follow hn (List.mem_of_head? he)
      exact hfollow.mem_points
    · exact ih p hmem

theorem WellFormed.mem_points (hg : g.WellFormed o) {n : Node} (hn : g.node? id = some n) :
    n.point ∈ g.flow.points := by
  by_cases hid : id = 0
  · obtain ⟨m, hm, hp⟩ := hg.entry
    cases hn.symm.trans (hid ▸ hm)
    rw [hp]
    exact ControlFlow.first_mem_points g.flow.entry_mem
  · obtain ⟨e, he, _⟩ := hg.created hn hid
    obtain ⟨_, _, hfollow⟩ := hg.edges_follow hn (List.mem_of_head? he)
    exact hfollow.mem_points

/-- Every state counts the points by which its node was created, none of them more than `limit`
times. -/
def Counted (limit : Nat) (g : Graph) : Prop :=
  ∀ ⦃id n⦄, g.node? id = some n →
    ∃ ps, g.Created id ps ∧ ∀ p, n.state.visitCount p = ps.count p ∧ ps.count p ≤ limit

theorem Counted.addParent {limit : Nat} (hg : g.Counted limit) (i : NodeId) (e : Edge) :
    (g.addParent i e).Counted limit := by
  intro id n hn
  obtain ⟨m, hm, _, hstate, _⟩ := node?_addParent_eq_some hn
  obtain ⟨ps, hps, hcount⟩ := hg hm
  exact ⟨ps, hps.extends (g.extends_addParent i e), hstate ▸ hcount⟩

/-- A state that comes from `m` and is new at a point has gone through that point once more. -/
theorem Counted.insert {limit : Nat} (hg : g.Counted limit) {p : Point} {s : State} {e : Edge}
    {m : Node} (hm : g.node? e.parent = some m) (hvisits : s.visits = m.state.visits)
    (hlt : s.visitCount p < limit) : (g.insert p (s.visit p) [e]).Counted limit := by
  have hextends := g.extends_insert p (s.visit p) [e]
  intro id n hn
  rcases node?_insert_eq_some hn with hn | ⟨rfl, rfl⟩
  · obtain ⟨ps, hps, hcount⟩ := hg hn
    exact ⟨ps, hps.extends hextends, hcount⟩
  · -- the path of the new node is that of `m`, with `p` in front
    obtain ⟨ps, hps, hcount⟩ := hg hm
    have hne : g.size ≠ 0 := Nat.ne_of_gt (Nat.lt_of_le_of_lt (Nat.zero_le _) (lt_size hm))
    refine ⟨p :: ps, .child hne hn rfl (hps.extends hextends), fun q => ?_⟩
    have hq := hcount q
    rw [← State.visitCount_congr hvisits q] at hq
    rw [State.visitCount_visit, List.count_cons]
    by_cases hpq : p = q
    · subst hpq
      simp only [if_pos, BEq.rfl]
      omega
    · simp only [if_neg hpq, beq_iff_eq]
      omega

end Graph

namespace Exploration

variable {detectors : List Detector} {o : Options} {flow : ControlFlow}

/-- How often a path comes to a point at most. The first node is there in any case. -/
def visitLimit (o : Options) : Nat := max 1 o.maxVisitsPerPoint

theorem counted_start (o : Options) (flow : ControlFlow) :
    (start o flow).graph.Counted (visitLimit o) := by
  intro id n hn
  obtain ⟨rfl, rfl⟩ := start_node? hn
  have hinitial : (State.initial flow.parameters {}).1.visits = ∅ :=
    State.initial_induction (I := fun _ s _ => s.visits = ∅) rfl (fun _ _ _ h => h)
      flow.parameters
  refine ⟨[flow.entry], .entry hn, fun p => ?_⟩
  rw [State.visitCount_visit, State.visitCount, hinitial, List.count_singleton, visitLimit]
  have hlimit : 1 ≤ max 1 o.maxVisitsPerPoint := Nat.le_max_left ..
  by_cases hp : flow.entry = p
  · simp [hp, hlimit]
  · simp [hp]

theorem counted_enqueue {x : Exploration} {p : Point} {s : State} {e : Edge} {m : Node}
    (hx : x.graph.Counted (visitLimit o)) (hm : x.graph.node? e.parent = some m)
    (hvisits : s.visits = m.state.visits) :
    (x.enqueue o p s e).graph.Counted (visitLimit o) := by
  rcases enqueue_cases o x p s e with ⟨i, _, h⟩ | ⟨_, _, h, _⟩ | ⟨_, hlt, h⟩
  · rw [h]
    exact hx.addParent i e
  · rw [h]
    exact hx
  · rw [h]
    exact hx.insert hm hvisits (Nat.lt_of_lt_of_le hlt (Nat.le_max_right _ _))

theorem Reached.counted (hdetectors : ∀ d ∈ detectors, d.KeepsVisits) {done : List NodeId}
    {x : Exploration} {failure? : Option Failure} (h : Reached detectors o flow done x failure?) :
    x.graph.Counted (visitLimit o) := by
  induction h with
  | start => exact counted_start o flow
  | step hx hnext hnode hstep ih =>
    have hwell := hx.wellFormed.proceed hnext
    cases step_stepped hstep with
    | failed hquiet _ => exact hquiet.graph ▸ ih
    | sunk _ hquiet _ => exact hquiet.graph ▸ ih
    | performed helement hadjusted hyields henqueued =>
      refine (hwell.enqueued (I := fun z => z.graph.Counted (visitLimit o)) hnode
        (hyields.follows helement) henqueued ih ?_ ?_).2
      · intro z w hquiet hz
        exact hquiet.graph ▸ hz
      · intro z a ha _ hextends hz
        obtain ⟨m, hm, hmn⟩ := hextends.node hnode
        refine counted_enqueue hz hm ?_
        rw [hmn.state, hyields.visits_eq hdetectors a ha, hadjusted.visits_eq hdetectors]

end Exploration

end Pathwise
