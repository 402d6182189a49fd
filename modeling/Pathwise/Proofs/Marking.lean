import Pathwise.Proofs.Frame

namespace Pathwise

namespace State

/-- `w` is `v` or one of the values that a known identity ties to it. -/
def Tied (s : State) (v w : Value) : Prop := ∃ u ∈ v :: s.equalValues v, u ≈ w

/-- The states differ at most in what the values of `E` hold in domain `d`. -/
structure AgreesBut (E : Value → Prop) (d : Domain) (s t : State) : Prop
    extends s.SameFrame t where
  relations : t.relations = s.relations
  values : ∀ {w}, ¬ E w → t.constraintsOf? w = s.constraintsOf? w
  domains : ∀ {e}, e ≠ d → ∀ w, t.constraint? w e = s.constraint? w e

section

variable {E : Value → Prop} {s t u : State} {v : Value} {c : Constraint} {d : Domain}

theorem AgreesBut.refl (s : State) : AgreesBut E d s s where
  toSameFrame := .refl s
  relations := rfl
  values _ := rfl
  domains _ _ := rfl

theorem AgreesBut.trans (h : AgreesBut E d s t) (h' : AgreesBut E d t u) : AgreesBut E d s u where
  toSameFrame := h.toSameFrame.trans h'.toSameFrame
  relations := h'.relations.trans h.relations
  values hw := (h'.values hw).trans (h.values hw)
  domains he w := (h'.domains he w).trans (h.domains he w)

theorem AgreesBut.equalValues_eq (h : AgreesBut E d s t) (v : Value) :
    t.equalValues v = s.equalValues v := by
  rw [equalValues, equalValues, h.relations]

theorem agreesBut_of_constrain? (hv : ∀ w, v ≈ w → E w) (h : s.constrain? v c = some t) :
    AgreesBut E c.domain s t where
  toSameFrame := sameFrame_of_constrain? h
  relations := relations_of_constrain? h
  values {w} hw := by
    rw [constraintsOf?, constraintsOf?, find?_of_constrain? h fun hvw => hw (hv w hvw)]
  domains he w := by rw [constraint?_of_constrain? h, if_neg fun heq => he heq.2.symm]

theorem constraintsOf?_release_of_not_equiv {w : Value} (h : ¬ v ≈ w) (s : State) (d : Domain) :
    (s.release v d).constraintsOf? w = s.constraintsOf? w := by
  unfold release
  cases s.constraintsOf? v with
  | none => rfl
  | some held =>
    dsimp only
    split
    · rw [constraintsOf?_erase, if_neg h]
    · rw [constraintsOf?_insert, if_neg h]

theorem agreesBut_release (hv : ∀ w, v ≈ w → E w) (s : State) (d : Domain) :
    AgreesBut E d s (s.release v d) where
  toSameFrame := sameFrame_release s v d
  relations := relations_release s v d
  values {w} hw := constraintsOf?_release_of_not_equiv (fun hvw => hw (hv w hvw)) s d
  domains he w := by rw [constraint?_release, if_neg fun heq => he heq.2.symm]

theorem agreesBut_foldl {f : State → Value → State} {vs : List Value}
    (h : ∀ s, ∀ w ∈ vs, AgreesBut E d s (f s w)) (s : State) : AgreesBut E d s (vs.foldl f s) := by
  apply List.foldlRecOn
  · exact .refl s
  · exact fun t ht w hw => ht.trans (h t w hw)

theorem constraint?_foldl_release (vs : List Value) (s : State) (w : Value) (d : Domain) :
    (vs.foldl (fun s u => s.release u d) s).constraint? w d =
      if ∃ u ∈ vs, u ≈ w then none else s.constraint? w d := by
  induction vs generalizing s with
  | nil => simp
  | cons u vs ih =>
    rw [List.foldl_cons, ih, constraint?_release]
    simp only [List.mem_cons, exists_eq_or_imp, and_true]
    by_cases hu : u ≈ w
    · simp only [hu, true_or, if_true, ite_self]
    · simp only [hu, false_or, if_false]

end

variable {s t : State} {v : Value} {c : Constraint}

theorem Tied.of_mem {u w : Value} (hu : u ∈ v :: s.equalValues v) (h : u ≈ w) : s.Tied v w :=
  ⟨u, hu, h⟩

/-- A constraint can be added to a value and all that are tied to it unless one of them holds a
different one of its domain. -/
theorem isSome_constrainEqual?_iff :
    (s.constrainEqual? v c).isSome ↔
      ∀ w, s.Tied v w → ∀ c', s.constraint? w c.domain = some c' → c' = c := by
  rw [Option.isSome_iff_exists, constrainEqual?, foldlM_constrain?]
  constructor
  · rintro h w ⟨u, hu, huw⟩ c' hc'
    exact h u hu c' ((constraint?_congr huw _).trans hc')
  · exact fun h u hu => h u (.of_mem hu (Setoid.refl u))

theorem constraint?_of_constrainEqual? (h : s.constrainEqual? v c = some t) {w : Value}
    (hw : s.Tied v w) : t.constraint? w c.domain = some c := by
  rw [constraint?_of_foldlM h, if_pos ⟨hw, rfl⟩]

theorem agreesBut_of_constrainEqual? (h : s.constrainEqual? v c = some t) :
    AgreesBut (s.Tied v) c.domain s t :=
  foldlM_constrain?_induction (I := AgreesBut (s.Tied v) c.domain s)
    (fun hu hs ht => hs.trans (agreesBut_of_constrain? (fun _ => .of_mem hu) ht)) (.refl s) h

end State

namespace Detector.UnclosedResources

open State

theorem markOpen_spec (id : Nat) (s : State) (v : Value) :
    (∀ w, s.Tied v w → (markOpen id s v).constraint? w (.custom id) = some (opened id)) ∧
      AgreesBut (s.Tied v) (.custom id) s (markOpen id s v) := by
  unfold markOpen
  dsimp only
  have hcleared : ∀ w, s.Tied v w →
      ((v :: s.equalValues v).foldl (fun s w => s.release w (.custom id)) s).constraint? w
        (.custom id) = none := by
    intro w hw
    rw [constraint?_foldl_release]
    exact if_pos hw
  have hagrees : AgreesBut (s.Tied v) (.custom id) s
      ((v :: s.equalValues v).foldl (fun s w => s.release w (.custom id)) s) :=
    agreesBut_foldl (fun s w hw => agreesBut_release (fun _ => .of_mem hw) s _) s
  generalize (v :: s.equalValues v).foldl (fun s w => s.release w (.custom id)) s = t
    at hcleared hagrees
  have htied : t.Tied v = s.Tied v := by
    funext w
    rw [Tied, Tied, hagrees.equalValues_eq]
  have hsome : (t.constrainEqual? v (opened id)).isSome := by
    refine isSome_constrainEqual?_iff.2 fun w hw c' hc' => ?_
    cases (hcleared w (htied ▸ hw)).symm.trans hc'
  obtain ⟨u, hu⟩ := Option.isSome_iff_exists.1 hsome
  rw [hu, Option.getD_some]
  refine ⟨fun w hw => constraint?_of_constrainEqual? hu (htied ▸ hw), ?_⟩
  exact hagrees.trans (htied ▸ agreesBut_of_constrainEqual? hu)

def closeOne (id : Nat) (s : State) (w : Value) : State :=
  if s.constraint? w (.custom id) = some (opened id) then
    (s.release w (.custom id)).constrain w (closed id)
  else s

theorem markClosed_eq (id : Nat) (s : State) (v : Value) :
    markClosed id s v = (v :: s.equalValues v).foldl (closeOne id) s := rfl

theorem closeOne_cases (id : Nat) (s : State) (w : Value) :
    s.constraint? w (.custom id) = some (opened id) ∧
        (s.release w (.custom id)).constrain? w (closed id) = some (closeOne id s w) ∨
      s.constraint? w (.custom id) ≠ some (opened id) ∧ closeOne id s w = s := by
  unfold closeOne
  split
  next hopen =>
    have hnone : (s.release w (.custom id)).constraint? w (closed id).domain = none := by
      rw [constraint?_release, if_pos ⟨Setoid.refl w, rfl⟩]
    obtain ⟨t, ht⟩ := exists_constrain? (s := s.release w (.custom id)) (v := w) (c := closed id)
      fun c' hc' => by cases hnone.symm.trans hc'
    rw [constrain, ht]
    exact .inl ⟨hopen, rfl⟩
  next hopen => exact .inr ⟨hopen, rfl⟩

theorem closeOne_agreesBut {E : Value → Prop} (id : Nat) (s : State) {w : Value}
    (hw : ∀ u, w ≈ u → E u) : AgreesBut E (.custom id) s (closeOne id s w) := by
  rcases closeOne_cases id s w with ⟨_, h⟩ | ⟨_, h⟩
  · exact (agreesBut_release hw s _).trans (agreesBut_of_constrain? hw h)
  · rw [h]
    exact .refl s

theorem constraint?_closeOne (id : Nat) (s : State) (w u : Value) :
    (closeOne id s w).constraint? u (.custom id) =
      if w ≈ u ∧ s.constraint? u (.custom id) = some (opened id) then some (closed id)
      else s.constraint? u (.custom id) := by
  rcases closeOne_cases id s w with ⟨hopen, h⟩ | ⟨hopen, h⟩
  · rw [constraint?_of_constrain? h, constraint?_release]
    by_cases hwu : w ≈ u
    · rw [if_pos ⟨hwu, rfl⟩, if_pos ⟨hwu, (constraint?_congr hwu _).symm.trans hopen⟩]
    · rw [if_neg fun h => hwu h.1, if_neg fun h => hwu h.1, if_neg fun h => hwu h.1]
  · rw [h, if_neg]
    rintro ⟨hwu, hu⟩
    exact hopen ((constraint?_congr hwu _).trans hu)

/-- Closing the values of a list closes those that were open at the start: none is open again after
it was closed, so it does not matter how often a value is listed. -/
theorem constraint?_foldl_closeOne (id : Nat) (vs : List Value) (s : State) (u : Value) :
    (vs.foldl (closeOne id) s).constraint? u (.custom id) =
      if (∃ w ∈ vs, w ≈ u) ∧ s.constraint? u (.custom id) = some (opened id) then some (closed id)
      else s.constraint? u (.custom id) := by
  have hne : some (closed id) ≠ some (opened id) := fun h => by cases h
  induction vs generalizing s with
  | nil => simp
  | cons w vs ih =>
    rw [List.foldl_cons, ih, constraint?_closeOne]
    simp only [List.mem_cons, exists_eq_or_imp]
    by_cases hopen : s.constraint? u (.custom id) = some (opened id)
    · by_cases hw : w ≈ u
      · simp only [hw, hopen, hne, true_and, true_or, and_false, if_true, if_false]
      · simp only [hw, hopen, false_and, false_or, if_false]
    · simp only [hopen, and_false, if_false]

theorem markClosed_spec (id : Nat) (s : State) (v : Value) :
    (∀ w, s.Tied v w → (markClosed id s v).constraint? w (.custom id) =
        if s.constraint? w (.custom id) = some (opened id) then some (closed id)
        else s.constraint? w (.custom id)) ∧
      AgreesBut (s.Tied v) (.custom id) s (markClosed id s v) := by
  rw [markClosed_eq]
  constructor
  · intro w hw
    rw [constraint?_foldl_closeOne]
    have htied : (∃ u ∈ v :: s.equalValues v, u ≈ w) = True := eq_true hw
    simp only [htied, true_and]
  · exact agreesBut_foldl (fun t w hw => closeOne_agreesBut id t fun _ => .of_mem hw) s

end Detector.UnclosedResources

open Detector.UnclosedResources in
/-- A constraint is added to a value and to all values tied to it, or to none of them; it is added
just if none of them holds a different one of its domain. Opening makes all of them open, and
closing makes closed those of them that were open. Whatever is done, all other values, all other
domains and the rest of the state are as before. -/
theorem State.tied_marked (s : State) (v : Value) :
    (∀ c,
      ((s.constrainEqual? v c).isSome ↔
        ∀ w, s.Tied v w → ∀ c', s.constraint? w c.domain = some c' → c' = c) ∧
      ∀ t ∈ s.constrainEqual? v c, (∀ w, s.Tied v w → t.constraint? w c.domain = some c) ∧
        AgreesBut (s.Tied v) c.domain s t) ∧
    ∀ id,
      ((∀ w, s.Tied v w → (markOpen id s v).constraint? w (.custom id) = some (opened id)) ∧
        AgreesBut (s.Tied v) (.custom id) s (markOpen id s v)) ∧
      (∀ w, s.Tied v w → (markClosed id s v).constraint? w (.custom id) =
          if s.constraint? w (.custom id) = some (opened id) then some (closed id)
          else s.constraint? w (.custom id)) ∧
        AgreesBut (s.Tied v) (.custom id) s (markClosed id s v) := by
  refine ⟨fun c => ⟨isSome_constrainEqual?_iff, fun t ht => ?_⟩, fun id => ?_⟩
  · exact ⟨fun w => constraint?_of_constrainEqual? ht, agreesBut_of_constrainEqual? ht⟩
  · exact ⟨markOpen_spec id s v, markClosed_spec id s v⟩

def State.aliased : State :=
  (State.empty.learn ⟨.equal, .simple 4, .simple 3⟩).constrain (.simple 4)
    (Detector.UnclosedResources.closed 0)

open Detector.UnclosedResources in
theorem State.tied_marked_alias :
    State.aliased.constrainEqual? (.simple 3) (opened 0) = none ∧
    (markOpen 0 State.aliased (.simple 3)).constraint? (.simple 4) (.custom 0) =
      some (opened 0) := by
  have htied : State.aliased.Tied (.simple 3) (.simple 4) := ⟨.simple 4, by decide, Setoid.refl _⟩
  have hclosed : State.aliased.constraint? (.simple 4) (.custom 0) = some (closed 0) := by decide
  obtain ⟨hadd, hmark⟩ := tied_marked State.aliased (.simple 3)
  constructor
  · rw [← Option.not_isSome_iff_eq_none, (hadd (opened 0)).1]
    intro h
    exact absurd (h _ htied _ hclosed) (by decide)
  · exact (hmark 0).1.1 _ htied

end Pathwise
