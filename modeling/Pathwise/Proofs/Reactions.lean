import Pathwise.Detector.Catalog
import Pathwise.Proofs.Preservation

namespace Pathwise

variable {P : Value → Prop} {I : State → Prop} {s : State} {v : Value}

namespace Enduring

theorem equalValues_kept (h : Enduring P I) (hs : I s) {w : Value} (hw : w ∈ s.equalValues v) :
    P w := by
  obtain ⟨r, hr, hw⟩ := List.mem_filterMap.1 hw
  have hknown := h.known hs (List.mem_filter.1 hr).1
  split at hw
  · cases hw
    exact hknown.2
  · split at hw
    · cases hw
      exact hknown.1
    · cases hw

theorem equals_kept (h : Enduring P I) (hs : I s) (hv : P v) :
    ∀ w ∈ v :: s.equalValues v, P w :=
  List.forall_mem_cons.2 ⟨hv, fun _ hw => h.equalValues_kept hs hw⟩

theorem constrainEqual?_kept (h : Enduring P I) (hs : I s) (hv : P v) (c : Constraint) :
    I ((s.constrainEqual? v c).getD s) := by
  have hequals := h.equals_kept hs hv
  cases ht : s.constrainEqual? v c with
  | none => exact hs
  | some t =>
    refine State.foldlM_constrain?_induction (fun hw hs hu => ?_) hs ht
    exact h.constrain hs (hequals _ hw) hu

end Enduring

namespace Exposed

theorem peek_kept (h : Exposed P I) (hs : I s) {depth : Nat} (hv : s.peek depth = .ok v) : P v := by
  unfold State.peek at hv
  split at hv
  next hw =>
    cases hv
    exact h.stacked hs (List.mem_of_getElem? hw)
  next => contradiction

theorem peekMany_kept (h : Exposed P I) (hs : I s) {n : Nat} {vs : List Value}
    (hvs : s.peekMany n = .ok vs) : ∀ w ∈ vs, P w := by
  unfold State.peekMany at hvs
  split at hvs
  · cases hvs
    exact fun w hw => h.stacked hs (List.mem_of_mem_take hw)
  · contradiction

end Exposed

namespace Reaction

def Keeps (I : State → Prop) (r : Reaction) : Prop := ∀ t, r.result = .ok t → I t

theorem keeps_keep {t : State} (h : I t) : (keep t).Keeps I := by
  intro u hu
  cases hu
  exact h

theorem keeps_complain (c : Complaint) : (complain c).Keeps I := by
  intro t ht
  cases ht

theorem keeps_ofExcept {x : Except Failure State} (h : ∀ t, x = .ok t → I t) :
    (ofExcept x).Keeps I := by
  cases x with
  | error f => exact keeps_complain _
  | ok t => exact keeps_keep (h t rfl)

theorem keeps_bind {α : Type} {x : Except Failure α} {f : α → State} (h : ∀ a, x = .ok a → I (f a)) :
    (ofExcept (x.bind fun a => .ok (f a))).Keeps I := by
  apply keeps_ofExcept
  intro t ht
  obtain ⟨a, ha, ht⟩ := bind_eq_ok.1 ht
  cases ht
  exact h a ha

end Reaction

namespace Detector

structure Keeps (I : State → Prop) (d : Detector) : Prop where
  before : ∀ w e, I w.state → (d.before w e).Keeps I
  after : ∀ w e, I w.state → (d.after w e).Keeps I

open Reaction

theorem nullDereference_keeps (h : Exposed P I) : NullDereference.detector.Keeps I where
  before w e hw := by
    simp only [NullDereference.detector, NullDereference.before]
    split
    · exact keeps_keep hw
    · split
      · exact keeps_complain _
      next hpeek =>
        split
        · exact keeps_keep hw
        · exact keeps_keep hw
        · exact keeps_keep (h.constrainEqual?_kept hw (h.peek_kept hw hpeek) _)
  after _ _ hw := keeps_keep hw

theorem divisionByZero_keeps (h : Exposed P I) (id : Nat) : (DivisionByZero.detector id).Keeps I where
  before w e hw := by
    simp only [DivisionByZero.detector, DivisionByZero.before]
    split
    · split
      · exact keeps_complain _
      next hpeek =>
        split
        · split <;> exact keeps_keep hw
        · exact keeps_keep (h.constrainEqual?_kept hw (h.peek_kept hw hpeek) _)
    · exact keeps_keep hw
  after w e hw := by
    simp only [DivisionByZero.detector, DivisionByZero.after]
    split
    · exact keeps_keep hw
    · exact keeps_bind fun v hpeek => h.constrain_kept hw (h.peek_kept hw hpeek) _

namespace ExternalSchemas

theorem set_kept (h : Enduring P I) (hs : I s) (hv : P v) (d : Domain) (c? : Option Constraint) :
    I (set s v d c?) := by
  cases c? with
  | none => exact h.release hs hv
  | some c => exact h.constrain_kept (h.release hs hv) hv c

theorem copySettings_kept (h : Enduring P I) (hs : I s) (hv : P v) (id : Nat) (source : Value) :
    I (copySettings id s source v) := by
  apply List.foldlRecOn
  · exact hs
  · intro s hs d _
    split
    · exact h.constrain_kept hs hv _
    · exact hs

end ExternalSchemas

theorem externalSchemas_keeps (h : Exposed P I) (id : Nat) :
    (ExternalSchemas.detector id).Keeps I where
  before w e hw := by
    simp only [ExternalSchemas.detector, ExternalSchemas.before]
    split
    · exact keeps_keep hw
    · split
      · exact keeps_complain _
      next hpeek =>
        have hset := ExternalSchemas.set_kept h.toEnduring hw (h.peek_kept hw hpeek)
        split
        · split
          · exact keeps_keep (hset _ _)
          · exact keeps_keep hw
        · split
          · exact keeps_keep (hset _ _)
          · split
            · exact keeps_keep (hset _ _)
            · split <;> exact keeps_keep hw
  after w e hw := by
    simp only [ExternalSchemas.detector, ExternalSchemas.after]
    split
    · exact keeps_keep hw
    · split
      · refine keeps_ofExcept fun t ht => ?_
        obtain ⟨factory, _, ht⟩ := bind_eq_ok.1 ht
        obtain ⟨parser, hpeek, ht⟩ := bind_eq_ok.1 ht
        cases ht
        exact ExternalSchemas.copySettings_kept h.toEnduring hw (h.peek_kept hw hpeek) id factory
      · exact keeps_keep hw

namespace UnclosedResources

theorem markOpen_kept (h : Enduring P I) (hs : I s) (hv : P v) (id : Nat) : I (markOpen id s v) := by
  unfold markOpen
  refine h.constrainEqual?_kept ?_ hv _
  apply List.foldlRecOn
  · exact hs
  · intro t ht w hw
    exact h.release ht (h.equals_kept hs hv w hw)

theorem markClosed_kept (h : Enduring P I) (hs : I s) (hv : P v) (id : Nat) :
    I (markClosed id s v) := by
  unfold markClosed
  apply List.foldlRecOn
  · exact hs
  · intro t ht w hw
    have hw := h.equals_kept hs hv w hw
    split
    · exact h.constrain_kept (h.release ht hw) hw _
    · exact ht

theorem markAllClosed_kept (h : Enduring P I) (hs : I s) {vs : List Value} (hvs : ∀ v ∈ vs, P v)
    (id : Nat) : I (markAllClosed id s vs) := by
  unfold markAllClosed
  apply List.foldlRecOn
  · exact hs
  · intro t ht w hw
    exact markClosed_kept h ht (hvs w hw) id

end UnclosedResources

open UnclosedResources in
theorem unclosedResources_keeps (h : Exposed P I) (config : Config) :
    (UnclosedResources.detector config).Keeps I where
  before w e hw := by
    have hopen {depth : Nat} (v : Value) (hv : w.state.peek depth = .ok v) :=
      markOpen_kept h.toEnduring hw (h.peek_kept hw hv) config.id
    have hclosed {depth : Nat} (v : Value) (hv : w.state.peek depth = .ok v) :=
      markClosed_kept h.toEnduring hw (h.peek_kept hw hv) config.id
    have hallClosed {n : Nat} (vs : List Value) (hvs : w.state.peekMany n = .ok vs) :=
      markAllClosed_kept h.toEnduring hw (h.peekMany_kept hw hvs) config.id
    simp only [UnclosedResources.detector, UnclosedResources.before]
    split
    · exact keeps_bind hallClosed
    · split
      · exact keeps_bind hopen
      · split
        · exact keeps_bind hclosed
        · exact keeps_bind hallClosed
    · exact keeps_bind hclosed
    · exact keeps_keep hw
  after w e hw := by
    simp only [UnclosedResources.detector, UnclosedResources.after]
    split
    · exact keeps_bind fun v hv => markOpen_kept h.toEnduring hw (h.peek_kept hw hv) config.id
    · exact keeps_keep hw

namespace Scripted

theorem target?_kept (h : Exposed P I) (hs : I s) {var? : Option String}
    (hv : target? s var? = some v) : P v := by
  cases var? with
  | none => exact h.stacked hs (List.mem_of_head? hv)
  | some var => exact h.bound hs hv

theorem apply_keeps (h : Exposed P I) {name : String} {hook : Hook} {kind : String} {pos : Position}
    {w : View} {reaction : Reaction} (hreaction : reaction.Keeps I) (rule : Rule) :
    (apply name hook kind pos w reaction rule).Keeps I := by
  unfold apply
  split
  next => exact hreaction
  next t ht =>
    split
    next =>
      intro u hu
      cases hu
    next =>
      split
      · intro u hu
        cases hu
      · exact hreaction
    next => exact hreaction
    next =>
      split
      next => exact hreaction
      next v hv =>
        split
        next =>
          intro u hu
          cases hu
        next => exact hreaction
        next u states hstates =>
          have hs := hreaction t ht
          intro u' hu
          cases hu
          exact h.assume _ _ (target?_kept h hs hv) hs hstates u (.head _)
    next => exact hreaction
    next => exact hreaction

theorem react_keeps (h : Exposed P I) (name : String) (rules : List Rule) (hook : Hook)
    (kind : String) (pos : Position) {w : View} (hw : I w.state) :
    (react name rules hook kind pos w).Keeps I := by
  unfold react
  apply List.foldlRecOn
  · exact keeps_keep hw
  · intro r hr rule _
    exact apply_keeps h hr rule

end Scripted

/-- Every detector that can be asked for keeps what its operations keep. -/
theorem Choice.keeps (h : Exposed P I) {c : Choice} {id : Nat} {d : Detector}
    (hd : c.setUp id = .ok d) : d.Keeps I := by
  cases c with
  | nullDereference =>
    cases hd
    exact nullDereference_keeps h
  | divisionByZero =>
    cases hd
    exact divisionByZero_keeps h id
  | externalSchemas =>
    cases hd
    exact externalSchemas_keeps h id
  | unclosedResources constructors factories openings closings =>
    obtain ⟨config, _, hd⟩ := bind_eq_ok.1 hd
    cases hd
    exact unclosedResources_keeps h config
  | scripted name rules =>
    cases hd
    constructor
    · exact fun w _ hw => Scripted.react_keeps h _ _ _ _ _ hw
    · exact fun w _ hw => Scripted.react_keeps h _ _ _ _ _ hw

theorem Choice.exists_setUp {cs : List Choice} {id : Nat} {ds : List Detector}
    (h : setUpAll id cs = .ok ds) {d : Detector} (hd : d ∈ ds) :
    ∃ (c : Choice) (id : Nat), c.setUp id = .ok d := by
  induction cs generalizing id ds with
  | nil =>
    cases h
    contradiction
  | cons c cs ih =>
    obtain ⟨d', hd', h⟩ := bind_eq_ok.1 h
    obtain ⟨rest, hrest, h⟩ := bind_eq_ok.1 h
    cases h
    rcases List.mem_cons.1 hd with rfl | hd
    · exact ⟨c, id, hd'⟩
    · exact ih hrest hd

end Detector

theorem Adjusted.kept {detectors : List Detector} (hdetectors : ∀ d ∈ detectors, d.Keeps I)
    {s t : State} (h : Adjusted detectors s t) (hs : I s) : I t := by
  induction h with
  | refl => exact hs
  | before hd hr _ ih => exact ih ((hdetectors _ hd).before _ _ hs _ hr)
  | after hd hr _ ih => exact ih ((hdetectors _ hd).after _ _ hs _ hr)

end Pathwise
