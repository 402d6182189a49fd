import Pathwise.Exploration

namespace Pathwise

namespace Finding

/-- What a finding is about; no two findings of a report are about the same. -/
def subject (f : Finding) : String × Position × String := (f.check, f.pos, f.message)

theorem isAbout_iff {f : Finding} {check : String} {issue : Issue} :
    f.isAbout check issue ↔ f.subject = (check, issue.pos, issue.message) := by
  simp [isAbout, subject, and_assoc]

theorem map_subject_report (limit : Nat) (check : String) (issue : Issue) (fs : List Finding) :
    (report limit check issue fs).map subject =
      if (check, issue.pos, issue.message) ∈ fs.map subject then fs.map subject
      else fs.map subject ++ [(check, issue.pos, issue.message)] := by
  induction fs with
  | nil => rfl
  | cons f fs ih =>
    rw [report]
    by_cases hf : f.isAbout check issue
    · rw [if_pos hf, List.map_cons, if_pos]
      · rfl
      · exact isAbout_iff.1 hf ▸ .head _
    · have hne : (check, issue.pos, issue.message) ≠ f.subject := fun h => hf (isAbout_iff.2 h.symm)
      simp only [if_neg hf, List.map_cons, ih, List.mem_cons, hne, false_or]
      split <;> rfl

theorem mem_map_subject_report {limit : Nat} {check : String} {issue : Issue} {fs : List Finding}
    {a : String × Position × String} :
    a ∈ (report limit check issue fs).map subject ↔
      a ∈ fs.map subject ∨ a = (check, issue.pos, issue.message) := by
  rw [map_subject_report]
  split
  next hold =>
    constructor
    · exact .inl
    · rintro (ha | rfl)
      · exact ha
      · exact hold
  next => rw [List.mem_append, List.mem_singleton]

theorem mem_report (limit : Nat) (check : String) (issue : Issue) (fs : List Finding) :
    (check, issue.pos, issue.message) ∈ (report limit check issue fs).map subject :=
  mem_map_subject_report.2 (.inr rfl)

theorem nodup_report {fs : List Finding} (h : (fs.map subject).Nodup) (limit : Nat) (check : String)
    (issue : Issue) : ((report limit check issue fs).map subject).Nodup := by
  rw [map_subject_report]
  split
  next => exact h
  next hnew =>
    rw [List.nodup_append]
    refine ⟨h, by simp, ?_⟩
    intro a ha b hb heq
    rw [heq, List.mem_singleton.1 hb] at ha
    exact hnew ha

theorem prefix_addFlows (limit : Nat) (held flows : List Flow) :
    held <+: addFlows limit held flows := by
  unfold addFlows
  induction flows generalizing held with
  | nil => exact List.prefix_refl _
  | cons f flows ih =>
    rw [List.foldl_cons]
    split
    · exact (List.prefix_append _ _).trans (ih _)
    · exact ih _

structure Extends (f g : Finding) : Prop where
  subject : g.subject = f.subject
  flows : f.flows <+: g.flows

theorem Extends.refl (f : Finding) : f.Extends f := ⟨rfl, List.prefix_refl _⟩

theorem Extends.trans {f g h : Finding} (hfg : f.Extends g) (hgh : g.Extends h) : f.Extends h :=
  ⟨hgh.subject.trans hfg.subject, hfg.flows.trans hgh.flows⟩

/-- All findings are kept, in order and with more flows at the end, and more findings may follow. -/
inductive Grown : List Finding → List Finding → Prop
  | nil (gs : List Finding) : Grown [] gs
  | cons {f g fs gs} : f.Extends g → Grown fs gs → Grown (f :: fs) (g :: gs)

theorem Grown.refl (fs : List Finding) : Grown fs fs := by
  induction fs with
  | nil => exact .nil []
  | cons f fs ih => exact .cons (.refl f) ih

theorem Grown.trans {fs gs hs : List Finding} (h : Grown fs gs) (h' : Grown gs hs) :
    Grown fs hs := by
  induction h generalizing hs with
  | nil => exact .nil hs
  | cons hfg _ ih =>
    cases h' with
    | cons hgh h' => exact .cons (hfg.trans hgh) (ih h')

theorem Grown.map_subject {fs gs : List Finding} (h : Grown fs gs) :
    fs.map subject <+: gs.map subject := by
  induction h with
  | nil => exact List.nil_prefix
  | cons hfg _ ih =>
    rw [List.map_cons, List.map_cons, hfg.subject]
    exact (List.prefix_cons_inj _).2 ih

theorem grown_report (limit : Nat) (check : String) (issue : Issue) (fs : List Finding) :
    Grown fs (report limit check issue fs) := by
  induction fs with
  | nil => exact .nil _
  | cons f fs ih =>
    rw [report]
    split
    · exact .cons ⟨rfl, prefix_addFlows _ _ _⟩ (.refl fs)
    · exact .cons (.refl f) ih

theorem grown_foldl_report (limit : Nat) (check : String) (issues : List Issue)
    (fs : List Finding) :
    Grown fs (issues.foldl (fun fs i => report limit check i fs) fs) := by
  induction issues generalizing fs with
  | nil => exact .refl fs
  | cons i issues ih => exact (grown_report limit check i fs).trans (ih _)

end Finding

/-- The state to go on with after a detector was asked about `s`. -/
def Reaction.stateFrom (r : Reaction) (s : State) : State :=
  match r.result with
  | .ok t => t
  | .error _ => s

namespace Journal

theorem consult_cons (o : Options) (hook : Hook) (react : Detector → State → Reaction) (d : Detector)
    (ds : List Detector) (s : State) (j : Journal) :
    consult o hook react (d :: ds) s j =
      if (react d s).sink then ((react d s).stateFrom s, true, j.add o d.name hook (react d s))
      else
        consult o hook react ds ((react d s).stateFrom s) (j.add o d.name hook (react d s)) := rfl

structure Extends (j k : Journal) : Prop where
  findings : Finding.Grown j.findings k.findings
  log : j.log.toList <+: k.log.toList

variable {j k l : Journal} {o : Options}

theorem Extends.refl (j : Journal) : j.Extends j := ⟨.refl _, List.prefix_refl _⟩

theorem Extends.trans (h : j.Extends k) (h' : k.Extends l) : j.Extends l :=
  ⟨h.findings.trans h'.findings, h.log.trans h'.log⟩

theorem extends_write (j : Journal) (level : Log.Level) (message : String)
    (fields : List (String × String)) : j.Extends (j.write level message fields) :=
  ⟨.refl _, by simp [write]⟩

theorem mem_foldl_report (limit : Nat) (check : String) {issues : List Issue} {i : Issue}
    (hi : i ∈ issues) (fs : List Finding) :
    (check, i.pos, i.message) ∈
      (issues.foldl (fun fs i => Finding.report limit check i fs) fs).map Finding.subject := by
  induction hi generalizing fs with
  | head issues =>
    exact (Finding.grown_foldl_report limit check issues _).map_subject.subset
      (Finding.mem_report limit check i fs)
  | tail _ _ ih => exact ih _

theorem findings_add (j : Journal) (o : Options) (check : String) (hook : Hook) (r : Reaction) :
    (j.add o check hook r).findings =
      r.issues.foldl (fun fs i => Finding.report o.maxFlows check i fs) j.findings := by
  unfold add
  dsimp only
  split <;> rfl

theorem prefix_log_add (j : Journal) (o : Options) (check : String) (hook : Hook) (r : Reaction) :
    j.log.toList ++ r.notes <+: (j.add o check hook r).log.toList := by
  unfold add
  dsimp only
  split
  · simp
  · simp [write]

theorem extends_add (j : Journal) (o : Options) (check : String) (hook : Hook) (r : Reaction) :
    j.Extends (j.add o check hook r) where
  findings := by
    rw [findings_add]
    exact Finding.grown_foldl_report _ _ _ _
  log := (List.prefix_append _ _).trans (prefix_log_add j o check hook r)

theorem mem_findings_add {r : Reaction} {i : Issue} (hi : i ∈ r.issues) (j : Journal) (o : Options)
    (check : String) (hook : Hook) :
    (check, i.pos, i.message) ∈ (j.add o check hook r).findings.map Finding.subject := by
  rw [findings_add]
  exact mem_foldl_report _ _ hi _

theorem mem_log_add {r : Reaction} {n : Log.Record} (hn : n ∈ r.notes) (j : Journal) (o : Options)
    (check : String) (hook : Hook) : n ∈ (j.add o check hook r).log.toList :=
  (prefix_log_add j o check hook r).subset (List.mem_append_right _ hn)

theorem extends_foldl_add (o : Options) (hook : Hook) (react : Detector → Reaction)
    (ds : List Detector) (j : Journal) :
    j.Extends (ds.foldl (fun j d => j.add o d.name hook (react d)) j) := by
  induction ds generalizing j with
  | nil => exact .refl j
  | cons d ds ih => exact (extends_add j o d.name hook _).trans (ih _)

theorem mem_foldl_add (o : Options) (hook : Hook) (react : Detector → Reaction) {d : Detector}
    {ds : List Detector} (hd : d ∈ ds) (j : Journal) :
    (∀ i ∈ (react d).issues, (d.name, i.pos, i.message) ∈
        (ds.foldl (fun j d => j.add o d.name hook (react d)) j).findings.map Finding.subject) ∧
      ∀ n ∈ (react d).notes,
        n ∈ (ds.foldl (fun j d => j.add o d.name hook (react d)) j).log.toList := by
  induction hd generalizing j with
  | head ds =>
    have hextends := extends_foldl_add o hook react ds (j.add o d.name hook (react d))
    exact ⟨fun i hi => hextends.findings.map_subject.subset (mem_findings_add hi j o d.name hook),
      fun n hn => hextends.log.subset (mem_log_add hn j o d.name hook)⟩
  | tail _ _ ih => exact ih _

theorem extends_consult (o : Options) (hook : Hook) (react : Detector → State → Reaction)
    (ds : List Detector) (s : State) (j : Journal) :
    j.Extends (consult o hook react ds s j).2.2 := by
  induction ds generalizing s j with
  | nil => exact .refl j
  | cons d ds ih =>
    rw [consult_cons]
    split
    · exact extends_add j o d.name hook _
    · exact (extends_add j o d.name hook _).trans (ih _ _)

theorem findings_add_of_silent {r : Reaction} (h : r.issues = []) (j : Journal) (o : Options)
    (check : String) (hook : Hook) : (j.add o check hook r).findings = j.findings := by
  rw [findings_add, h]
  rfl

theorem findings_foldl_add {hook : Hook} {react : Detector → Reaction} {ds : List Detector}
    (h : ∀ d ∈ ds, (react d).issues = []) (o : Options) (j : Journal) :
    (ds.foldl (fun j d => j.add o d.name hook (react d)) j).findings = j.findings := by
  induction ds generalizing j with
  | nil => rfl
  | cons d ds ih =>
    rw [List.foldl_cons, ih fun d' hd' => h d' (.tail _ hd')]
    exact findings_add_of_silent (h d (.head _)) j o d.name hook

theorem findings_consult {hook : Hook} {react : Detector → State → Reaction} {ds : List Detector}
    (h : ∀ d ∈ ds, ∀ s, (react d s).issues = []) (o : Options) (s : State) (j : Journal) :
    (consult o hook react ds s j).2.2.findings = j.findings := by
  induction ds generalizing s j with
  | nil => rfl
  | cons d ds ih =>
    have hsilent := findings_add_of_silent (h d (.head _) s) j o d.name hook
    rw [consult_cons]
    split
    · exact hsilent
    · rw [ih fun d' hd' => h d' (.tail _ hd'), hsilent]

end Journal

end Pathwise
