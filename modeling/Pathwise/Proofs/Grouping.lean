import Mathlib.Data.List.Induction
import Pathwise.Proofs.Findings

namespace Pathwise

namespace Finding

section

variable {α : Type} [BEq α] [LawfulBEq α] {xs : List α} {y : α}

theorem eraseDups_concat_of_mem (h : y ∈ xs) : (xs ++ [y]).eraseDups = xs.eraseDups := by
  simp [List.eraseDups_append, List.removeAll, h]

theorem eraseDups_concat_of_notMem (h : y ∉ xs) :
    (xs ++ [y]).eraseDups = xs.eraseDups ++ [y] := by
  simp [List.eraseDups_append, List.removeAll, h, List.eraseDups_cons]

end

theorem addFlows_cons (limit : Nat) (held : List Flow) (f : Flow) (flows : List Flow) :
    addFlows limit held (f :: flows) =
      addFlows limit
        (if held.length < limit && !held.contains f then held ++ [f] else held) flows := rfl

theorem take_eraseDups_concat (limit : Nat) (seen : List Flow) (f : Flow) :
    (seen ++ [f]).eraseDups.take limit =
      if (seen.eraseDups.take limit).length < limit && !(seen.eraseDups.take limit).contains f then
        seen.eraseDups.take limit ++ [f]
      else seen.eraseDups.take limit := by
  by_cases hroom : seen.eraseDups.length < limit
  · -- nothing was cut off so far, so only a flow that was seen is left out
    have hall : seen.eraseDups.take limit = seen.eraseDups :=
      List.take_of_length_le (Nat.le_of_lt hroom)
    rw [hall]
    by_cases hf : f ∈ seen
    · simp [eraseDups_concat_of_mem hf, hall, hf]
    · have hfits : (seen.eraseDups ++ [f]).length ≤ limit := by
        rw [List.length_append]
        exact hroom
      rw [eraseDups_concat_of_notMem hf, List.take_of_length_le hfits]
      simp [hroom, hf]
  · -- the limit is reached, so no flow is added whether it was seen or not
    have hfull : (seen.eraseDups.take limit).length = limit := by
      rw [List.length_take]
      omega
    have hsame : (seen ++ [f]).eraseDups.take limit = seen.eraseDups.take limit := by
      by_cases hf : f ∈ seen
      · rw [eraseDups_concat_of_mem hf]
      · rw [eraseDups_concat_of_notMem hf, List.take_append_of_le_length (by omega)]
    simp [hsame, hfull]

theorem addFlows_take_eraseDups (limit : Nat) (seen flows : List Flow) :
    addFlows limit (seen.eraseDups.take limit) flows =
      (seen ++ flows).eraseDups.take limit := by
  induction flows generalizing seen with
  | nil =>
    rw [List.append_nil]
    rfl
  | cons f flows ih =>
    rw [addFlows_cons, ← take_eraseDups_concat, ih, List.append_assoc, List.singleton_append]

def about (r : String × Issue) : String × Position × String := (r.1, r.2.pos, r.2.message)

/-- The findings after the reports, each an issue with the name of the detector, in their order. -/
def reportAll (limit : Nat) (reports : List (String × Issue)) : List Finding :=
  reports.foldl (fun fs r => report limit r.1 r.2 fs) []

def flowsAbout (a : String × Position × String) (reports : List (String × Issue)) : List Flow :=
  (reports.filter fun r => about r = a).flatMap fun r => r.2.flows

/-- The finding about `a` that the reports amount to. -/
def summary (limit : Nat) (reports : List (String × Issue)) (a : String × Position × String) :
    Finding :=
  ⟨a.1, a.2.1, a.2.2, (flowsAbout a reports).eraseDups.take limit⟩

variable {limit : Nat} {reports : List (String × Issue)} {r : String × Issue}
  {a : String × Position × String}

theorem map_subject_summary (as : List (String × Position × String)) :
    (as.map (summary limit reports)).map subject = as := by
  rw [List.map_map]
  exact List.map_id as

theorem reportAll_concat :
    reportAll limit (reports ++ [r]) = report limit r.1 r.2 (reportAll limit reports) := by
  rw [reportAll, List.foldl_append]
  rfl

theorem flowsAbout_concat_self :
    flowsAbout (about r) (reports ++ [r]) = flowsAbout (about r) reports ++ r.2.flows := by
  simp [flowsAbout]

theorem flowsAbout_concat_of_ne (h : about r ≠ a) :
    flowsAbout a (reports ++ [r]) = flowsAbout a reports := by
  simp [flowsAbout, h]

theorem flowsAbout_eq_nil (h : a ∉ reports.map about) : flowsAbout a reports = [] := by
  have hnone : (reports.filter fun r => about r = a) = [] := by
    rw [List.filter_eq_nil_iff]
    intro r hr heq
    exact h (List.mem_map.2 ⟨r, hr, of_decide_eq_true heq⟩)
  rw [flowsAbout, hnone, List.flatMap_nil]

theorem summary_concat_of_ne (h : about r ≠ a) :
    summary limit (reports ++ [r]) a = summary limit reports a := by
  rw [summary, summary, flowsAbout_concat_of_ne h]

theorem summary_concat_self :
    summary limit (reports ++ [r]) (about r) =
      { summary limit reports (about r) with
        flows := addFlows limit (summary limit reports (about r)).flows r.2.flows } := by
  rw [summary, flowsAbout_concat_self, ← addFlows_take_eraseDups]
  rfl

theorem summary_concat_of_notMem (h : about r ∉ reports.map about) :
    summary limit (reports ++ [r]) (about r) =
      ⟨r.1, r.2.pos, r.2.message, addFlows limit [] r.2.flows⟩ := by
  rw [summary_concat_self, summary, flowsAbout_eq_nil h]
  simp [about]

theorem map_summary_concat {as : List (String × Position × String)} (h : about r ∉ as) :
    as.map (summary limit (reports ++ [r])) = as.map (summary limit reports) := by
  apply List.map_congr_left
  intro a ha
  exact summary_concat_of_ne fun heq => h (heq ▸ ha)

theorem isAbout_summary : (summary limit reports a).isAbout r.1 r.2 ↔ a = about r := isAbout_iff

/-- One more report about a subject brings its summary up to date, where it stands. -/
theorem report_map_summary_of_mem {as : List (String × Position × String)} (hnodup : as.Nodup)
    (h : about r ∈ as) :
    report limit r.1 r.2 (as.map (summary limit reports)) =
      as.map (summary limit (reports ++ [r])) := by
  induction as with
  | nil => exact absurd h List.not_mem_nil
  | cons a as ih =>
    obtain ⟨hnew, hnodup⟩ := List.nodup_cons.1 hnodup
    rw [List.map_cons, List.map_cons, report]
    by_cases ha : a = about r
    · subst ha
      rw [if_pos (isAbout_summary.2 rfl), summary_concat_self, map_summary_concat hnew]
    · rw [if_neg fun h' => ha (isAbout_summary.1 h'), summary_concat_of_ne (Ne.symm ha),
        ih hnodup ((List.mem_cons.1 h).resolve_left (Ne.symm ha))]

theorem report_map_summary_of_notMem {as : List (String × Position × String)}
    (h : about r ∉ as) (hnew : about r ∉ reports.map about) :
    report limit r.1 r.2 (as.map (summary limit reports)) =
      (as ++ [about r]).map (summary limit (reports ++ [r])) := by
  induction as with
  | nil => exact congrArg (fun f => [f]) (summary_concat_of_notMem hnew).symm
  | cons a as ih =>
    have ha : about r ≠ a := fun heq => h (heq ▸ .head _)
    rw [List.map_cons, report, if_neg fun h' => ha (isAbout_summary.1 h').symm,
      ih fun hr => h (.tail _ hr), List.cons_append, List.map_cons, summary_concat_of_ne ha]

theorem nodup_reportAll (limit : Nat) (reports : List (String × Issue)) :
    ((reportAll limit reports).map subject).Nodup := by
  induction reports using List.reverseRecOn with
  | nil => exact List.nodup_nil
  | append_singleton reports r ih =>
    rw [reportAll_concat]
    exact nodup_report ih limit r.1 r.2

/-- The findings are the summaries of what was reported, in the order of the first reports. -/
theorem reportAll_eq (limit : Nat) (reports : List (String × Issue)) :
    reportAll limit reports = (reports.map about).eraseDups.map (summary limit reports) := by
  induction reports using List.reverseRecOn with
  | nil => rfl
  | append_singleton reports r ih =>
    have hnodup := nodup_reportAll limit reports
    rw [ih, map_subject_summary] at hnodup
    rw [reportAll_concat, ih, List.map_append, List.map_singleton]
    by_cases hr : about r ∈ reports.map about
    · rw [eraseDups_concat_of_mem hr]
      exact report_map_summary_of_mem hnodup (List.mem_eraseDups.2 hr)
    · rw [eraseDups_concat_of_notMem hr]
      exact report_map_summary_of_notMem (mt List.mem_eraseDups.1 hr) hr

theorem map_subject_reportAll (limit : Nat) (reports : List (String × Issue)) :
    (reportAll limit reports).map subject = (reports.map about).eraseDups := by
  rw [reportAll_eq, map_subject_summary]

/-- Reports are grouped by subject: no two findings have the same, they stand in the order of the
first reports, no report is lost, and each finding holds the first distinct flows, up to the limit,
of all the flows reported about its subject. -/
theorem reportAll_grouped (limit : Nat) (reports : List (String × Issue)) :
    ((reportAll limit reports).map subject).Nodup ∧
      (reportAll limit reports).map subject = (reports.map about).eraseDups ∧
      (∀ r ∈ reports, about r ∈ (reportAll limit reports).map subject) ∧
      ∀ f ∈ reportAll limit reports,
        f.flows = (flowsAbout f.subject reports).eraseDups.take limit := by
  refine ⟨nodup_reportAll limit reports, map_subject_reportAll limit reports, ?_, ?_⟩
  · intro r hr
    rw [map_subject_reportAll, List.mem_eraseDups]
    exact List.mem_map_of_mem hr
  · intro f hf
    rw [reportAll_eq] at hf
    obtain ⟨a, -, rfl⟩ := List.mem_map.1 hf
    rfl

def flowAt (line : UInt64) : Flow := [⟨.source line 1, "here", none⟩]

/-- Two detectors at one place; the second report of the first one comes after the other's. -/
def interleaved : List (String × Issue) :=
  [("leak", ⟨.source 1 1, "open", [flowAt 1, flowAt 1, flowAt 2]⟩),
    ("null", ⟨.source 1 1, "open", [flowAt 5]⟩),
    ("leak", ⟨.source 1 1, "open", [flowAt 2, flowAt 3, flowAt 4]⟩)]

theorem reportAll_grouped_interleaved :
    (reportAll 3 interleaved).map subject =
        [("leak", .source 1 1, "open"), ("null", .source 1 1, "open")] ∧
      (reportAll 3 interleaved).map flows = [[flowAt 1, flowAt 2, flowAt 3], [flowAt 5]] := by
  obtain ⟨-, hsubjects, -, hflows⟩ := reportAll_grouped 3 interleaved
  refine ⟨hsubjects.trans (by decide), ?_⟩
  rw [List.map_congr_left hflows]
  decide

end Finding

end Pathwise
