import SafeRefactor.Session
import SafeRefactor.Proofs.Aggregation

/-!
# Selecting rules and analysing

Rules do not influence each other: analysing with a selection gives the part of the full plan that
is about the selected rules. The detectors that are left out change the ranks of the others, and so
the keys that the issues are sorted by, but not the order of what is kept. Fewer rules never make a
plan more complex or less safe.
-/

set_option autoImplicit false

namespace SafeRefactor

theorem Detector.rule_of_reported {d : Detector} {tree : Syntax.Tree} (h : d.succeeds tree = true) :
    ∀ i ∈ d.reported tree, i.rule = d.rule := by
  intro i hi
  unfold Detector.succeeds at h
  unfold Detector.reported at hi
  cases hd : d.detect tree with
  | found issues =>
    rw [hd] at h hi
    have hflaw := List.all_eq_true.mp h i hi
    exact ((i.flaw?_eq_none_iff d).mp (by simpa using hflaw)).rule_eq
  | failed e => simp [hd] at hi
  | crashed m => simp [hd] at hi

namespace Plan

variable (tree : Syntax.Tree) (keep : Rule → Bool)

/-- Keeping the issues of some rules comes to running the detectors of those rules only. -/
theorem sortedReports_filter (ds : List Detector) :
    (sortedReports tree ds).filter (fun i => keep i.rule) =
      sortedReports tree (ds.filter fun d => keep d.rule) := by
  induction ds with
  | nil => rfl
  | cons d ds ih =>
    by_cases hs : d.succeeds tree = true
    · have hrule : ∀ i ∈ sortBy Issue.anchorLe (d.reported tree), i.rule = d.rule := by
        intro i hi
        exact Detector.rule_of_reported hs i ((mem_sortBy _ _ _).mp hi)
      have hhead : sortedReports tree (d :: ds) =
          sortBy Issue.anchorLe (d.reported tree) ++ sortedReports tree ds := by
        simp [sortedReports, hs]
      rw [hhead, List.filter_append, ih]
      by_cases hk : keep d.rule = true
      · have hown : (sortBy Issue.anchorLe (d.reported tree)).filter (fun i => keep i.rule) =
            sortBy Issue.anchorLe (d.reported tree) := by
          rw [List.filter_eq_self]
          intro i hi
          rw [hrule i hi, hk]
        rw [hown]
        simp [sortedReports, hs, hk]
      · have hown : (sortBy Issue.anchorLe (d.reported tree)).filter (fun i => keep i.rule) =
            [] := by
          rw [List.filter_eq_nil_iff]
          intro i hi
          rw [hrule i hi]
          exact hk
        rw [hown]
        simp [hk]
    · by_cases hk : keep d.rule = true
      · simpa [sortedReports, hs, hk] using ih
      · simpa [sortedReports, hs, hk] using ih

/-- The same of failures, if each detector fails in its own name. -/
theorem allFailures_filter (ds : List Detector)
    (hown : ∀ d ∈ ds, ∀ e, d.fault? tree = some e → e.rule = d.rule) :
    (allFailures tree ds).filter (fun f => keep f.rule) =
      allFailures tree (ds.filter fun d => keep d.rule) := by
  induction ds with
  | nil => rfl
  | cons d ds ih =>
    have hrest := ih fun d' hd' => hown d' (by simp [hd'])
    cases hf : d.fault? tree with
    | none =>
      by_cases hk : keep d.rule = true
      · simpa [allFailures, hf, hk] using hrest
      · simpa [allFailures, hf, hk] using hrest
    | some e =>
      have hrule := hown d (by simp) e hf
      by_cases hk : keep d.rule = true
      · simpa [allFailures, hf, hk, hrule] using hrest
      · simpa [allFailures, hf, hk, hrule] using hrest

end Plan

theorem complexityOf_rank_le {few many : List Issue} (h : few.Sublist many) :
    (complexityOf few).rank ≤ (complexityOf many).rank := by
  have hlen := h.length_le
  have hany (test : Issue → Bool) : few.any test = true → many.any test = true := by
    simp only [List.any_eq_true]
    rintro ⟨i, hi, ht⟩
    exact ⟨i, h.subset hi, ht⟩
  have hcritical := hany fun i => i.severity = .critical
  have hhigh := hany fun i => i.severity = .high
  unfold complexityOf
  by_cases hm : (highIssueCount < many.length || many.any fun i => i.severity = .critical) = true
  · rw [if_pos hm]
    split_ifs <;> decide
  · have hf : ¬ (highIssueCount < few.length || few.any fun i => i.severity = .critical) =
        true := by
      simp only [Bool.or_eq_true, decide_eq_true_eq, not_or] at hm ⊢
      exact ⟨by omega, fun hc => hm.2 (hcritical hc)⟩
    rw [if_neg hm, if_neg hf]
    by_cases hm' : (mediumIssueCount < many.length || many.any fun i => i.severity = .high) = true
    · rw [if_pos hm']
      split_ifs <;> decide
    · have hf' : ¬ (mediumIssueCount < few.length || few.any fun i => i.severity = .high) =
          true := by
        simp only [Bool.or_eq_true, decide_eq_true_eq, not_or] at hm' ⊢
        exact ⟨by omega, fun hc => hm'.2 (hhigh hc)⟩
      rw [if_neg hm', if_neg hf']

theorem isSafe_of_sublist {few many : List Issue} (h : few.Sublist many)
    (hsafe : isSafe (complexityOf many) many = true) : isSafe (complexityOf few) few = true := by
  rw [Plan.isSafe_iff] at hsafe ⊢
  obtain ⟨hlen, hcritical, hrefuse⟩ := hsafe
  exact ⟨h.length_le.trans hlen, fun i hi => hcritical i (h.subset hi),
    fun i hi => hrefuse i (h.subset hi)⟩

theorem Rule.fault?_rule (r : Rule) (tree : Syntax.Tree) :
    ∀ e, r.detector.fault? tree = some e → e.rule = r := by
  intro e he
  obtain ⟨i, -, hi⟩ := List.exists_of_findSome?_eq_some he
  obtain ⟨flaw, -, rfl⟩ := Option.map_eq_some_iff.mp hi
  rfl

namespace Selection

/-- The first selection allows no rule that the second one does not. -/
def Within (s t : Selection) : Prop := ∀ r, s.allows r = true → t.allows r = true

theorem within_everything (s : Selection) : s.Within everything := by
  intro r _
  rfl

theorem detectors_of_within {s t : Selection} (h : s.Within t) :
    s.detectors = t.detectors.filter fun d => s.allows d.rule := by
  have hrules : s.rules = t.rules.filter s.allows := by
    rw [rules, rules, List.filter_filter]
    apply List.filter_congr
    intro r _
    cases hr : s.allows r with
    | false => simp
    | true => simp [h r hr]
  rw [detectors, detectors, hrules, List.filter_map]
  rfl

end Selection

namespace Engine

variable {s t : Selection} (unit : SourceUnit)

/-- Fewer rules leave fewer of the same issues, in the same order. -/
theorem analyze_issues_within (h : s.Within t) :
    (analyze { selection := s } unit).issues =
      (analyze { selection := t } unit).issues.filter fun i => s.allows i.rule := by
  unfold analyze analyzeLogged
  cases Syntax.Tree.parse unit.source with
  | error fault => rfl
  | ok tree =>
    rw [Plan.build_issues, Plan.build_issues, Plan.sortedReports_filter,
      Selection.detectors_of_within h]

theorem analyze_failures_within (h : s.Within t) :
    (analyze { selection := s } unit).failures =
      (analyze { selection := t } unit).failures.filter fun f => s.allows f.rule := by
  unfold analyze analyzeLogged
  cases Syntax.Tree.parse unit.source with
  | error fault => rfl
  | ok tree =>
    rw [Plan.build_failures, Plan.build_failures, Plan.allFailures_filter,
      Selection.detectors_of_within h]
    intro d hd e he
    obtain ⟨r, -, rfl⟩ := List.mem_map.mp hd
    exact r.fault?_rule tree e he

theorem analyze_complexity (e : Engine) :
    (e.analyze unit).complexity = complexityOf (e.analyze unit).issues := by
  unfold analyze analyzeLogged
  cases Syntax.Tree.parse unit.source <;> rfl

theorem analyze_safe_within (h : s.Within t)
    (hsafe : (analyze { selection := t } unit).safeToApply = true) :
    (analyze { selection := s } unit).safeToApply = true := by
  have hissues := analyze_issues_within unit h
  unfold analyze analyzeLogged at hissues hsafe ⊢
  cases hp : Syntax.Tree.parse unit.source with
  | error fault =>
    rw [hp] at hsafe
    cases hsafe
  | ok tree =>
    rw [hp] at hissues hsafe
    have hsub := List.filter_sublist (p := fun i => s.allows i.rule)
      (l := (Plan.build unit (.ok tree) t.detectors).1.issues)
    rw [← hissues] at hsub
    exact isSafe_of_sublist hsub hsafe

/-- Selecting rules commutes with analysing: the plan for a selection is about the same text, and
its issues and failures are those of the full plan that the selected rules have, in the same order.
A selection within another one gives a plan that is at most as complex, and safe if the other plan
is. -/
theorem selection_commutes (unit : SourceUnit) (s : Selection) :
    let whole := analyze { selection := .everything } unit
    let part := analyze { selection := s } unit
    (part.refusal = whole.refusal ∧ part.sourceId = whole.sourceId ∧ part.digest = whole.digest) ∧
    part.issues = whole.issues.filter (fun i => s.allows i.rule) ∧
    part.failures = whole.failures.filter (fun f => s.allows f.rule) ∧
    ∀ t : Selection, (∀ r, s.allows r = true → t.allows r = true) →
      part.complexity.rank ≤ (analyze { selection := t } unit).complexity.rank ∧
      ((analyze { selection := t } unit).safeToApply = true → part.safeToApply = true) := by
  intro whole part
  refine ⟨?_, analyze_issues_within unit s.within_everything,
    analyze_failures_within unit s.within_everything, ?_⟩
  · unfold whole part analyze analyzeLogged
    cases Syntax.Tree.parse unit.source <;> exact ⟨rfl, rfl, rfl⟩
  · intro t ht
    refine ⟨?_, analyze_safe_within unit ht⟩
    rw [analyze_complexity, analyze_complexity, analyze_issues_within unit ht]
    exact complexityOf_rank_le List.filter_sublist

theorem selection_commutes_narrowed :
    let unit : SourceUnit := ⟨"eval(x)\n", none⟩
    let s : Selection := { only := some [.nestedLoop, .bareExcept] }
    let t : Selection := Selection.everything.without [.dynamicCodeExecution]
    (∀ r, s.allows r = true → t.allows r = true) ∧
      (analyze { selection := t } unit).safeToApply = true ∧
      (analyze { selection := s } unit).safeToApply = true := by
  intro unit s t
  have hwithin : ∀ r, s.allows r = true → t.allows r = true := by
    intro r
    cases r <;> decide
  have hsafe : (analyze { selection := t } unit).safeToApply = true := by decide +kernel
  exact ⟨hwithin, hsafe, ((selection_commutes unit s).2.2.2 t hwithin).2 hsafe⟩

end Engine

end SafeRefactor
