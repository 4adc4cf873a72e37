import SafeRefactor.Proofs.IssueContract
import SafeRefactor.Proofs.Selecting

/-!
# Code run from data is never changed unseen

Every call of a function that runs code given as data has its issue, however deep it is nested and
whatever else the text holds, and one such issue is enough: the plan is complex, needs review and
fails the command, and no live run without the override makes a text of it. Nothing is assumed of
the ranges of the tree.
-/

set_option autoImplicit false

namespace SafeRefactor

open Syntax

namespace Detect.DynamicCode

variable (t : Tree)

/-- The node is a call, and what it calls is the plain name `eval` or `exec`. -/
def RunsData (n : Node) : Prop :=
  n.has .call = true ∧
    ∃ f, n.child? .function = some f ∧ f.has .identifier = true ∧
      (t.text f = "eval" ∨ t.text f = "exec")

/-- The issue is the one about a call. -/
def About (n : Node) (i : Issue) : Prop :=
  ∃ f, n.child? .function = some f ∧ i = issue t n (t.text f)

theorem called?_eq_some_iff (n : Node) (builtin : String) : called? t n = some builtin ↔
    n.has .call = true ∧ ∃ f, n.child? .function = some f ∧ f.has .identifier = true ∧
      (t.text f = "eval" ∨ t.text f = "exec") ∧ t.text f = builtin := by
  unfold called?
  cases hcall : n.has .call with
  | false => simp
  | true =>
    cases hf : n.child? .function with
    | none => simp
    | some f =>
      simp only [if_true, true_and, Option.some.injEq, exists_eq_left']
      split
      · next h =>
        simp only [builtins, Bool.and_eq_true, List.contains_iff_mem, List.mem_cons,
          List.not_mem_nil, or_false] at h
        simp [h.1, h.2]
      · next h =>
        simp only [builtins, Bool.and_eq_true, List.contains_iff_mem, List.mem_cons,
          List.not_mem_nil, or_false, not_and] at h
        constructor
        · intro hnone
          cases hnone
        · rintro ⟨hid, hname, -⟩
          exact absurd hname (h hid)

theorem called?_isSome_iff (n : Node) : (called? t n).isSome = true ↔ RunsData t n := by
  rw [Option.isSome_iff_exists]
  constructor
  · rintro ⟨builtin, h⟩
    obtain ⟨hcall, f, hf, hid, hname, -⟩ := (called?_eq_some_iff t n builtin).mp h
    exact ⟨hcall, f, hf, hid, hname⟩
  · rintro ⟨hcall, f, hf, hid, hname⟩
    exact ⟨t.text f, (called?_eq_some_iff t n _).mpr ⟨hcall, f, hf, hid, hname, rfl⟩⟩

instance (n : Node) : Decidable (RunsData t n) := decidable_of_iff _ (called?_isSome_iff t n)

/-- The calls of a tree that run code given as data, at whatever depth, in document order. -/
def calls : List Node := t.root.preorder.filter fun n => RunsData t n

/-- The detector reports each of these calls once, in document order, and nothing else. -/
theorem issues_about_calls : List.Forall₂ (About t) (calls t) (issues t) := by
  rw [calls, issues, t.nodes_eq_preorder]
  induction t.root.preorder with
  | nil => exact .nil
  | cons n ns ih =>
    cases hcalled : called? t n with
    | none =>
      have hnot : ¬ RunsData t n := by simp [← called?_isSome_iff, hcalled]
      simpa [hcalled, hnot] using ih
    | some builtin =>
      have hruns : RunsData t n := by simp [← called?_isSome_iff, hcalled]
      obtain ⟨-, f, hf, -, -, rfl⟩ := (called?_eq_some_iff t n builtin).mp hcalled
      simpa [hcalled, hruns] using List.Forall₂.cons ⟨f, hf, rfl⟩ ih

/-- An issue about a call is in order, since its lines start at its anchor. -/
theorem issue_honours (n : Node) {builtin : String} (h : builtin ∈ builtins) :
    (issue t n builtin).Honours Rule.dynamicCodeExecution.detector where
  rule_eq := rfl
  severity_eq := rfl
  confidence_eq := rfl
  rationale := by
    have hmem : rationale builtin ∈ Rule.dynamicCodeExecution.rationales := List.mem_map_of_mem h
    obtain ⟨c, hc, hblank⟩ := (Rule.plain_of_mem_rationales hmem).begins
    exact ⟨c, List.mem_of_head? hc, hblank⟩
  line_pos := n.line_pos
  first_le := Nat.le_refl _
  le_last := by simp [issue, LineRange.of]
  fix_none _ := rfl

theorem detector_succeeds : Rule.dynamicCodeExecution.detector.succeeds t = true := by
  refine List.all_eq_true.mpr ?_
  intro i hi
  obtain ⟨n, -, hn⟩ := List.mem_filterMap.mp hi
  obtain ⟨builtin, hcalled, rfl⟩ := Option.map_eq_some_iff.mp hn
  have hbuiltin := (called?_mem hcalled).2
  simp [((issue t n builtin).flaw?_eq_none_iff _).mpr (issue_honours t n hbuiltin)]

end Detect.DynamicCode

theorem Selection.detectors_single {s : Selection} {r : Rule} (h : s.allows r = true) :
    (s.detectors.filter fun d => d.rule = r) = [r.detector] := by
  have hall : Rule.all.filter (fun q => decide (q = r)) = [r] := by cases r <;> decide
  have hrules : s.rules.filter (fun q => decide (q = r)) = [r] := by
    rw [rules, List.filter_filter, ← hall]
    apply List.filter_congr
    intro q _
    by_cases hq : q = r
    · simp [hq, h]
    · simp [hq]
  have hmap : (s.detectors.filter fun d => d.rule = r) =
      (s.rules.filter fun q => decide (q = r)).map Rule.detector := by
    rw [detectors, List.filter_map]
    rfl
  rw [hmap, hrules]
  rfl

/-- Without the override, nothing is made of a plan that is not safe. -/
theorem Execution.live_unsafe {plan : Plan} (h : plan.safeToApply = false) (source : String) :
    (run ⟨false, false⟩ source plan).success = false ∧
    (run ⟨false, false⟩ source plan).after = none ∧
      (run ⟨false, false⟩ source plan).changes = [] := by
  have hafter : (run ⟨false, false⟩ source plan).after = none := by
    rw [Option.eq_none_iff_forall_ne_some]
    intro text htext
    have hcleared := (live_after_iff.mp htext).2.1
    simp [Plan.Cleared, h] at hcleared
  have hfailed : (run ⟨false, false⟩ source plan).success = false := by
    rw [← Bool.not_eq_true]
    intro hsuccess
    obtain ⟨text, htext⟩ := live_success_iff.mp hsuccess
    simp [htext] at hafter
  exact ⟨hfailed, hafter, (exit_all_or_nothing (outcome_exit _ source plan)).changes_nil hfailed⟩

open Detect.DynamicCode

namespace Engine

variable {e : Engine} {unit : SourceUnit} {tree : Tree}

theorem analyze_dynamic_issues (hp : Tree.parse unit.source = .ok tree)
    (hs : e.selection.allows .dynamicCodeExecution = true) :
    ((e.analyze unit).issues.filter fun i => i.rule = .dynamicCodeExecution) =
      sortBy Issue.anchorLe (issues tree) := by
  rw [analyze_of_parse hp, Plan.build_issues,
    Plan.sortedReports_filter tree fun r => r = .dynamicCodeExecution,
    Selection.detectors_single hs]
  simp only [Plan.sortedReports, List.filter_cons, detector_succeeds, if_true, List.filter_nil,
    List.flatMap_cons, List.flatMap_nil, List.append_nil]
  rfl

/-- A call that runs data puts a critical, refused issue into the plan. -/
theorem exists_refused_issue (hp : Tree.parse unit.source = .ok tree)
    (hs : e.selection.allows .dynamicCodeExecution = true) (hcalls : calls tree ≠ []) :
    ∃ i ∈ (e.analyze unit).issues, i.severity = .critical ∧ i.confidence = .refuse := by
  have hne : issues tree ≠ [] := by
    intro hnil
    have hlength := (issues_about_calls tree).length_eq
    rw [hnil, List.length_nil, List.length_eq_zero_iff] at hlength
    exact hcalls hlength
  obtain ⟨i, hi⟩ := List.exists_mem_of_ne_nil _ hne
  obtain ⟨n, -, hn⟩ := List.mem_filterMap.mp (show i ∈ _ from hi)
  obtain ⟨builtin, -, rfl⟩ := Option.map_eq_some_iff.mp hn
  have hmem : issue tree n builtin ∈
      (e.analyze unit).issues.filter fun i => i.rule = .dynamicCodeExecution := by
    rw [analyze_dynamic_issues hp hs, mem_sortBy]
    exact hi
  exact ⟨_, List.mem_of_mem_filter hmem, rfl, rfl⟩

/-- The issues of the rule are one for each call that runs data, and one such call keeps the whole
plan from being applied: it is complex and needs review, the verdict is that of critical issues, and
a live run without the override, of whatever text, makes nothing. -/
theorem dynamic_code_never_applied (e : Engine) (unit : SourceUnit) (tree : Tree)
    (hp : Tree.parse unit.source = .ok tree)
    (hs : e.selection.allows .dynamicCodeExecution = true) :
    let plan := e.analyze unit
    (∃ found, found.Perm (plan.issues.filter fun i => i.rule = .dynamicCodeExecution) ∧
      List.Forall₂ (About tree) (tree.root.preorder.filter fun n => RunsData tree n) found) ∧
    ((∃ n ∈ tree.root.preorder, RunsData tree n) →
      plan.state = .needsReview ∧ plan.complexity = .high ∧
      (∀ failOnRefusal, Verdict.ofPlan plan failOnRefusal = .criticalIssues) ∧
      ∀ source, let result := Execution.run ⟨false, false⟩ source plan
        result.success = false ∧ result.after = none ∧ result.changes = []) := by
  intro plan
  refine ⟨⟨issues tree, ?_, issues_about_calls tree⟩, ?_⟩
  · rw [analyze_dynamic_issues hp hs]
    exact (sortBy_perm _ _).symm
  · rintro ⟨n, hn, hruns⟩
    have hcalls : calls tree ≠ [] :=
      List.ne_nil_of_mem (List.mem_filter.mpr ⟨hn, by simpa using hruns⟩)
    obtain ⟨i, hi, hcritical, hrefuse⟩ := exists_refused_issue hp hs hcalls
    have hrefusal : plan.refusal = none := by
      unfold plan
      rw [analyze_of_parse hp]
      rfl
    have hunsafe : plan.safeToApply = false := by
      rw [← Bool.not_eq_true]
      intro hsafe
      have hnone := ((Plan.build_safe_iff unit _ e.selection.detectors hrefusal).mp hsafe).2.2
      exact hnone i hi hrefuse
    refine ⟨plan.state_eq_needsReview_iff.mpr ⟨hrefusal, hunsafe⟩, ?_, ?_,
      Execution.live_unsafe hunsafe⟩
    · rw [e.analyze_complexity unit, Plan.complexityOf_eq_high_iff]
      exact .inr ⟨i, hi, hcritical⟩
    · intro failOnRefusal
      have hplan : plan.hasCritical = true := List.any_eq_true.mpr ⟨i, hi, by simpa using hcritical⟩
      simp [Verdict.ofPlan, Plan.isRefused, hrefusal, hplan]

/-- The call stands in the default argument of an anonymous function. -/
theorem dynamic_code_never_applied_nested :
    let unit : SourceUnit := ⟨"lambda a=eval(x): a\n", none⟩
    let tree : Tree := ⟨unit.source, Tree.rootOf unit.source.toList⟩
    Tree.parse unit.source = .ok tree ∧ Selection.everything.allows .dynamicCodeExecution = true ∧
      (∃ n ∈ tree.root.preorder, RunsData tree n) ∧
      (({} : Engine).analyze unit).state = .needsReview := by
  intro unit tree
  have hfacts : Tree.validates unit.source = true ∧ ∃ n ∈ tree.root.preorder, RunsData tree n := by
    decide +kernel
  obtain ⟨hvalid, hcall⟩ := hfacts
  obtain ⟨parsed, hp⟩ := (Tree.validates_iff unit.source).mp hvalid
  rw [Tree.eq_of_parse hp] at hp
  exact ⟨hp, rfl, hcall, ((dynamic_code_never_applied {} unit tree hp rfl).2 hcall).1⟩

end Engine

end SafeRefactor
