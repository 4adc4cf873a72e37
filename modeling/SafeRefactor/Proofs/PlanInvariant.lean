import Mathlib.Data.List.TakeWhile
import SafeRefactor.Plan
import SafeRefactor.Proofs.Sorting

/-!
# What holds of every built plan

Detectors are arbitrary here: they may report anything, fail or crash. Assessing what they report
lets an issue into a plan only if it keeps the contract of its detector, and the grading of the plan
follows from the issues that got in.
-/

set_option autoImplicit false

namespace SafeRefactor

theorem Text.trim_isEmpty_iff (s : String) :
    (trim s).isEmpty = true ↔ ∀ c ∈ s.toList, isBlank c = true := by
  have hdrop : (trim s).isEmpty = true ↔ ∀ c ∈ s.toList.dropWhile isBlank, isBlank c = true := by
    simp [trim, List.dropWhile_eq_nil_iff]
  rw [hdrop]
  constructor
  · intro h c hc
    have hsplit : s.toList.takeWhile isBlank ++ s.toList.dropWhile isBlank = s.toList :=
      List.takeWhile_append_dropWhile
    rw [← hsplit, List.mem_append] at hc
    rcases hc with hc | hc
    · exact List.mem_takeWhile_imp hc
    · exact h c hc
  · intro h c hc
    exact h c ((List.dropWhile_sublist _).subset hc)

/-- The contract between a detector and the issues it may report. -/
structure Issue.Honours (i : Issue) (d : Detector) : Prop where
  rule_eq : i.rule = d.rule
  severity_eq : i.severity = d.policy.severity
  confidence_eq : i.confidence = d.policy.confidence
  /-- The rationale is not blank. -/
  rationale : ∃ c ∈ i.rationale.toList, Text.isBlank c = false
  line_pos : 1 ≤ i.line
  first_le : i.range.first ≤ i.line
  le_last : i.line ≤ i.range.last
  fix_none : i.confidence = .refuse → i.fix = none

theorem Issue.flaw?_eq_none_iff (i : Issue) (d : Detector) :
    i.flaw? d.rule d.policy = none ↔ i.Honours d := by
  have hblank : ¬ (Text.trim i.rationale).isEmpty = true ↔
      ∃ c ∈ i.rationale.toList, Text.isBlank c = false := by
    rw [Text.trim_isEmpty_iff]
    simp
  constructor
  · intro h
    unfold Issue.flaw? at h
    split_ifs at h with hrule hpolicy hrationale hanchor hfix
    push Not at hrule hpolicy hanchor hfix
    obtain ⟨hpos, hfirst, hlast⟩ := hanchor
    refine ⟨hrule, hpolicy.1, hpolicy.2, hblank.mp hrationale, by omega, hfirst, hlast, ?_⟩
    intro hc
    simpa using hfix hc
  · intro h
    have hpolicy : ¬ (i.severity ≠ d.policy.severity ∨ i.confidence ≠ d.policy.confidence) := by
      simp [h.severity_eq, h.confidence_eq]
    have hanchor : ¬ (i.line = 0 ∨ i.line < i.range.first ∨ i.range.last < i.line) := by
      have := h.line_pos
      have := h.first_le
      have := h.le_last
      omega
    have hfix : ¬ (i.confidence = .refuse ∧ i.fix.isSome = true) := by
      rintro ⟨hc, hf⟩
      simp [h.fix_none hc] at hf
    rw [Issue.flaw?, if_neg (not_not.mpr h.rule_eq), if_neg hpolicy,
      if_neg (hblank.mpr h.rationale), if_neg hanchor, if_neg hfix]

theorem assess_eq_ok_iff (rule : Rule) (policy : Policy) (issues accepted : List Issue) :
    assess rule policy issues = .ok accepted ↔
      accepted = issues ∧ ∀ i ∈ issues, i.flaw? rule policy = none := by
  induction issues generalizing accepted with
  | nil => simp [assess, eq_comm]
  | cons i is ih =>
    rw [assess]
    cases hi : i.flaw? rule policy with
    | some flaw => simp [hi]
    | none =>
      cases hrest : assess rule policy is with
      | error e =>
        have hbad := ih is
        simp [hrest] at hbad
        simp [hi, hbad]
      | ok out =>
        obtain ⟨rfl, hgood⟩ := (ih out).mp hrest
        constructor
        · intro h
          cases h
          exact ⟨rfl, by simpa [hi] using hgood⟩
        · rintro ⟨rfl, -⟩
          rfl

/-- A detector contributes all that it found or nothing, and it contributes only if every issue is
in order. -/
theorem Detector.run_eq_ok_iff (d : Detector) (tree : Syntax.Tree) (issues : List Issue) :
    d.run tree = .ok issues ↔ d.detect tree = .found issues ∧ ∀ i ∈ issues, i.Honours d := by
  unfold Detector.run
  cases d.detect tree with
  | found reported =>
    simp only [assess_eq_ok_iff, Issue.flaw?_eq_none_iff, Detection.found.injEq]
    constructor
    · rintro ⟨rfl, h⟩
      exact ⟨rfl, h⟩
    · rintro ⟨rfl, h⟩
      exact ⟨rfl, h⟩
  | failed e => simp
  | crashed m => simp

namespace Plan

theorem state_eq_refused_iff (p : Plan) : p.state = .refused ↔ p.refusal ≠ none := by
  cases hr : p.refusal <;> cases hs : p.safeToApply <;> simp [state, hr, hs]

theorem state_eq_safeToApply_iff (p : Plan) :
    p.state = .safeToApply ↔ p.refusal = none ∧ p.safeToApply = true := by
  cases hr : p.refusal <;> cases hs : p.safeToApply <;> simp [state, hr, hs]

theorem state_eq_needsReview_iff (p : Plan) :
    p.state = .needsReview ↔ p.refusal = none ∧ p.safeToApply = false := by
  cases hr : p.refusal <;> cases hs : p.safeToApply <;> simp [state, hr, hs]

theorem runAll_honours (unit : SourceUnit) (tree : Syntax.Tree) (rank : Nat) (ds : List Detector) :
    ∀ r ∈ (runAll unit tree rank ds).ranked, ∃ d ∈ ds, r.issue.Honours d := by
  induction ds generalizing rank with
  | nil => simp [runAll]
  | cons d ds ih =>
    intro r hr
    have hlater : r ∈ (runAll unit tree (rank + 1) ds).ranked → ∃ d' ∈ d :: ds,
        r.issue.Honours d' := by
      intro hr
      obtain ⟨d', hd', h⟩ := ih (rank + 1) r hr
      exact ⟨d', by simp [hd'], h⟩
    cases hrun : d.run tree with
    | error e =>
      simp only [runAll, hrun] at hr
      exact hlater hr
    | ok issues =>
      simp only [runAll, hrun, List.mem_append, List.mem_map] at hr
      rcases hr with ⟨i, hi, rfl⟩ | hr
      · exact ⟨d, by simp, ((d.run_eq_ok_iff tree issues).mp hrun).2 i hi⟩
      · exact hlater hr

theorem complexityOf_eq_high_iff (issues : List Issue) :
    complexityOf issues = .high ↔ 10 < issues.length ∨ ∃ i ∈ issues, i.severity = .critical := by
  have hcond :
      (highIssueCount < issues.length || issues.any fun i => i.severity = .critical) = true ↔
      10 < issues.length ∨ ∃ i ∈ issues, i.severity = .critical := by
    simp only [Bool.or_eq_true, decide_eq_true_eq, List.any_eq_true]
    rfl
  rw [← hcond]
  unfold complexityOf
  split_ifs with hhigh hmedium <;> simp [hhigh]

theorem isSafe_iff (issues : List Issue) : isSafe (complexityOf issues) issues = true ↔
    issues.length ≤ 10 ∧ (∀ i ∈ issues, i.severity ≠ .critical) ∧
      ∀ i ∈ issues, i.confidence ≠ .refuse := by
  have hhigh := not_congr (complexityOf_eq_high_iff issues)
  push Not at hhigh
  simp only [isSafe, Bool.and_eq_true, decide_eq_true_eq, List.all_eq_true, ne_eq] at hhigh ⊢
  rw [hhigh, and_assoc]

section

variable (unit : SourceUnit) (parsed : Except Syntax.Fault Syntax.Tree) (detectors : List Detector)

theorem build_refused_iff :
    (build unit parsed detectors).1.refusal.isSome = true ↔ ∃ fault, parsed = .error fault := by
  cases parsed <;> simp [build, refuse]

theorem build_refused_empty (h : (build unit parsed detectors).1.refusal.isSome = true) :
    (build unit parsed detectors).1.issues = [] ∧ (build unit parsed detectors).1.failures = [] ∧
      (build unit parsed detectors).1.safeToApply = false := by
  obtain ⟨fault, rfl⟩ := (build_refused_iff unit parsed detectors).mp h
  exact ⟨rfl, rfl, rfl⟩

/-- Whatever the detectors do, only issues that keep their contract get into a plan. -/
theorem build_honours :
    ∀ i ∈ (build unit parsed detectors).1.issues, ∃ d ∈ detectors, i.Honours d := by
  intro i hi
  cases parsed with
  | error fault => simp [build, refuse] at hi
  | ok tree =>
    simp only [build, List.mem_map, mem_sortBy] at hi
    obtain ⟨r, hr, rfl⟩ := hi
    exact runAll_honours unit tree 0 detectors r hr

theorem build_safe_iff (h : (build unit parsed detectors).1.refusal = none) :
    (build unit parsed detectors).1.safeToApply = true ↔
      (build unit parsed detectors).1.issues.length ≤ 10 ∧
        (∀ i ∈ (build unit parsed detectors).1.issues, i.severity ≠ .critical) ∧
        ∀ i ∈ (build unit parsed detectors).1.issues, i.confidence ≠ .refuse := by
  cases parsed with
  | error fault => simp [build, refuse] at h
  | ok tree => exact isSafe_iff (build unit (.ok tree) detectors).1.issues

end

/-- What holds of the plan that is made of a parse with the help of some detectors. -/
structure Invariant (parsed : Except Syntax.Fault Syntax.Tree) (detectors : List Detector)
    (p : Plan) :
    Prop where
  refused_iff : p.refusal.isSome = true ↔ ∃ fault, parsed = .error fault
  refused_empty : p.refusal.isSome = true → p.issues = [] ∧ p.failures = [] ∧ p.safeToApply = false
  honours : ∀ i ∈ p.issues, ∃ d ∈ detectors, i.Honours d
  safe_iff : p.refusal = none → (p.safeToApply = true ↔
    p.issues.length ≤ 10 ∧ (∀ i ∈ p.issues, i.severity ≠ .critical) ∧
      ∀ i ∈ p.issues, i.confidence ≠ .refuse)
  review : (∃ i ∈ p.issues, i.confidence = .refuse) → p.state = .needsReview

/-- The invariant of every built plan. A refused issue sends its plan to review, since it cannot
stand in a plan that was refused as a whole. -/
theorem build_invariant (unit : SourceUnit) (parsed : Except Syntax.Fault Syntax.Tree)
    (detectors : List Detector) : (build unit parsed detectors).1.Invariant parsed detectors where
  refused_iff := build_refused_iff unit parsed detectors
  refused_empty := build_refused_empty unit parsed detectors
  honours := build_honours unit parsed detectors
  safe_iff := build_safe_iff unit parsed detectors
  review := by
    rintro ⟨i, hi, hc⟩
    have hr : (build unit parsed detectors).1.refusal = none := by
      by_contra hne
      have hempty := build_refused_empty unit parsed detectors (Option.isSome_iff_ne_none.mpr hne)
      simp [hempty.1] at hi
    refine (state_eq_needsReview_iff _).mpr ⟨hr, ?_⟩
    rw [← Bool.not_eq_true, build_safe_iff unit parsed detectors hr]
    exact fun h => h.2.2 i hi hc

end Plan

end SafeRefactor
