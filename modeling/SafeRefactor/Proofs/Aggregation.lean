import SafeRefactor.Proofs.PlanInvariant

/-!
# How findings are put together

The detectors of a plan are arbitrary and run one after the other. The issues of all of them are
sorted in one list, by the place of the detector first; that comes to sorting the issues of each
detector for themselves. A detector that fails leaves one failure and nothing else, and the rest of
the plan is as if it had not been in the list.
-/

set_option autoImplicit false

namespace SafeRefactor

namespace Issue

theorem anchorLe_iff (a b : Issue) :
    a.anchorLe b = true ↔ a.line < b.line ∨ a.line = b.line ∧ a.column ≤ b.column := by
  simp [anchorLe]

theorem sortBy_anchorLe_stablySorted (issues : List Issue) :
    StablySorted anchorLe issues (sortBy anchorLe issues) := by
  apply sortBy_stablySorted
  · intro a b
    rw [anchorLe_iff, anchorLe_iff]
    omega
  · intro a b c
    rw [anchorLe_iff, anchorLe_iff, anchorLe_iff]
    omega

end Issue

namespace Detector

variable (d : Detector) (tree : Syntax.Tree)

/-- What a detector reports, whether it is in order or not. -/
def reported : List Issue :=
  match d.detect tree with
  | .found issues => issues
  | .failed _ | .crashed _ => []

/-- Whether a detector comes to an end and every issue it reports is in order. -/
def succeeds : Bool :=
  match d.detect tree with
  | .found issues => issues.all fun i => (i.flaw? d.rule d.policy).isNone
  | .failed _ | .crashed _ => false

/-- Why a detector does not succeed: it fails or crashes, or it reports an issue that has a flaw. -/
def fault? : Option DetectorError :=
  match d.detect tree with
  | .found issues => issues.findSome? fun i =>
      (i.flaw? d.rule d.policy).map fun flaw => .invalidIssue d.rule i.line flaw.reason
  | .failed e => some e
  | .crashed m => some (.crashed d.rule (m.getD "unknown panic payload"))

theorem fault?_isSome_iff : (d.fault? tree).isSome = true ↔ d.succeeds tree = false := by
  unfold fault? succeeds
  cases d.detect tree with
  | found issues =>
    rw [List.findSome?_isSome_iff, List.all_eq_false]
    simp [Option.isSome_iff_ne_none]
  | failed e => simp
  | crashed m => simp

end Detector

theorem assess_eq_error_iff (rule : Rule) (policy : Policy) (issues : List Issue)
    (e : DetectorError) :
    assess rule policy issues = .error e ↔
      issues.findSome? (fun i => (i.flaw? rule policy).map fun flaw =>
        DetectorError.invalidIssue rule i.line flaw.reason) = some e := by
  induction issues with
  | nil => simp [assess]
  | cons i is ih =>
    rw [assess, List.findSome?_cons]
    cases i.flaw? rule policy with
    | some flaw => simp
    | none =>
      simp only [Option.map_none, ← ih]
      cases assess rule policy is <;> simp

/-- Running a detector gives all that it reports or one error. -/
theorem Detector.run_eq (d : Detector) (tree : Syntax.Tree) :
    d.run tree = match d.fault? tree with
      | some e => .error e
      | none => .ok (d.reported tree) := by
  unfold Detector.run fault? reported
  cases d.detect tree with
  | failed e => rfl
  | crashed m => rfl
  | found issues =>
    simp only
    cases hrun : assess d.rule d.policy issues with
    | error e =>
      rw [(assess_eq_error_iff _ _ _ _).mp hrun]
    | ok accepted =>
      obtain ⟨haccepted, hgood⟩ := (assess_eq_ok_iff _ _ _ _).mp hrun
      have hnone : issues.findSome? (fun i => (i.flaw? d.rule d.policy).map fun flaw =>
          DetectorError.invalidIssue d.rule i.line flaw.reason) = none := by
        rw [List.findSome?_eq_none_iff]
        intro i hi
        simp [hgood i hi]
      rw [hnone, haccepted]

namespace Plan

variable (unit : SourceUnit) (tree : Syntax.Tree)

theorem Ranked.le_iff (a b : Ranked) :
    a.le b = true ↔ a.rank < b.rank ∨ a.rank = b.rank ∧ a.issue.anchorLe b.issue = true := by
  simp [Ranked.le]

theorem runAll_rank_le (rank : Nat) (ds : List Detector) :
    ∀ r ∈ (runAll unit tree rank ds).ranked, rank ≤ r.rank := by
  induction ds generalizing rank with
  | nil => simp [runAll]
  | cons d ds ih =>
    intro r hr
    have hlater : r ∈ (runAll unit tree (rank + 1) ds).ranked → rank ≤ r.rank := by
      intro hr
      have := ih (rank + 1) r hr
      omega
    cases hrun : d.run tree with
    | error e =>
      simp only [runAll, hrun] at hr
      exact hlater hr
    | ok issues =>
      simp only [runAll, hrun, List.mem_append, List.mem_map] at hr
      rcases hr with ⟨i, -, rfl⟩ | hr
      · exact Nat.le_refl _
      · exact hlater hr

/-- What the detectors that succeed report, each list sorted by itself. -/
def sortedReports (ds : List Detector) : List Issue :=
  (ds.filter (·.succeeds tree)).flatMap fun d => sortBy Issue.anchorLe (d.reported tree)

/-- The failures of the detectors that do not succeed. -/
def allFailures (ds : List Detector) : List Failure :=
  (ds.filterMap (·.fault? tree)).map fun e => ⟨e.rule, e.message⟩

/-- The first detector ranks below all others, so that its issues are sorted for themselves. -/
theorem runAll_sorted (rank : Nat) (ds : List Detector) :
    (sortBy Ranked.le (runAll unit tree rank ds).ranked).map (·.issue) = sortedReports tree ds := by
  induction ds generalizing rank with
  | nil => rfl
  | cons d ds ih =>
    rw [runAll, d.run_eq tree]
    cases hfault : d.fault? tree with
    | some e =>
      have hfails := (d.fault?_isSome_iff tree).mp (by simp [hfault])
      simp [sortedReports, hfails, ih (rank + 1)]
    | none =>
      have hsucceeds : d.succeeds tree = true := by
        rw [← Bool.not_eq_false, ← d.fault?_isSome_iff tree]
        simp [hfault]
      have hbelow : ∀ x ∈ (d.reported tree).map (Ranked.mk rank),
          ∀ y ∈ (runAll unit tree (rank + 1) ds).ranked, x.le y = true := by
        intro x hx y hy
        obtain ⟨i, -, rfl⟩ := List.mem_map.mp hx
        have := runAll_rank_le unit tree (rank + 1) ds y hy
        exact (Ranked.le_iff _ _).mpr (.inl this)
      have hown : sortBy Ranked.le ((d.reported tree).map (Ranked.mk rank)) =
          (sortBy Issue.anchorLe (d.reported tree)).map (Ranked.mk rank) := by
        refine (map_sortBy _ _ _ ?_ _).symm
        intro a b
        simp [Ranked.le]
      simp only [sortBy_append _ _ _ hbelow, hown, List.map_append, ih (rank + 1), List.map_map]
      simp [sortedReports, hsucceeds, Function.comp_def]

theorem runAll_failures (rank : Nat) (ds : List Detector) :
    (runAll unit tree rank ds).failures = allFailures tree ds := by
  induction ds generalizing rank with
  | nil => rfl
  | cons d ds ih =>
    rw [runAll, d.run_eq tree]
    cases hfault : d.fault? tree <;> simp [allFailures, hfault, ih (rank + 1)]

theorem build_issues (ds : List Detector) :
    (build unit (.ok tree) ds).1.issues = sortedReports tree ds :=
  runAll_sorted unit tree 0 ds

theorem build_failures (ds : List Detector) :
    (build unit (.ok tree) ds).1.failures = allFailures tree ds :=
  runAll_failures unit tree 0 ds

theorem sortedReports_delete (before after : List Detector) {d : Detector}
    (h : d.succeeds tree = false) :
    sortedReports tree (before ++ d :: after) = sortedReports tree (before ++ after) := by
  simp [sortedReports, h]

/-- The issues of a plan are those of the detectors that succeed, in the order of the detectors,
each list sorted by line and column so that ties keep their order. A detector that fails adds one
failure and no issue, and leaving it out changes nothing but that. -/
theorem build_aggregates (ds : List Detector) :
    (build unit (.ok tree) ds).1.issues =
        (ds.filter (·.succeeds tree)).flatMap (fun d => sortBy Issue.anchorLe (d.reported tree)) ∧
      (∀ issues, StablySorted Issue.anchorLe issues (sortBy Issue.anchorLe issues)) ∧
      (build unit (.ok tree) ds).1.failures =
        (ds.filterMap (·.fault? tree)).map (fun e => ⟨e.rule, e.message⟩) ∧
      (∀ d : Detector, (d.fault? tree).isSome = true ↔ d.succeeds tree = false) ∧
      ∀ before d after, ds = before ++ d :: after → d.succeeds tree = false →
        (build unit (.ok tree) (before ++ after)).1.issues = (build unit (.ok tree) ds).1.issues ∧
        (build unit (.ok tree) (before ++ after)).1.complexity =
          (build unit (.ok tree) ds).1.complexity ∧
        (build unit (.ok tree) (before ++ after)).1.safeToApply =
          (build unit (.ok tree) ds).1.safeToApply := by
  refine ⟨build_issues unit tree ds, Issue.sortBy_anchorLe_stablySorted,
    build_failures unit tree ds, fun d => d.fault?_isSome_iff tree, ?_⟩
  rintro before d after rfl hfails
  have hissues : (build unit (.ok tree) (before ++ after)).1.issues =
      (build unit (.ok tree) (before ++ d :: after)).1.issues := by
    rw [build_issues, build_issues, sortedReports_delete tree before after hfails]
  exact ⟨hissues, congrArg complexityOf hissues, congrArg (fun is => isSafe (complexityOf is) is)
    hissues⟩

/-- A detector that reports given issues whatever the tree. -/
def sampleDetector (rule : Rule) (issues : List Issue) : Detector :=
  ⟨rule, rule.category, ⟨.low, .low⟩, fun _ => .found issues⟩

def sampleIssue (rule : Rule) (line : Nat) : Issue where
  rule := rule
  category := rule.category
  line := line
  column := 1
  severity := .low
  confidence := .low
  description := ""
  snippet := ""
  range := .single line
  fix := none
  rationale := "."

/-- The tree of the empty text. -/
def emptyTree : Syntax.Tree := ⟨"", .leaf (.named .moduleUnit) .origin .origin⟩

/-- The second detector reports an issue that is in order and one that is not. -/
theorem build_aggregates_flawed :
    (sampleDetector .nestedLoop [sampleIssue .nestedLoop 1, sampleIssue .bareExcept 2]).succeeds
        emptyTree = false ∧
      (build ⟨"", none⟩ (.ok emptyTree) [sampleDetector .bareExcept [sampleIssue .bareExcept 3],
        sampleDetector .nestedLoop [sampleIssue .nestedLoop 1,
          sampleIssue .bareExcept 2]]).1.issues =
          [sampleIssue .bareExcept 3] := by
  have hfacts : (sampleDetector .nestedLoop
        [sampleIssue .nestedLoop 1, sampleIssue .bareExcept 2]).succeeds emptyTree = false ∧
      (build ⟨"", none⟩ (.ok emptyTree)
        [sampleDetector .bareExcept [sampleIssue .bareExcept 3]]).1.issues =
        [sampleIssue .bareExcept 3] := by decide +kernel
  obtain ⟨hfails, hissues⟩ := hfacts
  have hrest := (build_aggregates ⟨"", none⟩ emptyTree _).2.2.2.2
    [sampleDetector .bareExcept [sampleIssue .bareExcept 3]] _ [] rfl hfails
  exact ⟨hfails, hrest.1.symm.trans hissues⟩

end Plan

end SafeRefactor
