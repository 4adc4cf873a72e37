import SafeRefactor.Execution
import SafeRefactor.Proofs.PlanInvariant
import SafeRefactor.Proofs.Splicing

/-!
# Execution is all or nothing

Every run ends at one of nine exits: four before any fix is looked at, one for dry runs, and four
for live runs. The conditions of the exits determine the outcome and leave no run out; what holds of
every result is read off the exits, also for plans that nobody has normalised and whose ranges make
the splicing crash.
-/

set_option autoImplicit false

namespace SafeRefactor

theorem Syntax.Tree.validates_iff (source : String) :
    validates source = true ↔ ∃ tree, parse source = .ok tree := by
  unfold validates
  cases parse source <;> simp

theorem Syntax.Tree.parse_eq_ok_iff {source : String} {tree : Tree} : parse source = .ok tree ↔
    tree = ⟨source, rootOf source.toList⟩ ∧ (rootOf source.toList).firstFault = none ∧
      (rootOf source.toList).firstTooDeep = none := by
  unfold parse
  generalize rootOf source.toList = root
  dsimp only
  cases root.firstFault with
  | some f => simp
  | none =>
    cases root.firstTooDeep with
    | some f => simp
    | none => simp [eq_comm]

theorem Syntax.Tree.eq_of_parse {source : String} {tree : Tree} (h : parse source = .ok tree) :
    tree = ⟨source, rootOf source.toList⟩ :=
  (parse_eq_ok_iff.mp h).1

namespace Plan

/-- The edits that a plan asks for: those of the issues with a fix that are not refused, in plan
order. -/
def fixes (p : Plan) : List Edit :=
  p.issues.filterMap fun i =>
    if i.confidence = .refuse then none else i.fix.map fun f => ⟨i.range, f⟩

theorem mem_fixes_iff (p : Plan) (e : Edit) : e ∈ p.fixes ↔
    ∃ i ∈ p.issues, i.confidence ≠ .refuse ∧ i.range = e.range ∧ i.fix = some e.replacement := by
  simp only [fixes, List.mem_filterMap]
  constructor
  · rintro ⟨i, hi, h⟩
    by_cases hc : i.confidence = .refuse
    · simp [hc] at h
    · simp only [hc, if_false, Option.map_eq_some_iff] at h
      obtain ⟨f, hf, rfl⟩ := h
      exact ⟨i, hi, hc, rfl, hf⟩
  · rintro ⟨i, hi, hc, hr, hf⟩
    exact ⟨i, hi, by simp [hc, hf, hr]⟩

/-- What is checked of a plan and a text before any fix is looked at. -/
structure Admitted (p : Plan) (source : String) : Prop where
  unrefused : p.refusal = none
  analysed : Digest.ofSource source = p.digest
  readable : ∃ tree, Syntax.Tree.parse source = .ok tree
  complete : p.failures = []

/-- The plan may be executed live: it is safe, or someone has looked at it. -/
def Cleared (p : Plan) (allowReview : Bool) : Prop := p.safeToApply = true ∨ allowReview = true

theorem cleared_iff_state {p : Plan} (allowReview : Bool) (h : p.refusal = none) :
    p.Cleared allowReview ↔
      p.state = .safeToApply ∨ p.state = .needsReview ∧ allowReview = true := by
  rw [state_eq_safeToApply_iff, state_eq_needsReview_iff, Cleared]
  cases p.safeToApply <;> simp [h]

end Plan

namespace Execution

theorem eligible_edits (plan : Plan) :
    ((eligible plan).map fun (i, f) => (⟨i.range, f⟩ : Edit)) = plan.fixes := by
  unfold eligible Plan.fixes
  induction plan.issues with
  | nil => rfl
  | cons i is ih =>
    cases hf : i.fix with
    | none => simpa [Issue.actionable, hf] using ih
    | some f =>
      by_cases hc : i.confidence = .refuse
      · simpa [Issue.actionable, hf, hc] using ih
      · simpa [Issue.actionable, hf, hc] using ih

/-- What a run says of the issues it acts on. -/
def described (lead : String) (plan : Plan) : List String :=
  (eligible plan).map fun (i, _) => lead ++ i.description

/-- The ways in which a run ends, each with the conditions under which it does. -/
inductive Exit (mode : Mode) (source : String) (plan : Plan) : Outcome → Prop where
  | refused (reason : String) : plan.refusal = some reason →
      Exit mode source plan (.failed [reason])
  | foreign : plan.refusal = none → Digest.ofSource source ≠ plan.digest →
      Exit mode source plan
        (.failed [(ExecutionError.sourceMismatch plan.digest (Digest.ofSource source)).message])
  | unreadable (fault : Syntax.Fault) : plan.refusal = none → Digest.ofSource source = plan.digest →
      Syntax.Tree.parse source = .error fault →
      Exit mode source plan (.failed [(ExecutionError.invalidSource fault).message])
  | incomplete (tree : Syntax.Tree) : plan.refusal = none → Digest.ofSource source = plan.digest →
      Syntax.Tree.parse source = .ok tree → plan.failures ≠ [] →
      Exit mode source plan (.failed (plan.failures.map (·.message)))
  | planned : plan.Admitted source → mode.dryRun = true →
      Exit mode source plan (.planned (described "Would apply: " plan))
  | unreviewed : plan.Admitted source → mode.dryRun = false → ¬ plan.Cleared mode.allowReview →
      Exit mode source plan (.failed [ExecutionError.reviewRequired.message])
  | rejected (err : EditError) : plan.Admitted source → mode.dryRun = false →
      plan.Cleared mode.allowReview → Edit.applyAll source plan.fixes = .error err →
      Exit mode source plan (.failed [err.message])
  | invalidated (text : String) (fault : Syntax.Fault) : plan.Admitted source →
      mode.dryRun = false → plan.Cleared mode.allowReview →
      Edit.applyAll source plan.fixes = .ok text → Syntax.Tree.parse text = .error fault →
      Exit mode source plan (.failed [(ExecutionError.invalidResult fault).message])
  | applied (text : String) (tree : Syntax.Tree) : plan.Admitted source → mode.dryRun = false →
      plan.Cleared mode.allowReview → Edit.applyAll source plan.fixes = .ok text →
      Syntax.Tree.parse text = .ok tree →
      Exit mode source plan (.applied text (described "Applied: " plan))

/-- The outcome of a live run that came as far as its fixes. -/
def liveOutcome (plan : Plan) : Except ExecutionError String → Outcome
  | .error e => .failed [e.message]
  | .ok text => .applied text (described "Applied: " plan)

section

variable {mode : Mode} {source text : String} {plan : Plan}

theorem outcome_planned (ha : plan.Admitted source) (hl : mode.dryRun = true) :
    outcome mode source plan = .planned (described "Would apply: " plan) := by
  obtain ⟨tree, hp⟩ := ha.readable
  simp [outcome, ha.unrefused, ha.analysed, hp, ha.complete, hl, described]

theorem outcome_live (ha : plan.Admitted source) (hl : mode.dryRun = false) :
    outcome mode source plan = liveOutcome plan (liveText mode.allowReview source plan) := by
  obtain ⟨tree, hp⟩ := ha.readable
  cases ht : liveText mode.allowReview source plan <;>
    simp [outcome, ha.unrefused, ha.analysed, hp, ha.complete, hl, ht, liveOutcome, described]

theorem liveText_unreviewed {allowReview : Bool} (hr : plan.refusal = none)
    (hc : ¬ plan.Cleared allowReview) :
    liveText allowReview source plan = .error .reviewRequired := by
  rw [Plan.cleared_iff_state allowReview hr] at hc
  rw [liveText, if_neg hc]

theorem liveText_cleared {allowReview : Bool} (hr : plan.refusal = none)
    (hc : plan.Cleared allowReview) :
    liveText allowReview source plan =
      ((Edit.applyAll source plan.fixes).mapError .edit).bind fun text =>
        ((Syntax.Tree.parse text).mapError .invalidResult).map fun _ => text := by
  rw [Plan.cleared_iff_state allowReview hr] at hc
  rw [liveText, if_pos hc, eligible_edits]
  cases Edit.applyAll source plan.fixes with
  | error err => rfl
  | ok text =>
    cases hp : Syntax.Tree.parse text <;> simp [Except.mapError, Except.bind, Except.map, hp]

/-- The conditions of an exit determine the outcome. -/
theorem Exit.outcome_eq {o : Outcome} (h : Exit mode source plan o) :
    outcome mode source plan = o := by
  cases h with
  | refused reason hr => simp [outcome, hr]
  | foreign hr hd => simp [outcome, hr, hd]
  | unreadable fault hr hd hp => simp [outcome, hr, hd, hp]
  | incomplete tree hr hd hp hf => simp [outcome, hr, hd, hp, hf]
  | planned ha hl => exact outcome_planned ha hl
  | unreviewed ha hl hc =>
    rw [outcome_live ha hl, liveText_unreviewed ha.unrefused hc]
    rfl
  | rejected err ha hl hc hedit =>
    rw [outcome_live ha hl, liveText_cleared ha.unrefused hc, hedit]
    rfl
  | invalidated text fault ha hl hc hedit hparse =>
    rw [outcome_live ha hl, liveText_cleared ha.unrefused hc, hedit]
    simp [Except.mapError, Except.bind, Except.map, hparse, liveOutcome]
  | applied text tree ha hl hc hedit hparse =>
    rw [outcome_live ha hl, liveText_cleared ha.unrefused hc, hedit]
    simp [Except.mapError, Except.bind, Except.map, hparse, liveOutcome]

theorem live_exit (ha : plan.Admitted source) (hl : mode.dryRun = false) :
    ∃ o, Exit mode source plan o := by
  by_cases hc : plan.Cleared mode.allowReview
  · cases hedit : Edit.applyAll source plan.fixes with
    | error err => exact ⟨_, .rejected err ha hl hc hedit⟩
    | ok text =>
      cases hparse : Syntax.Tree.parse text with
      | error fault => exact ⟨_, .invalidated text fault ha hl hc hedit hparse⟩
      | ok tree => exact ⟨_, .applied text tree ha hl hc hedit hparse⟩
  · exact ⟨_, .unreviewed ha hl hc⟩

end

/-- The conditions of the exits leave nothing out. -/
theorem exit_exists (mode : Mode) (source : String) (plan : Plan) :
    ∃ o, Exit mode source plan o := by
  cases hr : plan.refusal with
  | some reason => exact ⟨_, .refused reason hr⟩
  | none =>
    by_cases hd : Digest.ofSource source = plan.digest
    · cases hp : Syntax.Tree.parse source with
      | error fault => exact ⟨_, .unreadable fault hr hd hp⟩
      | ok tree =>
        by_cases hf : plan.failures = []
        · have ha : plan.Admitted source := ⟨hr, hd, ⟨tree, hp⟩, hf⟩
          cases hl : mode.dryRun with
          | true => exact ⟨_, .planned ha hl⟩
          | false => exact live_exit ha hl
        · exact ⟨_, .incomplete tree hr hd hp hf⟩
    · exact ⟨_, .foreign hr hd⟩

/-- Every run leaves by an exit whose conditions hold. -/
theorem outcome_exit (mode : Mode) (source : String) (plan : Plan) :
    Exit mode source plan (outcome mode source plan) := by
  obtain ⟨o, ho⟩ := exit_exists mode source plan
  rw [ho.outcome_eq]
  exact ho

/-- What holds of the result of every run. -/
structure AllOrNothing (mode : Mode) (source : String) (r : Execution) : Prop where
  before_eq : r.before = source
  success_iff : r.success = true ↔ r.errors = []
  after_iff : r.after.isSome = true ↔ r.success = true ∧ mode.dryRun = false
  diff_iff : r.diff.isSome = true ↔ ∃ text, r.after = some text ∧ text ≠ source
  changes_nil : r.success = false → r.changes = []

theorem failed_all_or_nothing (mode : Mode) (source : String) (plan : Plan) {errors : List String}
    (h : errors ≠ []) : AllOrNothing mode source (ofOutcome source plan (.failed errors)) where
  before_eq := rfl
  success_iff := by simp [ofOutcome, h]
  after_iff := by simp [ofOutcome]
  diff_iff := by simp [ofOutcome]
  changes_nil _ := rfl

theorem applied_all_or_nothing {mode : Mode} (source : String) (plan : Plan) (text : String)
    (changes : List String) (hl : mode.dryRun = false) :
    AllOrNothing mode source (ofOutcome source plan (.applied text changes)) where
  before_eq := rfl
  success_iff := by simp [ofOutcome]
  after_iff := by simp [ofOutcome, hl]
  diff_iff := by by_cases ht : text = source <;> simp [ofOutcome, ht]
  changes_nil h := by simp [ofOutcome] at h

theorem exit_all_or_nothing {mode : Mode} {source : String} {plan : Plan} {o : Outcome}
    (h : Exit mode source plan o) : AllOrNothing mode source (ofOutcome source plan o) := by
  cases h with
  | planned ha hl => constructor <;> simp [ofOutcome, hl]
  | applied text tree ha hl hc hedit hparse => exact applied_all_or_nothing source plan text _ hl
  | incomplete tree hr hd hp hf => exact failed_all_or_nothing mode source plan (by simpa using hf)
  | refused | foreign | unreadable | unreviewed | rejected | invalidated =>
    exact failed_all_or_nothing mode source plan (by simp)

/-- A run makes all its changes or none. Edits crash exactly if they pass the checks and one of them
ends at line zero or more than a line before it starts; like every rejected edit, a crash ends as a
failed run with one error. -/
theorem run_all_or_nothing (mode : Mode) (source : String) (plan : Plan) :
    AllOrNothing mode source (run mode source plan) ∧
    ((∃ err, Edit.applyAll source plan.fixes = .error err ∧ err.isCrash = true) ↔
      Edit.Checked source plan.fixes ∧
        ∃ e ∈ plan.fixes, e.range.last = 0 ∨ e.range.last + 1 < e.range.first) ∧
    ∀ err, Edit.applyAll source plan.fixes = .error err → plan.Admitted source →
      mode.dryRun = false → plan.Cleared mode.allowReview →
        (run mode source plan).success = false ∧ (run mode source plan).errors = [err.message] := by
  refine ⟨exit_all_or_nothing (outcome_exit mode source plan), ?_, ?_⟩
  · rw [Edit.applyAll_crash_iff]
    simp only [Edit.not_spliceable_iff]
  · intro err he ha hl hc
    rw [run, (Exit.rejected err ha hl hc he).outcome_eq]
    exact ⟨rfl, rfl⟩

/-- A safe plan for a text with one fix. -/
def samplePlan (source : String) (range : LineRange) (fix : String) : Plan where
  sourceId := none
  digest := Digest.ofSource source
  issues := [{ rule := .bareExcept, category := .errorHandling, line := 1, column := 1,
               severity := .high, confidence := .high, description := "", snippet := "", range,
               fix := some fix, rationale := "" }]
  complexity := .low
  safeToApply := true
  refusal := none
  failures := []

theorem samplePlan_admitted (source : String) (range : LineRange) (fix : String)
    (h : Syntax.Tree.validates source = true) : (samplePlan source range fix).Admitted source :=
  ⟨rfl, rfl, (Syntax.Tree.validates_iff source).mp h, rfl⟩

theorem run_all_or_nothing_inverted :
    Edit.applyAll "x = 1\n" (samplePlan "x = 1\n" ⟨3, 1⟩ "y = 2").fixes = .error (.inverted 2 1) ∧
      (run ⟨false, false⟩ "x = 1\n" (samplePlan "x = 1\n" ⟨3, 1⟩ "y = 2")).success = false ∧
      (run ⟨false, false⟩ "x = 1\n" (samplePlan "x = 1\n" ⟨3, 1⟩ "y = 2")).errors =
        [(EditError.inverted 2 1).message] := by
  have he : Edit.applyAll "x = 1\n" (samplePlan "x = 1\n" ⟨3, 1⟩ "y = 2").fixes =
      .error (.inverted 2 1) := by decide +kernel
  have ha := samplePlan_admitted "x = 1\n" ⟨3, 1⟩ "y = 2" (by decide +kernel)
  exact ⟨he, (run_all_or_nothing _ _ _).2.2 _ he ha rfl (.inl rfl)⟩

end Execution

end SafeRefactor
