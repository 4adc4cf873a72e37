import SafeRefactor.Proofs.LiveGate

/-!
# Dry runs and live runs

The checks that come before any fix is looked at do not know whether a run is dry. So a dry run that
fails fails for the reason that stops every run of the plan, and a live run that succeeds has passed
all that a dry run asks for. The two then speak of the same fixes, in the order of the plan, and
these are the fixes that the new text is made of.
-/

set_option autoImplicit false

namespace SafeRefactor

/-- What a plan asks for, fix by fix: what is said of it, and the edit that makes it. -/
def Plan.requests (p : Plan) : List (String × Edit) :=
  p.issues.filterMap fun i =>
    if i.confidence = .refuse then none else i.fix.map fun f => (i.description, ⟨i.range, f⟩)

theorem Plan.requests_edits (p : Plan) : p.requests.map (·.2) = p.fixes := by
  simp only [requests, fixes, List.map_filterMap]
  congr 1
  funext i
  by_cases hc : i.confidence = .refuse
  · simp [hc]
  · simp [hc, Function.comp_def]

namespace Edit

/-- The text that an edit puts in place of its lines. -/
def newText (source : String) (e : Edit) : List Char :=
  (newLines (terminatorStyle source.toList) (Text.pieces source.toList) e).flatten

theorem newLines_infix_merge (eol : List Char) (lines : List (List Char)) {e : Edit}
    {es : List Edit}
    (he : e ∈ es) (done : Nat) : newLines eol lines e <:+: merge eol lines done es := by
  induction es generalizing done with
  | nil => simp at he
  | cons d es ih =>
    rcases List.mem_cons.mp he with rfl | he
    · exact ⟨_, _, rfl⟩
    · exact (ih he d.range.last).trans (List.suffix_append _ _).isInfix

/-- Every edit that is applied shows in the text. -/
theorem newText_infix_merged (source : String) {e : Edit} {edits : List Edit} (he : e ∈ edits) :
    newText source e <:+: (merged source edits).toList := by
  rw [merged, String.toList_ofList]
  obtain ⟨before, after, h⟩ := newLines_infix_merge (terminatorStyle source.toList)
    (Text.pieces source.toList) ((mem_sortBy le edits e).mpr he) 0
  rw [← h, List.flatten_append, List.flatten_append]
  exact ⟨before.flatten, after.flatten, rfl⟩

end Edit

namespace Execution

variable {source : String} {plan : Plan} {allowReview : Bool}

theorem described_eq (lead : String) (plan : Plan) :
    described lead plan = plan.requests.map fun r => lead ++ r.1 := by
  unfold described eligible Plan.requests
  induction plan.issues with
  | nil => rfl
  | cons i is ih =>
    cases hf : i.fix with
    | none => simpa [Issue.actionable, hf] using ih
    | some f =>
      by_cases hc : i.confidence = .refuse
      · simpa [Issue.actionable, hf, hc] using ih
      · simpa [Issue.actionable, hf, hc] using ih

/-- What stops a dry run stops every run. -/
theorem outcome_of_dry_failed {errors : List String}
    (h : outcome ⟨true, allowReview⟩ source plan = .failed errors) (mode : Mode) :
    outcome mode source plan = .failed errors := by
  have hexit := outcome_exit ⟨true, allowReview⟩ source plan
  rw [h] at hexit
  cases hexit with
  | refused reason hr => exact (Exit.refused reason hr).outcome_eq
  | foreign hr hd => exact (Exit.foreign hr hd).outcome_eq
  | unreadable fault hr hd hp => exact (Exit.unreadable fault hr hd hp).outcome_eq
  | incomplete tree hr hd hp hf => exact (Exit.incomplete tree hr hd hp hf).outcome_eq
  | unreviewed ha hl => cases hl
  | rejected err ha hl => cases hl
  | invalidated text fault ha hl => cases hl

theorem dry_failed (h : (run ⟨true, allowReview⟩ source plan).success = false) :
    ∃ errors, outcome ⟨true, allowReview⟩ source plan = .failed errors := by
  rw [run] at h
  cases ho : outcome ⟨true, allowReview⟩ source plan with
  | failed errors => exact ⟨errors, rfl⟩
  | planned changes => simp [ho, ofOutcome] at h
  | applied text changes => simp [ho, ofOutcome] at h

/-- A dry run predicts the live run of any plan on any text. If it fails, the live run fails with
the same errors. If the live run succeeds, so does the dry run, both name the same fixes in the
order of the plan, and the new text is the old one with exactly these fixes. -/
theorem dry_run_predicts (source : String) (plan : Plan) (allowReview : Bool) :
    let dry := run ⟨true, allowReview⟩ source plan
    let live := run ⟨false, allowReview⟩ source plan
    (dry.success = false → live.success = false ∧ live.errors = dry.errors) ∧
    (live.success = true →
      dry.success = true ∧ dry.changes.length = live.changes.length ∧
      dry.changes = plan.requests.map (fun r => "Would apply: " ++ r.1) ∧
      live.changes = plan.requests.map (fun r => "Applied: " ++ r.1) ∧
      ∃ text, live.after = some text ∧ Edit.applyAll source (plan.requests.map (·.2)) = .ok text ∧
        ∀ r ∈ plan.requests, Edit.newText source r.2 <:+: text.toList) := by
  intro dry live
  constructor
  · intro h
    obtain ⟨errors, hdry⟩ := dry_failed h
    have hlive := outcome_of_dry_failed hdry ⟨false, allowReview⟩
    have hsame : live = dry := by simp only [live, dry, run, hlive, hdry]
    exact ⟨hsame ▸ h, congrArg Execution.errors hsame⟩
  · intro h
    obtain ⟨text, hafter⟩ := live_success_iff.mp h
    obtain ⟨ha, hc, he, tree, hp⟩ := live_after_iff.mp hafter
    have hplanned :
        Exit ⟨true, allowReview⟩ source plan (.planned (described "Would apply: " plan)) :=
      .planned ha rfl
    have happlied :
        Exit ⟨false, allowReview⟩ source plan (.applied text (described "Applied: " plan)) :=
      .applied text tree ha rfl hc he hp
    have hdry : dry = ofOutcome source plan (.planned (described "Would apply: " plan)) := by
      simp only [dry, run, hplanned.outcome_eq]
    have hlive : live = ofOutcome source plan (.applied text (described "Applied: " plan)) := by
      simp only [live, run, happlied.outcome_eq]
    have hwould : dry.changes = plan.requests.map (fun r => "Would apply: " ++ r.1) := by
      rw [hdry, ← described_eq]
      rfl
    have hdone : live.changes = plan.requests.map (fun r => "Applied: " ++ r.1) := by
      rw [hlive, ← described_eq]
      rfl
    refine ⟨by rw [hdry]; rfl, by rw [hwould, hdone]; simp, hwould, hdone, text, hafter, ?_, ?_⟩
    · rw [plan.requests_edits, he]
    · intro r hr
      have hmem : r.2 ∈ plan.fixes := by
        rw [← plan.requests_edits]
        exact List.mem_map_of_mem hr
      rw [((Edit.applyAll_eq_ok_iff source plan.fixes text).mp he).2.2]
      exact Edit.newText_infix_merged source hmem

/-- A plan that names its fixes from the bottom up, run on the text it was made for and on another
one. -/
theorem dry_run_predicts_upwards :
    let source := "x = 1\ny = 2\n"
    let issue (line : Nat) (description fix : String) : Issue :=
      { rule := .bareExcept, category := .errorHandling, line, column := 1, severity := .high,
        confidence := .high, description, snippet := "", range := .single line, fix := some fix,
        rationale := "" }
    let plan : Plan :=
      { samplePlan source ⟨1, 1⟩ "" with
        issues := [issue 2 "lower" "b = 2", issue 1 "upper" "a = 1"] }
    (run ⟨true, false⟩ "z\n" plan).success = false ∧
      (run ⟨false, false⟩ "z\n" plan).errors = (run ⟨true, false⟩ "z\n" plan).errors ∧
      (run ⟨false, false⟩ source plan).success = true ∧
      (run ⟨true, false⟩ source plan).changes = ["Would apply: lower", "Would apply: upper"] ∧
      (run ⟨false, false⟩ source plan).changes = ["Applied: lower", "Applied: upper"] := by
  intro source issue plan
  have hforeign : Exit ⟨true, false⟩ "z\n" plan _ := .foreign rfl (by decide +kernel)
  have hfails : (run ⟨true, false⟩ "z\n" plan).success = false := by
    rw [run, hforeign.outcome_eq]
    rfl
  have hfacts : Syntax.Tree.validates source = true ∧
      Syntax.Tree.validates "a = 1\nb = 2\n" = true ∧
      Edit.applyAll source plan.fixes = .ok "a = 1\nb = 2\n" := by
    decide +kernel
  obtain ⟨hsource, htext, hedit⟩ := hfacts
  have hsuccess : (run ⟨false, false⟩ source plan).success = true :=
    live_success_iff.mpr
      ⟨_, live_after_iff.mpr ⟨⟨rfl, rfl, (Syntax.Tree.validates_iff _).mp hsource, rfl⟩,
      .inl rfl, hedit, (Syntax.Tree.validates_iff _).mp htext⟩⟩
  obtain ⟨-, -, hwould, hdone, -⟩ := (dry_run_predicts source plan false).2 hsuccess
  exact ⟨hfails, ((dry_run_predicts "z\n" plan false).1 hfails).2, hsuccess, hwould, hdone⟩

end Execution

end SafeRefactor
