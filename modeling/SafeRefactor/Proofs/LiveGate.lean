import SafeRefactor.Proofs.Atomicity

/-!
# The gate of live runs

A live run makes a text exactly if the plan is not refused, was made for this source, is complete
and cleared, its fixes can be merged, and the result parses. No condition can be left out, and no
other is asked for, however little the fields of a plan agree with each other.
-/

set_option autoImplicit false

namespace SafeRefactor.Execution

variable {source text : String} {plan : Plan} {allowReview : Bool}

/-- A live run shows a text only on its way through all checks. -/
theorem live_after_iff : (run ⟨false, allowReview⟩ source plan).after = some text ↔
    plan.Admitted source ∧ plan.Cleared allowReview ∧ Edit.applyAll source plan.fixes = .ok text ∧
      ∃ tree, Syntax.Tree.parse text = .ok tree := by
  constructor
  · intro h
    have hexit := outcome_exit ⟨false, allowReview⟩ source plan
    rw [run] at h
    generalize outcome ⟨false, allowReview⟩ source plan = o at h hexit
    cases hexit with
    | applied t tree ha hl hc hedit hparse =>
      have ht : t = text := by simpa [ofOutcome] using h
      subst ht
      exact ⟨ha, hc, hedit, tree, hparse⟩
    | planned | refused | foreign | unreadable | incomplete | unreviewed | rejected | invalidated =>
      simp [ofOutcome] at h
  · rintro ⟨ha, hc, he, tree, hp⟩
    rw [run, (Exit.applied text tree ha rfl hc he hp).outcome_eq]
    rfl

theorem live_success_iff : (run ⟨false, allowReview⟩ source plan).success = true ↔
    ∃ text, (run ⟨false, allowReview⟩ source plan).after = some text := by
  have h := (exit_all_or_nothing (outcome_exit ⟨false, allowReview⟩ source plan)).after_iff
  rw [Option.isSome_iff_exists] at h
  rw [run, h]
  simp

/-- The plan without its refused issues. -/
def dropRefused (plan : Plan) : Plan :=
  { plan with issues := plan.issues.filter fun i => i.confidence ≠ .refuse }

theorem fixes_dropRefused (plan : Plan) : (dropRefused plan).fixes = plan.fixes := by
  simp only [dropRefused, Plan.fixes, List.filterMap_filter]
  congr 1
  funext i
  by_cases hc : i.confidence = .refuse <;> simp [hc]

theorem live_after_dropRefused :
    (run ⟨false, allowReview⟩ source (dropRefused plan)).after =
      (run ⟨false, allowReview⟩ source plan).after := by
  have hadmit : (dropRefused plan).Admitted source ↔ plan.Admitted source :=
    ⟨fun ⟨r, d, p, f⟩ => ⟨r, d, p, f⟩, fun ⟨r, d, p, f⟩ => ⟨r, d, p, f⟩⟩
  have hclear : (dropRefused plan).Cleared allowReview ↔ plan.Cleared allowReview := Iff.rfl
  ext text
  rw [live_after_iff, live_after_iff, hadmit, hclear, fixes_dropRefused]

/-- The gate, exactly. In particular nothing is made of a refused plan, of a text with another
digest or, without the override, of a plan that needs review, and the fixes of refused issues are as
good as absent. -/
theorem live_gate (source : String) (plan : Plan) (allowReview : Bool) (text : String) :
    ((run ⟨false, allowReview⟩ source plan).success = true ∧
        (run ⟨false, allowReview⟩ source plan).after = some text ↔
      plan.refusal = none ∧ Digest.ofSource source = plan.digest ∧
        (∃ tree, Syntax.Tree.parse source = .ok tree) ∧ plan.failures = [] ∧
        (plan.safeToApply = true ∨ allowReview = true) ∧
        Edit.applyAll source plan.fixes = .ok text ∧ ∃ tree, Syntax.Tree.parse text = .ok tree) ∧
    ((run ⟨false, allowReview⟩ source plan).after = some text →
      plan.state ≠ .refused ∧ Digest.ofSource source = plan.digest ∧
        (plan.state = .needsReview → allowReview = true)) ∧
    (run ⟨false, allowReview⟩ source plan).after =
      (run ⟨false, allowReview⟩ source (dropRefused plan)).after := by
  refine ⟨?_, ?_, live_after_dropRefused.symm⟩
  · rw [live_success_iff]
    constructor
    · rintro ⟨-, h⟩
      obtain ⟨ha, hc, he, hp⟩ := live_after_iff.mp h
      exact ⟨ha.unrefused, ha.analysed, ha.readable, ha.complete, hc, he, hp⟩
    · rintro ⟨hr, hd, hs, hf, hc, he, hp⟩
      have h := live_after_iff.mpr ⟨⟨hr, hd, hs, hf⟩, hc, he, hp⟩
      exact ⟨⟨text, h⟩, h⟩
  · intro h
    obtain ⟨ha, hc, -, -⟩ := live_after_iff.mp h
    refine ⟨fun hstate => (plan.state_eq_refused_iff.mp hstate) ha.unrefused, ha.analysed, ?_⟩
    intro hreview
    rcases hc with hsafe | hallow
    · have hunsafe := (plan.state_eq_needsReview_iff.mp hreview).2
      simp [hsafe] at hunsafe
    · exact hallow

theorem live_gate_replacement :
    (run ⟨false, false⟩ "x = 1\n" (samplePlan "x = 1\n" ⟨1, 1⟩ "y = 2")).after = some "y = 2\n" ∧
      (samplePlan "x = 1\n" ⟨1, 1⟩ "y = 2").state ≠ .refused := by
  have ha := samplePlan_admitted "x = 1\n" ⟨1, 1⟩ "y = 2" (by decide +kernel)
  have hp := (Syntax.Tree.validates_iff "y = 2\n").mp (by decide +kernel)
  have he : Edit.applyAll "x = 1\n" (samplePlan "x = 1\n" ⟨1, 1⟩ "y = 2").fixes =
      .ok "y = 2\n" := by
    decide +kernel
  have hgate := live_gate "x = 1\n" (samplePlan "x = 1\n" ⟨1, 1⟩ "y = 2") false "y = 2\n"
  have hafter := (hgate.1.mpr ⟨rfl, rfl, ha.readable, rfl, .inl rfl, he, hp⟩).2
  exact ⟨hafter, (hgate.2.1 hafter).1⟩

end SafeRefactor.Execution
