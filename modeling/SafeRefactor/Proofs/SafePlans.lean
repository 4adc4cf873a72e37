import SafeRefactor.Session
import SafeRefactor.Proofs.LiveGate

/-!
# Plans that are safe to apply

The plan that analysis makes for a text is executed on that text. All the conditions of the gate
that concern the plan alone then hold by construction, and the fixes never crash. What is left is
that no detector failed, that the fixes lie in the text and share no line, and that the rewritten
text parses.
-/

set_option autoImplicit false

namespace SafeRefactor

namespace Plan

/-- Fixes of built plans are never inverted. -/
theorem build_first_le_last (unit : SourceUnit) (parsed : Except Syntax.Fault Syntax.Tree)
    (detectors : List Detector) :
    ∀ e ∈ (build unit parsed detectors).1.fixes, e.range.first ≤ e.range.last := by
  intro e he
  obtain ⟨i, hi, -, hr, -⟩ := (mem_fixes_iff _ e).mp he
  obtain ⟨d, -, hd⟩ := build_honours unit parsed detectors i hi
  rw [← hr]
  exact hd.first_le.trans hd.le_last

/-- The fixes of a plan lie in a text and no two of them share a line. -/
def Fits (p : Plan) (source : String) : Prop :=
  (∀ e ∈ p.fixes, e.Inside (Text.pieces source.toList).length) ∧ p.fixes.Pairwise Edit.Apart

instance (p : Plan) (source : String) : Decidable (p.Fits source) :=
  inferInstanceAs (Decidable (_ ∧ _))

theorem applyAll_fixes_iff {p : Plan} (hle : ∀ e ∈ p.fixes, e.range.first ≤ e.range.last)
    (source text : String) :
    Edit.applyAll source p.fixes = .ok text ↔
    p.Fits source ∧ text = Edit.merged source p.fixes := by
  rw [Edit.applyAll_eq_ok_iff, Edit.checked_iff_pairwise source hle, Fits]
  constructor
  · rintro ⟨hfits, -, ht⟩
    exact ⟨hfits, ht⟩
  · rintro ⟨hfits, ht⟩
    refine ⟨hfits, ?_, ht⟩
    intro e he
    have hfirst := (hfits.1 e he).1
    have hlast := hle e he
    exact ⟨by omega, by omega⟩

end Plan

namespace Engine

theorem analyze_first_le_last (e : Engine) (unit : SourceUnit) :
    ∀ d ∈ (e.analyze unit).fixes, d.range.first ≤ d.range.last :=
  Plan.build_first_le_last unit (Syntax.Tree.parse unit.source) e.selection.detectors

theorem analyze_digest (e : Engine) (unit : SourceUnit) :
    (e.analyze unit).digest = Digest.ofSource unit.source := by
  simp only [analyze, analyzeLogged, Plan.build]
  split <;> rfl

theorem analyze_admitted_iff (e : Engine) (unit : SourceUnit) :
    (e.analyze unit).Admitted unit.source ↔
      (e.analyze unit).refusal = none ∧ (e.analyze unit).failures = [] := by
  constructor
  · intro ha
    exact ⟨ha.unrefused, ha.complete⟩
  · rintro ⟨hr, hf⟩
    refine ⟨hr, (e.analyze_digest unit).symm, ?_, hf⟩
    cases hp : Syntax.Tree.parse unit.source with
    | ok tree => exact ⟨tree, rfl⟩
    | error fault =>
      have hrefused : (e.analyze unit).refusal.isSome = true :=
        (Plan.build_refused_iff unit _ e.selection.detectors).mpr ⟨fault, hp⟩
      simp [hr] at hrefused

/-- When a plan that analysis calls safe does apply, exactly: all its detectors ran, its fixes fit
the text, and the text with the fixes merged in still parses. A safe plan can come to grief on the
last of these, and the run then reports what is wrong with the rewritten text. -/
theorem safe_plan_applies_iff (unit : SourceUnit) :
    let plan := ({} : Engine).analyze unit
    let result := ({} : Engine).execute unit.source plan false
    let text := Edit.merged unit.source plan.fixes
    (result.success = true ↔
      plan.state = .safeToApply ∧ plan.failures = [] ∧ plan.Fits unit.source ∧
        ∃ tree, Syntax.Tree.parse text = .ok tree) ∧
    (result.success = true → result.after = some text) ∧
    (plan.state = .safeToApply → plan.failures = [] → plan.Fits unit.source →
      ∀ fault, Syntax.Tree.parse text = .error fault →
        result.errors = [(ExecutionError.invalidResult fault).message]) := by
  intro plan result text
  have hmerge := Plan.applyAll_fixes_iff (analyze_first_le_last {} unit) unit.source
  have hafter (t : String) : result.after = some t ↔
      (plan.refusal = none ∧ plan.failures = []) ∧ plan.Cleared false ∧
        (plan.Fits unit.source ∧ t = text) ∧ ∃ tree, Syntax.Tree.parse t = .ok tree := by
    rw [← analyze_admitted_iff, ← hmerge t]
    exact Execution.live_after_iff
  have hsuccess : result.success = true ↔ ∃ t, result.after = some t := Execution.live_success_iff
  have hclear : plan.Cleared false ↔ plan.safeToApply = true := by simp [Plan.Cleared]
  refine ⟨?_, ?_, ?_⟩
  · rw [hsuccess, plan.state_eq_safeToApply_iff, ← hclear]
    constructor
    · rintro ⟨t, ht⟩
      obtain ⟨⟨hr, hf⟩, hc, ⟨hfits, rfl⟩, hp⟩ := (hafter t).mp ht
      exact ⟨⟨hr, hc⟩, hf, hfits, hp⟩
    · rintro ⟨⟨hr, hc⟩, hf, hfits, hp⟩
      exact ⟨text, (hafter text).mpr ⟨⟨hr, hf⟩, hc, ⟨hfits, rfl⟩, hp⟩⟩
  · intro h
    obtain ⟨t, ht⟩ := hsuccess.mp h
    rw [ht, ((hafter t).mp ht).2.2.1.2]
  · intro hstate hf hfits fault hp
    obtain ⟨hr, hs⟩ := plan.state_eq_safeToApply_iff.mp hstate
    have ha := (analyze_admitted_iff {} unit).mpr ⟨hr, hf⟩
    have he := (hmerge text).mpr ⟨hfits, rfl⟩
    have hexit : Execution.Exit ⟨false, false⟩ unit.source plan
        (.failed [(ExecutionError.invalidResult fault).message]) :=
      .invalidated text fault ha rfl (hclear.mpr hs) he hp
    have hresult : result = Execution.ofOutcome unit.source plan
        (.failed [(ExecutionError.invalidResult fault).message]) :=
      congrArg (Execution.ofOutcome unit.source plan) hexit.outcome_eq
    rw [hresult]
    rfl

theorem safe_plan_applies_documented :
    (({} : Engine).analyze ⟨"def f():\n x\n", none⟩).state = .safeToApply ∧
      (({} : Engine).execute "def f():\n x\n" (({} : Engine).analyze ⟨"def f():\n x\n", none⟩)
        false).success = true := by
  obtain ⟨happlies, -, -⟩ := safe_plan_applies_iff ⟨"def f():\n x\n", none⟩
  have hcond : (({} : Engine).analyze ⟨"def f():\n x\n", none⟩).state = .safeToApply ∧
      (({} : Engine).analyze ⟨"def f():\n x\n", none⟩).failures = [] ∧
      (({} : Engine).analyze ⟨"def f():\n x\n", none⟩).Fits "def f():\n x\n" ∧
      Syntax.Tree.validates
        (Edit.merged "def f():\n x\n" (({} : Engine).analyze ⟨"def f():\n x\n", none⟩).fixes) =
          true := by
    decide +kernel
  obtain ⟨hstate, hf, hfits, hv⟩ := hcond
  exact ⟨hstate, happlies.mpr ⟨hstate, hf, hfits, (Syntax.Tree.validates_iff _).mp hv⟩⟩

end Engine

end SafeRefactor
