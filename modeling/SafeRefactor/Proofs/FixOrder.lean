import Mathlib.Data.List.Pairwise
import SafeRefactor.Proofs.DryRuns
import SafeRefactor.Proofs.RejectedEdits

/-!
# The order of fixes

What a run makes of a plan depends on its fixes as a collection: neither their order nor the issues
that nobody acts on make a difference. If no two edits share a line, sorting leaves nothing to the
order in which they came. If two of them do, the edits are rejected, and the ranges that are named
are found in the sorted list of ranges, which is the same for every order, also where ranges tie.
-/

set_option autoImplicit false

namespace SafeRefactor

namespace Edit

variable {es ds : List Edit}

theorem map_range_ordered (hp : es.Perm ds) :
    (sortBy le es).map range = (sortBy le ds).map range := by
  have hsorted (edits : List Edit) :
      ((sortBy le edits).map range).Pairwise fun a b => a.le b = true :=
    List.pairwise_map.mpr (ordered_pairwise edits)
  refine List.Perm.eq_of_pairwise (fun _ _ _ _ => LineRange.eq_of_le_of_le) (hsorted es)
    (hsorted ds) ?_
  exact (((sortBy_perm le es).trans hp).trans (sortBy_perm le ds).symm).map range

theorem firstOutOfRange?_perm (n : Nat) (hp : es.Perm ds) :
    firstOutOfRange? n (sortBy le es) = firstOutOfRange? n (sortBy le ds) := by
  ext r
  rw [firstOutOfRange?_eq_some_iff, firstOutOfRange?_eq_some_iff]
  simp only [LeastOutside, hp.mem_iff]

theorem firstOverlap?_congr (h : es.map range = ds.map range) :
    firstOverlap? es = firstOverlap? ds := by
  induction es generalizing ds with
  | nil =>
    obtain rfl : ds = [] := by simpa using h
    rfl
  | cons a es ih =>
    obtain ⟨a', ds, rfl⟩ := List.exists_cons_of_ne_nil (show ds ≠ [] by rintro rfl; simp at h)
    obtain ⟨ha, htail⟩ : a.range = a'.range ∧ es.map range = ds.map range := by simpa using h
    cases es with
    | nil =>
      obtain rfl : ds = [] := by simpa using htail
      rfl
    | cons b es =>
      obtain ⟨b', ds, rfl⟩ := List.exists_cons_of_ne_nil (show ds ≠ [] by rintro rfl; simp at htail)
      have hb : b.range = b'.range := (List.cons.inj htail).1
      rw [firstOverlap?, firstOverlap?, ih htail, ha, hb]

/-- Edits without a line in common are sorted in one way only. -/
theorem ordered_eq_of_perm (hp : es.Perm ds) (hw : ∀ e ∈ es, e.range.first ≤ e.range.last)
    (hd : es.Pairwise Apart) : sortBy le es = sortBy le ds := by
  have : Std.Symm Apart := ⟨fun _ _ h => h.symm⟩
  refine List.Perm.eq_of_pairwise ?_ (ordered_pairwise es) (ordered_pairwise ds)
    (((sortBy_perm le es).trans hp).trans (sortBy_perm le ds).symm)
  intro a b ha hb hab hba
  rw [mem_sortBy] at ha hb
  by_contra hne
  have hapart := hd.forall ha (hp.mem_iff.mpr hb) hne
  have hsame : a.range = b.range := LineRange.eq_of_le_of_le hab hba
  have hfirst := hw a ha
  rw [apart_iff, Above, Above, ← hsame] at hapart
  omega

/-- Edits in any order come to the same text or the same error. -/
theorem applyAll_perm (source : String) (hp : es.Perm ds)
    (hw : ∀ e ∈ es, e.range.first ≤ e.range.last) :
    applyAll source es = applyAll source ds := by
  have hrange := firstOutOfRange?_perm (Text.pieces source.toList).length hp
  have hoverlap := firstOverlap?_congr (map_range_ordered hp)
  -- Both checks look at ranges alone. Where they pass, the sorted edits are the same list.
  simp only [applyAll, ← hrange, ← hoverlap]
  split
  · rfl
  · next hinside =>
    split
    · rfl
    · next hchain =>
      have hchecked := (checked_iff source es).mpr ⟨hinside, hchain⟩
      rw [ordered_eq_of_perm hp hw ((checked_iff_pairwise source hw).mp hchecked).2]

end Edit

namespace Execution

def Mode.lead (mode : Mode) : String := if mode.dryRun then "Would apply: " else "Applied: "

/-- What a run says of an issue if it succeeds. -/
def note (mode : Mode) (i : Issue) : Option String :=
  if i.actionable then some (mode.lead ++ i.description) else none

theorem described_lead (mode : Mode) (plan : Plan) :
    described mode.lead plan = plan.issues.filterMap (note mode) := by
  rw [described_eq, Plan.requests, List.map_filterMap]
  congr 1
  funext i
  cases hf : i.fix with
  | none => simp [note, Issue.actionable, hf]
  | some f => by_cases hc : i.confidence = .refuse <;> simp [note, Issue.actionable, hf, hc]

/-- The same outcome, with other changes to speak of. -/
def Outcome.retold (changes : List String) : Outcome → Outcome
  | .failed errors => .failed errors
  | .planned _ => .planned changes
  | .applied text _ => .applied text changes

section

variable {mode : Mode} {source : String} {plan : Plan} {issues : List Issue}

/-- Plans that differ in their issues only leave by the same exit if their fixes come to the same.
-/
theorem Exit.with_issues {o : Outcome} (h : Exit mode source plan o)
    (hedits : Edit.applyAll source plan.fixes = Edit.applyAll source { plan with issues }.fixes) :
    Exit mode source { plan with issues } (o.retold (issues.filterMap (note mode))) := by
  have hgranted : plan.Admitted source → ({ plan with issues } : Plan).Admitted source :=
    fun ⟨hr, hd, hp, hf⟩ => ⟨hr, hd, hp, hf⟩
  cases h with
  | refused reason hr => exact .refused reason hr
  | foreign hr hd => exact .foreign hr hd
  | unreadable fault hr hd hp => exact .unreadable fault hr hd hp
  | incomplete tree hr hd hp hf => exact .incomplete tree hr hd hp hf
  | planned ha hl =>
    have hlead : mode.lead = "Would apply: " := by simp [Mode.lead, hl]
    have hdry : Exit mode source { plan with issues } _ := .planned (hgranted ha) hl
    rwa [← hlead, described_lead] at hdry
  | unreviewed ha hl hc => exact .unreviewed (hgranted ha) hl hc
  | rejected err ha hl hc he => exact .rejected err (hgranted ha) hl hc (hedits ▸ he)
  | invalidated text fault ha hl hc he hp =>
    exact .invalidated text fault (hgranted ha) hl hc (hedits ▸ he) hp
  | applied text tree ha hl hc he hp =>
    have hlead : mode.lead = "Applied: " := by simp [Mode.lead, hl]
    have hlive : Exit mode source { plan with issues } _ :=
      .applied text tree (hgranted ha) hl hc (hedits ▸ he) hp
    rwa [← hlead, described_lead] at hlive

theorem run_with_issues
    (hedits : Edit.applyAll source plan.fixes = Edit.applyAll source { plan with issues }.fixes) :
    run mode source { plan with issues } =
      { run mode source plan with
        changes := if (run mode source plan).success then issues.filterMap (note mode)
          else [] } := by
  have hother := (outcome_exit mode source plan).with_issues hedits
  rw [run, run, hother.outcome_eq]
  cases outcome mode source plan <;> rfl

theorem run_changes (mode : Mode) (source : String) (plan : Plan) : (run mode source plan).changes =
    if (run mode source plan).success then plan.issues.filterMap (note mode) else [] := by
  have hself : run mode source plan = _ :=
    run_with_issues (rfl : _ = Edit.applyAll source plan.fixes)
  exact congrArg Execution.changes hself

theorem run_of_actionable_eq
    (h : issues.filter Issue.actionable = plan.issues.filter Issue.actionable) :
    run mode source { plan with issues } = run mode source plan := by
  have heligible : eligible { plan with issues } = eligible plan := by simp only [eligible, h]
  have hfixes : plan.fixes = ({ plan with issues } : Plan).fixes := by
    rw [← eligible_edits, ← eligible_edits, heligible]
  have hnotes : issues.filterMap (note mode) = plan.issues.filterMap (note mode) := by
    rw [← described_lead mode plan, described, ← heligible]
    exact (described_lead mode { plan with issues }).symm
  rw [run_with_issues (congrArg _ hfixes), hnotes, ← run_changes]

end

theorem fixes_perm {plan : Plan} {issues : List Issue} (h : issues.Perm plan.issues) :
    ({ plan with issues } : Plan).fixes.Perm plan.fixes :=
  h.filterMap _

/-- Two plans that differ in their issues only, with the same fixes in whatever order, come to the
same result but for the changes. If the issues are the same in another order, the changes are read
off them in that order. Issues without a fix and refused ones may come, go and change without any
effect. -/
theorem run_ignores_order_and_bystanders (mode : Mode) (source : String) (plan : Plan)
    (issues : List Issue) :
    let other : Plan := { plan with issues }
    let r := run mode source plan
    let s := run mode source other
    ((∀ e ∈ plan.fixes, e.range.first ≤ e.range.last) → other.fixes.Perm plan.fixes →
      s.success = r.success ∧ s.after = r.after ∧ s.errors = r.errors ∧ s.diff = r.diff) ∧
    ((∀ e ∈ plan.fixes, e.range.first ≤ e.range.last) → issues.Perm plan.issues →
      s = { r with changes := s.changes } ∧ s.changes.Perm r.changes ∧
      r.changes = (if r.success then plan.issues.filterMap (note mode) else []) ∧
      s.changes = (if r.success then issues.filterMap (note mode) else [])) ∧
    (issues.filter Issue.actionable = plan.issues.filter Issue.actionable → s = r) := by
  intro other r s
  have hrun (hw : ∀ e ∈ plan.fixes, e.range.first ≤ e.range.last)
      (hp : other.fixes.Perm plan.fixes) :
      s = { r with changes := if r.success then issues.filterMap (note mode) else [] } :=
    run_with_issues (Edit.applyAll_perm source hp.symm hw)
  refine ⟨fun hw hp => ?_, fun hw hp => ?_, run_of_actionable_eq⟩
  · rw [hrun hw hp]
    exact ⟨rfl, rfl, rfl, rfl⟩
  · have hs := hrun hw (fixes_perm hp)
    have hchanges : s.changes = if r.success then issues.filterMap (note mode) else [] :=
      congrArg Execution.changes hs
    refine ⟨by rw [hchanges]; exact hs, ?_, run_changes mode source plan, hchanges⟩
    have hr : r.changes = _ := run_changes mode source plan
    rw [hchanges, hr]
    cases r.success with
    | true => simpa using hp.filterMap (note mode)
    | false => simp

/-- Two fixes for one line, given in either order, beside a refused one for lines that end before
they start. -/
theorem run_ignores_order_and_bystanders_tie :
    let source := "x = 1\n"
    let issue (description fix : String) : Issue :=
      { rule := .bareExcept, category := .errorHandling, line := 1, column := 1, severity := .high,
        confidence := .high, description, snippet := "", range := .single 1, fix := some fix,
        rationale := "" }
    let refused : Issue := { issue "refused" "z" with confidence := .refuse, range := ⟨3, 1⟩ }
    let plan : Plan :=
      { samplePlan source ⟨1, 1⟩ "" with issues := [issue "one" "a", issue "two" "b"] }
    let turned : List Issue := [issue "two" "b", issue "one" "a"]
    (run ⟨false, false⟩ source { plan with issues := turned }).errors =
        (run ⟨false, false⟩ source plan).errors ∧
      (run ⟨true, false⟩ source plan).changes = ["Would apply: one", "Would apply: two"] ∧
      (run ⟨true, false⟩ source { plan with issues := turned }).changes =
        ["Would apply: two", "Would apply: one"] ∧
      run ⟨false, false⟩ source { plan with issues := refused :: plan.issues } =
        run ⟨false, false⟩ source plan := by
  intro source issue refused plan turned
  have hw : ∀ e ∈ plan.fixes, e.range.first ≤ e.range.last := by decide
  have hfixes : ({ plan with issues := turned } : Plan).fixes.Perm plan.fixes := by decide
  have hissues : turned.Perm plan.issues := by decide
  have hsource := (Syntax.Tree.validates_iff source).mp (by decide +kernel)
  have hdry : Exit ⟨true, false⟩ source plan _ := .planned ⟨rfl, rfl, hsource, rfl⟩ rfl
  have hsuccess : (run ⟨true, false⟩ source plan).success = true := by
    rw [run, hdry.outcome_eq]
    rfl
  obtain ⟨hsame, -, -⟩ := run_ignores_order_and_bystanders ⟨false, false⟩ source plan turned
  obtain ⟨-, hturned, -⟩ := run_ignores_order_and_bystanders ⟨true, false⟩ source plan turned
  obtain ⟨-, -, hbystander⟩ :=
    run_ignores_order_and_bystanders ⟨false, false⟩ source plan (refused :: plan.issues)
  obtain ⟨-, -, hchanges, hchanges'⟩ := hturned hw hissues
  rw [hsuccess] at hchanges hchanges'
  exact ⟨(hsame hw hfixes).2.2.1, hchanges, hchanges', hbystander rfl⟩

end Execution

end SafeRefactor
