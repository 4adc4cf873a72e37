import SafeRefactor.Proofs.Aggregation
import SafeRefactor.Proofs.Atomicity

/-!
# Executing built plans

Replacing lines crashes on ranges that nobody has checked. The ranges of a built plan have been
checked when its issues were assessed: each of them holds the line of its issue, so none is inverted
and none ends at line zero. Whatever text such a plan is executed on, the run ends without a crash.
-/

set_option autoImplicit false

namespace SafeRefactor

/-- The text begins with a given character. -/
def Text.Begins (c : Char) (text : String) : Prop := text.toList.head? = some c

theorem Text.begins_ofList (c : Char) (cs : List Char) : Begins c (String.ofList (c :: cs)) := by
  rw [Begins, String.toList_ofList]
  rfl

theorem Text.Begins.append {c : Char} {text : String} (h : Begins c text) (rest : String) :
    Begins c (text ++ rest) := by
  rw [Begins, String.toList_append, List.head?_append, h]
  rfl

theorem Text.Begins.unique {c d : Char} {text : String} (hc : Begins c text) (hd : Begins d text) :
    c = d := by
  rw [Begins, hc] at hd
  exact Option.some_inj.mp hd

namespace EditError

/-- The text is the report of a crash. -/
def ReportsCrash (text : String) : Prop := crashLead.toList <+: text.toList

theorem reportsCrash_begins {text : String} (h : ReportsCrash text) : Text.Begins 'e' text := by
  obtain ⟨rest, hrest⟩ := h
  have hlead : Text.Begins 'e' crashLead := Text.begins_ofList _ _
  rw [Text.Begins, ← hrest, List.head?_append, hlead]
  rfl

theorem not_reportsCrash {text : String} {c : Char} (h : Text.Begins c text) (hc : c ≠ 'e') :
    ¬ ReportsCrash text := by
  intro hcrash
  exact hc (h.unique (reportsCrash_begins hcrash))

/-- The first letter of what is said about an error. -/
def initial : EditError → Char
  | outOfRange _ _ => 'f'
  | overlapping _ _ => 'o'
  | endsBeforeText | pastText _ _ | inverted _ _ | pastOutput _ _ => 'e'

theorem message_begins (err : EditError) : Text.Begins err.initial err.message := by
  cases err <;>
  · dsimp only [message, initial]
    repeat with_reducible apply Text.Begins.append
    exact Text.begins_ofList _ _

theorem reportsCrash_message_iff (err : EditError) :
    ReportsCrash err.message ↔ err.isCrash = true := by
  have hlead (text : String) : ReportsCrash (crashLead ++ text) :=
    ⟨text.toList, String.toList_append.symm⟩
  cases err with
  | outOfRange r n => simpa [isCrash] using not_reportsCrash (message_begins _) (by simp [initial])
  | overlapping a b => simpa [isCrash] using not_reportsCrash (message_begins _) (by simp [initial])
  | endsBeforeText => exact iff_of_true (hlead _) rfl
  | pastText i n => exact iff_of_true (hlead _) rfl
  | inverted s e => exact iff_of_true (hlead _) rfl
  | pastOutput e n => exact iff_of_true (hlead _) rfl

end EditError

open EditError

theorem DetectorError.message_begins (e : DetectorError) : Text.Begins 'd' e.message := by
  cases e <;>
  · dsimp only [message]
    repeat with_reducible apply Text.Begins.append
    exact Text.begins_ofList _ _

namespace Plan

section

variable (unit : SourceUnit) (parsed : Except Syntax.Fault Syntax.Tree) (detectors : List Detector)

/-- The range of every fix holds the line of its issue. -/
theorem build_spliceable : ∀ e ∈ (build unit parsed detectors).1.fixes, e.Spliceable := by
  intro e he
  obtain ⟨i, hi, -, hr, -⟩ := (mem_fixes_iff _ e).mp he
  obtain ⟨d, -, hd⟩ := build_honours unit parsed detectors i hi
  have hpos := hd.line_pos
  have hfirst := hd.first_le
  have hlast := hd.le_last
  rw [hr] at hfirst hlast
  exact ⟨by omega, by omega⟩

theorem build_fixes_not_crash (source : String) {err : EditError}
    (h : Edit.applyAll source (build unit parsed detectors).1.fixes = .error err) :
    err.isCrash = false := by
  by_contra hcrash
  rw [Bool.not_eq_false] at hcrash
  obtain ⟨-, e, he, hbad⟩ := (Edit.applyAll_crash_iff _ _).mp ⟨err, h, hcrash⟩
  exact hbad (build_spliceable unit parsed detectors e he)

theorem build_refusal_begins {reason : String}
    (h : (build unit parsed detectors).1.refusal = some reason) :
    Text.Begins 'C' reason := by
  cases parsed with
  | ok tree => simp [build] at h
  | error fault =>
    have hreason : refusalLead ++ fault.message = reason := by simpa [build, refuse] using h
    have hlead : Text.Begins 'C' refusalLead := Text.begins_ofList _ _
    rw [← hreason]
    exact hlead.append _

theorem build_failures_begin :
    ∀ f ∈ (build unit parsed detectors).1.failures, Text.Begins 'd' f.message := by
  cases parsed with
  | error fault => simp [build, refuse]
  | ok tree =>
    intro f hf
    rw [build_failures, allFailures, List.mem_map] at hf
    obtain ⟨e, -, rfl⟩ := hf
    exact e.message_begins

end

end Plan

namespace Execution

/-- A run whose exit was not a crash does not report one. Every other exit has an error text of its
own. -/
theorem exit_not_reportsCrash {mode : Mode} {source : String} {plan : Plan} {o : Outcome}
    (hrefusal : ∀ reason, plan.refusal = some reason → ¬ ReportsCrash reason)
    (hfailures : ∀ f ∈ plan.failures, ¬ ReportsCrash f.message)
    (hedits : ∀ err, Edit.applyAll source plan.fixes = .error err → err.isCrash = false)
    (h : Exit mode source plan o) : ∀ e ∈ (ofOutcome source plan o).errors, ¬ ReportsCrash e := by
  cases h with
  | refused reason hr => simpa [ofOutcome] using hrefusal reason hr
  | incomplete tree hr hd hp hf => simpa [ofOutcome] using hfailures
  | rejected err ha hl hc hedit =>
    have hquiet := hedits err hedit
    simpa [ofOutcome, reportsCrash_message_iff] using hquiet
  | planned ha hl => simp [ofOutcome]
  | applied text tree ha hl hc hedit hparse => simp [ofOutcome]
  | foreign hr hd =>
    have hbegins : Text.Begins 's'
        (ExecutionError.sourceMismatch plan.digest (Digest.ofSource source)).message := by
      dsimp only [ExecutionError.message]
      repeat with_reducible apply Text.Begins.append
      exact Text.begins_ofList _ _
    simpa [ofOutcome] using not_reportsCrash hbegins (by decide)
  | unreadable fault hr hd hp =>
    have hbegins : Text.Begins 's' (ExecutionError.invalidSource fault).message :=
      (Text.begins_ofList _ _).append _
    simpa [ofOutcome] using not_reportsCrash hbegins (by decide)
  | unreviewed ha hl hc =>
    have hbegins : Text.Begins 'p' ExecutionError.reviewRequired.message := Text.begins_ofList _ _
    simpa [ofOutcome] using not_reportsCrash hbegins (by decide)
  | invalidated text fault ha hl hc hedit hparse =>
    have hbegins : Text.Begins 'r' (ExecutionError.invalidResult fault).message :=
      (Text.begins_ofList _ _).append _
    simpa [ofOutcome] using not_reportsCrash hbegins (by decide)

theorem crash_of_inverted : ReportsCrash (EditError.inverted 2 1).message ∧
    (run ⟨false, false⟩ "x = 1\n" (samplePlan "x = 1\n" ⟨3, 1⟩ "y = 2")).errors =
      [(EditError.inverted 2 1).message] := by
  have hfacts : Edit.applyAll "x = 1\n" (samplePlan "x = 1\n" ⟨3, 1⟩ "y = 2").fixes =
      .error (.inverted 2 1) ∧ Syntax.Tree.validates "x = 1\n" = true := by decide +kernel
  obtain ⟨he, hvalid⟩ := hfacts
  have ha := samplePlan_admitted "x = 1\n" ⟨3, 1⟩ "y = 2" hvalid
  refine ⟨(reportsCrash_message_iff _).mpr rfl, ?_⟩
  rw [run, (Exit.rejected _ ha rfl (.inl rfl) he).outcome_eq]
  rfl

/-- No run of a built plan reaches a crash or reports one, on whatever text and in whatever mode. A
plan whose run does report a crash was not built; there are such plans. -/
theorem run_built_never_crashes (unit : SourceUnit) (parsed : Except Syntax.Fault Syntax.Tree)
    (detectors : List Detector) (mode : Mode) (source : String) :
    (∀ err, Edit.applyAll source (Plan.build unit parsed detectors).1.fixes = .error err →
      err.isCrash = false) ∧
    (∀ e ∈ (run mode source (Plan.build unit parsed detectors).1).errors, ¬ ReportsCrash e) ∧
    ∃ (other : Plan) (text : String),
      (∃ e ∈ (run ⟨false, false⟩ text other).errors, ReportsCrash e) ∧
        other ≠ (Plan.build unit parsed detectors).1 := by
  have hquiet (mode : Mode) (source : String) :
      ∀ e ∈ (run mode source (Plan.build unit parsed detectors).1).errors, ¬ ReportsCrash e := by
    refine exit_not_reportsCrash ?_ ?_ ?_ (outcome_exit _ _ _)
    · intro reason h
      exact not_reportsCrash (Plan.build_refusal_begins unit parsed detectors h) (by decide)
    · intro f hf
      exact not_reportsCrash (Plan.build_failures_begin unit parsed detectors f hf) (by decide)
    · intro err
      exact Plan.build_fixes_not_crash unit parsed detectors source
  refine ⟨fun err => Plan.build_fixes_not_crash unit parsed detectors source,
    hquiet mode source, ?_⟩
  obtain ⟨hreport, herrors⟩ := crash_of_inverted
  refine ⟨samplePlan "x = 1\n" ⟨3, 1⟩ "y = 2", "x = 1\n", ⟨_, by simp [herrors], hreport⟩, ?_⟩
  intro hsame
  have hnone := hquiet ⟨false, false⟩ "x = 1\n"
  rw [← hsame, herrors] at hnone
  exact hnone _ (by simp) hreport

/-- A detector may report lines that the text lacks; their fix is refused without a crash. -/
theorem run_built_never_crashes_foreign :
    let finding := { Plan.sampleIssue .bareExcept 9 with range := ⟨8, 9⟩, fix := some "x" }
    let plan := (Plan.build ⟨"x\n", none⟩ (.ok Plan.emptyTree)
      [Plan.sampleDetector .bareExcept [finding]]).1
    Edit.applyAll "x\n" plan.fixes = .error (.outOfRange ⟨8, 9⟩ 1) ∧
      (EditError.outOfRange ⟨8, 9⟩ 1).isCrash = false := by
  intro finding plan
  have he : Edit.applyAll "x\n" plan.fixes = .error (.outOfRange ⟨8, 9⟩ 1) := by decide +kernel
  exact ⟨he, (run_built_never_crashes ⟨"x\n", none⟩ _ _ ⟨false, false⟩ "x\n").1 _ he⟩

end Execution

end SafeRefactor
