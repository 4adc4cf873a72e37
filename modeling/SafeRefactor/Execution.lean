import SafeRefactor.Diff.Unified
import SafeRefactor.Edit
import SafeRefactor.Plan

/-!
# Executing plans

A plan is executed on a text: a dry run says what would be done, a live run does it. Either all
eligible fixes are applied and the new text parses, or the run fails and there is no new text.
-/

set_option autoImplicit false

namespace SafeRefactor

structure Duration where
  secs : Nat
  nanos : Nat
  deriving DecidableEq, Repr

def Duration.zero : Duration := ⟨0, 0⟩

structure Execution where
  success : Bool
  before : String
  after : Option String
  changes : List String
  errors : List String
  diff : Option String
  duration : Duration
  deriving DecidableEq, Repr

inductive ExecutionError where
  | sourceMismatch (expected actual : String)
  | invalidSource (fault : Syntax.Fault)
  | reviewRequired
  | edit (error : EditError)
  | invalidResult (fault : Syntax.Fault)
  deriving DecidableEq, Repr

def ExecutionError.message : ExecutionError → String
  | sourceMismatch e a =>
    "source does not match the analysed plan (expected digest " ++ e ++ ", got " ++ a ++ ")"
  | invalidSource f => "source failed pre-execution validation: " ++ f.message
  | reviewRequired =>
      "plan is marked NEEDS REVIEW; live execution requires an explicit review override"
  | edit e => e.message
  | invalidResult f => "refactored code failed validation, changes rolled back: " ++ f.message

namespace Execution

structure Mode where
  dryRun : Bool
  allowReview : Bool := false
  deriving DecidableEq, Repr

def eligible (plan : Plan) : List (Issue × String) :=
  (plan.issues.filter Issue.actionable).filterMap fun i => i.fix.map fun f => (i, f)

def liveText (allowReview : Bool) (source : String) (plan : Plan) : Except ExecutionError String :=
  if plan.state = .safeToApply ∨ (plan.state = .needsReview ∧ allowReview = true) then
    match Edit.applyAll source ((eligible plan).map fun (i, f) => ⟨i.range, f⟩) with
    | .error e => .error (.edit e)
    | .ok text =>
      match Syntax.Tree.parse text with
      | .error f => .error (.invalidResult f)
      | .ok _ => .ok text
  else .error .reviewRequired

inductive Outcome where
  | failed (errors : List String)
  | planned (changes : List String)
  | applied (text : String) (changes : List String)
  deriving DecidableEq, Repr

def outcome (mode : Mode) (source : String) (plan : Plan) : Outcome :=
  match plan.refusal with
  | some reason => .failed [reason]
  | none =>
    let actual := Digest.ofSource source
    if actual ≠ plan.digest then
      .failed [(ExecutionError.sourceMismatch plan.digest actual).message]
    else
      match Syntax.Tree.parse source with
      | .error f => .failed [(ExecutionError.invalidSource f).message]
      | .ok _ =>
        if !plan.failures.isEmpty then .failed (plan.failures.map (·.message))
        else
          let described (lead : String) := (eligible plan).map fun (i, _) => lead ++ i.description
          if mode.dryRun then .planned (described "Would apply: ")
          else
            match liveText mode.allowReview source plan with
            | .error e => .failed [e.message]
            | .ok text => .applied text (described "Applied: ")

def events (plan : Plan) : Outcome → List Diagnostic
  | .failed errors => errors.map fun e => ⟨.execution, .warn, plan.sourceId, e⟩
  | .planned changes =>
    [⟨.execution, .info, plan.sourceId, s!"dry run: {changes.length} eligible fix(es)"⟩]
  | .applied _ changes => [⟨.execution, .info, plan.sourceId, s!"applied {changes.length} fix(es)"⟩]

def ofOutcome (source : String) (plan : Plan) : Outcome → Execution
  | .failed errors => ⟨false, source, none, [], errors, none, .zero⟩
  | .planned changes => ⟨true, source, none, changes, [], none, .zero⟩
  | .applied text changes =>
    let diff := if text = source then none
      else some (Diff.unified (.ofSource plan.sourceId) source text)
    ⟨true, source, some text, changes, [], diff, .zero⟩

def run (mode : Mode) (source : String) (plan : Plan) : Execution :=
  ofOutcome source plan (outcome mode source plan)

def runLogged (mode : Mode) (source : String) (plan : Plan) : Execution × List Diagnostic :=
  let o := outcome mode source plan
  (ofOutcome source plan o, events plan o)

end Execution

end SafeRefactor
