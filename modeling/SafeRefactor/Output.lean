import SafeRefactor.Json.Codec
import SafeRefactor.Json.Parser
import SafeRefactor.Json.Printer
import SafeRefactor.Report

/-!
# Output

What is shown for a list of analysed sources: their reports, or all of them as JSON. Beside it, one
line for each, and the verdict that becomes the exit status.
-/

set_option autoImplicit false

namespace SafeRefactor

structure UnitOutput where
  plan : Plan
  execution : Option Execution
  deriving DecidableEq, Repr

namespace UnitOutput

def toJson (u : UnitOutput) : Json :=
  .object (("plan", u.plan.toJson) ::
    match u.execution with
    | some e => [("result", e.toJson)]
    | none => [])

def ofJson? (v : Json) : Option UnitOutput := do
  let r ← v.record? ["plan", "result"]
  let plan ← r.required "plan" 0 Plan.ofJson?
  let execution ← r.optional "result" 1 Execution.ofJson?
  some { plan, execution }

end UnitOutput

inductive Format where
  | text
  | json
  deriving DecidableEq, Repr

namespace Format

def all : List Format := [.text, .json]

def key : Format → String
  | text => "text"
  | json => "json"

end Format

def renderUnits (units : List UnitOutput) : Format → String
  | .text => Text.join "\n" (units.map fun u => Report.render u.plan u.execution)
  | .json => (Json.array (units.map UnitOutput.toJson)).pretty ++ "\n"

def readUnits? (text : String) : Option (List UnitOutput) :=
  match Json.parse text with
  | some v => Json.list? UnitOutput.ofJson? v
  | none => none

def State.colour : State → String
  | .safeToApply => "1;32"
  | .needsReview => "1;33"
  | .refused => "1;31"

def summaryLine (p : Plan) (plain : Bool) : String :=
  let state := if plain then p.state.title
    else "\x1b[" ++ p.state.colour ++ "m" ++ p.state.title ++ "\x1b[0m"
  p.sourceId.getD "<input>" ++ ": " ++ state ++ s!" ({p.issues.length} issue(s), complexity " ++
    p.complexity.title ++ ")"

inductive Verdict where
  | clean
  | criticalIssues
  | refused
  | executionFailed
  deriving DecidableEq, Repr

namespace Verdict

def title : Verdict → String
  | clean => "Clean"
  | criticalIssues => "CriticalIssues"
  | refused => "Refused"
  | executionFailed => "ExecutionFailed"

def exitStatus : Verdict → Nat
  | clean => 0
  | criticalIssues => 2
  | refused => 3
  | executionFailed => 4

def worse (a b : Verdict) : Verdict := if a.exitStatus < b.exitStatus then b else a

def ofPlan (p : Plan) (failOnRefusal : Bool) : Verdict :=
  if p.isRefused && failOnRefusal then .refused
  else if p.hasCritical then .criticalIssues
  else .clean

end Verdict

end SafeRefactor
