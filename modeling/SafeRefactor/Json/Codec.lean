import SafeRefactor.Execution
import SafeRefactor.Json.Record

/-!
# Plans and executions as JSON

How plans, their issues and the results of executing them are written as JSON values and read back.
-/

set_option autoImplicit false

namespace SafeRefactor

namespace Rule

def toJson (r : Rule) : Json := .string r.name

def ofJson? : Json → Option Rule := Json.entry? all name

end Rule

namespace Category

def toJson (c : Category) : Json := .string c.key

def ofJson? : Json → Option Category := Json.entry? all key

end Category

namespace Severity

def toJson (s : Severity) : Json := .string s.key

def ofJson? : Json → Option Severity := Json.entry? all key

end Severity

namespace Confidence

def toJson (c : Confidence) : Json := .string c.key

def ofJson? : Json → Option Confidence := Json.entry? all key

end Confidence

namespace Complexity

def toJson (c : Complexity) : Json := .string c.key

def ofJson? : Json → Option Complexity := Json.entry? all key

end Complexity

namespace LineRange

def toJson (r : LineRange) : Json :=
  .object [("start_line", .nat r.first), ("end_line", .nat r.last)]

def ofJson? (v : Json) : Option LineRange := do
  let r ← v.record? ["start_line", "end_line"]
  let first ← r.required "start_line" 0 Json.nat?
  let last ← r.required "end_line" 1 Json.nat?
  some ⟨first, last⟩

end LineRange

namespace Issue

def toJson (i : Issue) : Json :=
  .object [
    ("rule", i.rule.toJson),
    ("category", i.category.toJson),
    ("line", .nat i.line),
    ("column", .nat i.column),
    ("severity", i.severity.toJson),
    ("confidence", i.confidence.toJson),
    ("description", .string i.description),
    ("current_snippet", .string i.snippet),
    ("span", i.range.toJson),
    ("suggested_fix", .ofOption i.fix),
    ("rationale", .string i.rationale)]

def ofJson? (v : Json) : Option Issue := do
  let r ← v.record? ["rule", "category", "line", "column", "severity", "confidence", "description",
    "current_snippet", "span", "suggested_fix", "rationale"]
  let rule ← r.required "rule" 0 Rule.ofJson?
  let category ← r.required "category" 1 Category.ofJson?
  let line ← r.required "line" 2 Json.nat?
  let column ← r.required "column" 3 Json.nat?
  let severity ← r.required "severity" 4 Severity.ofJson?
  let confidence ← r.required "confidence" 5 Confidence.ofJson?
  let description ← r.required "description" 6 Json.text?
  let snippet ← r.required "current_snippet" 7 Json.text?
  let range ← r.required "span" 8 LineRange.ofJson?
  let fix ← r.optional "suggested_fix" 9 Json.text?
  let rationale ← r.required "rationale" 10 Json.text?
  some { rule, category, line, column, severity, confidence, description, snippet, range, fix,
         rationale }

end Issue

namespace Failure

def toJson (f : Failure) : Json := .object [("rule", f.rule.toJson), ("message", .string f.message)]

def ofJson? (v : Json) : Option Failure := do
  let r ← v.record? ["rule", "message"]
  let rule ← r.required "rule" 0 Rule.ofJson?
  let message ← r.required "message" 1 Json.text?
  some { rule, message }

end Failure

namespace Plan

def members (p : Plan) : List (String × Json) := [
  ("source_id", .ofOption p.sourceId),
  ("source_digest", .string p.digest),
  ("issues", .array (p.issues.map Issue.toJson)),
  ("complexity", p.complexity.toJson),
  ("safe_to_apply", .bool p.safeToApply),
  ("refusal_reason", .ofOption p.refusal),
  ("detector_failures", .array (p.failures.map Failure.toJson))]

def toJson (p : Plan) : Json := .object p.members

def ofJson? (v : Json) : Option Plan := do
  let r ← v.record? ["source_id", "source_digest", "issues", "complexity", "safe_to_apply",
    "refusal_reason", "detector_failures"]
  let sourceId ← r.optional "source_id" 0 Json.text?
  let digest ← r.required "source_digest" 1 Json.text?
  let issues ← r.required "issues" 2 (Json.list? Issue.ofJson?)
  let complexity ← r.required "complexity" 3 Complexity.ofJson?
  let safeToApply ← r.required "safe_to_apply" 4 Json.bool?
  let refusal ← r.optional "refusal_reason" 5 Json.text?
  let failures ← r.defaulted "detector_failures" 6 [] (Json.list? Failure.ofJson?)
  some { sourceId, digest, issues, complexity, safeToApply, refusal, failures }

end Plan

namespace Duration

def toJson (d : Duration) : Json := .object [("secs", .nat d.secs), ("nanos", .nat d.nanos)]

def ofParts? (secs nanos : Nat) : Option Duration :=
  let total := secs + nanos / 1000000000
  if total < Nat.pow 2 64 then some ⟨total, nanos % 1000000000⟩ else none

def ofJson? (v : Json) : Option Duration := do
  let known := match v with
    | .object ms => ms.all fun m => m.1 = "secs" || m.1 = "nanos"
    | _ => true
  if !known then none
  else
    let r ← v.record? ["secs", "nanos"]
    let secs ← r.required "secs" 0 Json.nat?
    let nanos ← r.required "nanos" 1 (Json.below? (Nat.pow 2 32))
    ofParts? secs nanos

end Duration

namespace Execution

def members (e : Execution) : List (String × Json) := [
  ("success", .bool e.success),
  ("original_code", .string e.before),
  ("refactored_code", .ofOption e.after),
  ("changes_applied", .strings e.changes),
  ("errors", .strings e.errors),
  ("diff", .ofOption e.diff)]

def toJson (e : Execution) : Json := .object (e.members ++ [("duration", e.duration.toJson)])

def ofJson? (v : Json) : Option Execution := do
  let r ← v.record? ["success", "original_code", "refactored_code", "changes_applied", "errors",
    "diff", "duration"]
  let success ← r.required "success" 0 Json.bool?
  let before ← r.required "original_code" 1 Json.text?
  let after ← r.optional "refactored_code" 2 Json.text?
  let changes ← r.required "changes_applied" 3 (Json.list? Json.text?)
  let errors ← r.required "errors" 4 (Json.list? Json.text?)
  let diff ← r.optional "diff" 5 Json.text?
  let duration ← r.required "duration" 6 Duration.ofJson?
  some { success, before, after, changes, errors, diff, duration }

end Execution

namespace Diagnostic

def toJson (d : Diagnostic) : Json :=
  .object [("phase", .string d.phase.name), ("level", .string d.level.title),
    ("source_id", .ofOption d.sourceId), ("message", .string d.message)]

end Diagnostic

end SafeRefactor
