import SafeRefactor.Binary64
import SafeRefactor.Execution

/-!
# Reports

A plan as text, with the result of executing it if there is one. The layout is fixed: every category
has a section even if it is empty, so that two reports can be compared line by line.
-/

set_option autoImplicit false

namespace SafeRefactor.Report

def yesNo (b : Bool) : String := if b then "true" else "false"

def seconds (d : Duration) : String :=
  ((Binary64.ofRatio d.secs 1).add (Binary64.ofRatio d.nanos 1000000000)).toFixed 3

def blockLines (text : String) : List String := (Text.lines text).map ("    | " ++ ·)

def issueLines (i : Issue) : List String :=
  [s!"- Line {i.line}, column {i.column} [" ++ i.rule.name ++ "]",
    "  Severity: " ++ i.severity.title ++ " | Confidence: " ++ i.confidence.title,
    "  Description: " ++ i.description,
    "  Rationale: " ++ i.rationale,
    "  Current:"] ++ blockLines i.snippet ++
  match i.fix with
  | some f => "  Suggested fix:" :: blockLines f
  | none => ["  Suggested fix: (none)"]

def categoryLines (p : Plan) (c : Category) : List String :=
  let issues := p.issuesIn c
  ["", "## " ++ c.title ++ s!" ({issues.length})"] ++
    if issues.isEmpty then ["(none)"] else issues.flatMap issueLines

def failureLines (p : Plan) : List String :=
  if p.failures.isEmpty then []
  else
    ["", "## Detector Failures"] ++ p.failures.map fun f => "- [" ++ f.rule.name ++ "] " ++
      f.message

def listLines (title : String) (entries : List String) : List String :=
  (title ++ ":") :: if entries.isEmpty then ["- (none)"] else entries.map ("- " ++ ·)

def executionLines (e : Execution) : List String :=
  ["", "## Execution Result", "Success: " ++ yesNo e.success, "Duration: " ++ seconds e.duration ++
    "s"] ++
    listLines "Changes applied" e.changes ++ listLines "Errors" e.errors

def lines (p : Plan) (e : Option Execution) : List String :=
  ["Refactoring Report", "==================", "Source: " ++ p.sourceId.getD "<input>",
    "State: " ++ p.state.title, "Complexity: " ++ p.complexity.title,
    "Safe to apply: " ++ yesNo p.safeToApply, s!"Issues: {p.issues.length}"] ++
  (match p.refusal with
    | some reason => ["", "## Refusal", reason]
    | none => Category.all.flatMap (categoryLines p)) ++
  failureLines p ++ (e.map executionLines).getD []

def render (p : Plan) (e : Option Execution) : String := String.join ((lines p e).map (· ++ "\n"))

end SafeRefactor.Report
