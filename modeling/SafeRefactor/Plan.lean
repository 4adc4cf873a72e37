import SafeRefactor.Detector
import SafeRefactor.Diagnostic
import SafeRefactor.Digest
import SafeRefactor.Sort

/-!
# Plans

A plan is what analysing one source comes to: the issues found, how much work they are, and whether
their fixes may be applied unseen. A source that does not parse is refused. A plan is made for one
text and carries its digest.
-/

set_option autoImplicit false

namespace SafeRefactor

structure Failure where
  rule : Rule
  message : String
  deriving DecidableEq, Repr

inductive State where
  | refused
  | safeToApply
  | needsReview
  deriving DecidableEq, Repr

namespace State

def title : State → String
  | refused => "REFUSED"
  | safeToApply => "SAFE TO APPLY"
  | needsReview => "NEEDS REVIEW"

def key : State → String
  | refused => "refused"
  | safeToApply => "safe_to_apply"
  | needsReview => "needs_review"

end State

structure Plan where
  sourceId : Option String
  digest : String
  issues : List Issue
  complexity : Complexity
  safeToApply : Bool
  refusal : Option String
  failures : List Failure
  deriving DecidableEq, Repr

namespace Plan

def state (p : Plan) : State :=
  if p.refusal.isSome then .refused else if p.safeToApply then .safeToApply else .needsReview

def isRefused (p : Plan) : Bool := p.refusal.isSome

def hasCritical (p : Plan) : Bool := p.issues.any fun i => i.severity = .critical

def issuesIn (p : Plan) (c : Category) : List Issue := p.issues.filter fun i => i.category = c

end Plan

def highIssueCount : Nat := 10

def mediumIssueCount : Nat := 4

def complexityOf (issues : List Issue) : Complexity :=
  if highIssueCount < issues.length || issues.any (fun i => i.severity = .critical) then .high
  else if mediumIssueCount < issues.length || issues.any (fun i => i.severity = .high) then .medium
  else .low

def isSafe (complexity : Complexity) (issues : List Issue) : Bool :=
  complexity ≠ .high && issues.all fun i => i.confidence ≠ .refuse

structure SourceUnit where
  source : String
  id : Option String
  deriving DecidableEq, Repr

namespace Plan

def refusalLead : String := "Code has syntax errors: "

def refuse (unit : SourceUnit) (fault : Syntax.Fault) : Plan where
  sourceId := unit.id
  digest := Digest.ofSource unit.source
  issues := []
  complexity := complexityOf []
  safeToApply := false
  refusal := some (refusalLead ++ fault.message)
  failures := []

structure Ranked where
  rank : Nat
  issue : Issue

def Ranked.le (a b : Ranked) : Bool :=
  a.rank < b.rank || (a.rank == b.rank && a.issue.anchorLe b.issue)

structure Findings where
  ranked : List Ranked := []
  failures : List Failure := []
  events : List Diagnostic := []

def runAll (unit : SourceUnit) (tree : Syntax.Tree) : Nat → List Detector → Findings
  | _, [] => {}
  | rank, d :: ds =>
    let rest := runAll unit tree (rank + 1) ds
    match d.run tree with
    | .ok issues =>
      { ranked := issues.map (⟨rank, ·⟩) ++ rest.ranked
        failures := rest.failures
        events :=
          ⟨.detection, .debug, unit.id, d.rule.name ++ s!" reported {issues.length} issue(s)"⟩ ::
            rest.events }
    | .error e =>
      { ranked := rest.ranked
        failures := ⟨e.rule, e.message⟩ :: rest.failures
        events := ⟨.detection, .warn, unit.id, "skipping detector: " ++ e.message⟩ :: rest.events }

def build (unit : SourceUnit) (parsed : Except Syntax.Fault Syntax.Tree)
    (detectors : List Detector) :
    Plan × List Diagnostic :=
  match parsed with
  | .error fault =>
    (refuse unit fault, [⟨.parsing, .info, unit.id, "refusing analysis: " ++ fault.message⟩])
  | .ok tree =>
    let found := runAll unit tree 0 detectors
    let issues := (sortBy Ranked.le found.ranked).map (·.issue)
    let complexity := complexityOf issues
    let safe := isSafe complexity issues
    ({ sourceId := unit.id
       digest := Digest.ofSource unit.source
       issues := issues
       complexity := complexity
       safeToApply := safe
       refusal := none
       failures := found.failures },
      found.events ++ [⟨.planning, .info, unit.id,
        s!"{issues.length} issue(s), complexity " ++ complexity.title ++ ", safe_to_apply " ++
          (if safe then "true" else "false")⟩])

end Plan

end SafeRefactor
