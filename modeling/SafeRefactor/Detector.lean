import SafeRefactor.Issue
import SafeRefactor.Syntax.Tree

/-!
# Detectors

A detector looks for one kind of issue. Its findings enter a plan only if all of them keep the rules
that `Issue.flaw?` checks; a detector that breaks them, or that fails or crashes, contributes
nothing but a failure.
-/

set_option autoImplicit false

namespace SafeRefactor

inductive DetectorError where
  | crashed (rule : Rule) (message : String)
  | invalidIssue (rule : Rule) (line : Nat) (reason : String)
  deriving DecidableEq, Repr

namespace DetectorError

def rule : DetectorError → Rule
  | crashed r _ | invalidIssue r _ _ => r

def message : DetectorError → String
  | crashed r m => "detector " ++ r.name ++ " panicked: " ++ m
  | invalidIssue r l reason =>
    "detector " ++ r.name ++ s!" produced an invalid issue at line {l}: " ++ reason

end DetectorError

inductive Detection where
  | found (issues : List Issue)
  | failed (error : DetectorError)
  | crashed (message : Option String)
  deriving DecidableEq, Repr

structure Detector where
  rule : Rule
  category : Category
  policy : Policy
  detect : Syntax.Tree → Detection

inductive IssueFlaw where
  | foreignRule
  | offPolicy
  | noRationale
  | anchorOutside
  | fixOnRefusal
  deriving DecidableEq, Repr

def IssueFlaw.reason : IssueFlaw → String
  | foreignRule => "issue carries a different rule id"
  | offPolicy => "severity/confidence differ from the detector policy"
  | noRationale => "rationale is empty"
  | anchorOutside => "anchor line lies outside the issue span"
  | fixOnRefusal => "refused issue carries a suggested fix"

def Issue.flaw? (rule : Rule) (policy : Policy) (issue : Issue) : Option IssueFlaw :=
  if issue.rule ≠ rule then some .foreignRule
  else if issue.severity ≠ policy.severity ∨ issue.confidence ≠ policy.confidence then
    some .offPolicy
  else if (Text.trim issue.rationale).isEmpty then some .noRationale
  else if issue.line = 0 ∨ issue.line < issue.range.first ∨ issue.range.last < issue.line then
    some .anchorOutside
  else if issue.confidence = .refuse ∧ issue.fix.isSome then some .fixOnRefusal
  else none

def assess (rule : Rule) (policy : Policy) : List Issue → Except DetectorError (List Issue)
  | [] => .ok []
  | issue :: rest =>
    match issue.flaw? rule policy with
    | some flaw => .error (.invalidIssue rule issue.line flaw.reason)
    | none =>
      match assess rule policy rest with
      | .error e => .error e
      | .ok issues => .ok (issue :: issues)

def Detector.run (d : Detector) (tree : Syntax.Tree) : Except DetectorError (List Issue) :=
  match d.detect tree with
  | .found issues => assess d.rule d.policy issues
  | .failed e => .error e
  | .crashed m => .error (.crashed d.rule (m.getD "unknown panic payload"))

end SafeRefactor
