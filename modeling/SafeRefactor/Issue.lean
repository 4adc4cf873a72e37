import SafeRefactor.Rule
import SafeRefactor.LineRange

/-!
# Issues

One finding of a detector: where it is, how it is graded, what is wrong, and, where the advisor can
write one, the text that would replace the lines concerned.
-/

set_option autoImplicit false

namespace SafeRefactor

structure Policy where
  severity : Severity
  confidence : Confidence
  deriving DecidableEq, Repr

structure Issue where
  rule : Rule
  category : Category
  line : Nat
  column : Nat
  severity : Severity
  confidence : Confidence
  description : String
  snippet : String
  range : LineRange
  fix : Option String
  rationale : String
  deriving DecidableEq, Repr

namespace Issue

def actionable (issue : Issue) : Bool := issue.fix.isSome && issue.confidence != .refuse

def anchorLe (a b : Issue) : Bool := a.line < b.line || (a.line == b.line && a.column ≤ b.column)

end Issue

end SafeRefactor
