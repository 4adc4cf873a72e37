import SafeRefactor.Text.Blank

/-!
# Rules and their grading

The six rules the advisor knows, the five categories they fall into, and the scales on which an
issue is graded. Every scale has a display name, used in reports, and a key, used in
machine-readable output.
-/

set_option autoImplicit false

namespace SafeRefactor

inductive Category where
  | performance
  | documentation
  | typeSafety
  | errorHandling
  | security
  deriving DecidableEq, Repr

namespace Category

def all : List Category := [.performance, .documentation, .typeSafety, .errorHandling, .security]

def title : Category → String
  | performance => "Performance"
  | documentation => "Documentation"
  | typeSafety => "Type Safety"
  | errorHandling => "Error Handling"
  | security => "Security"

def key : Category → String
  | performance => "performance"
  | documentation => "documentation"
  | typeSafety => "type_safety"
  | errorHandling => "error_handling"
  | security => "security"

end Category

inductive Severity where
  | low
  | medium
  | high
  | critical
  deriving DecidableEq, Repr

namespace Severity

def all : List Severity := [.low, .medium, .high, .critical]

def title : Severity → String
  | low => "Low"
  | medium => "Medium"
  | high => "High"
  | critical => "Critical"

def key : Severity → String
  | low => "low"
  | medium => "medium"
  | high => "high"
  | critical => "critical"

end Severity

/-- How sure the advisor is that a change may be made unseen. An issue of confidence `refuse` is
reported and never acted on. -/
inductive Confidence where
  | high
  | medium
  | low
  | refuse
  deriving DecidableEq, Repr

namespace Confidence

def all : List Confidence := [.high, .medium, .low, .refuse]

def title : Confidence → String
  | high => "High"
  | medium => "Medium"
  | low => "Low"
  | refuse => "Refuse"

def key : Confidence → String
  | high => "high"
  | medium => "medium"
  | low => "low"
  | refuse => "refuse"

end Confidence

inductive Complexity where
  | low
  | medium
  | high
  deriving DecidableEq, Repr

namespace Complexity

def all : List Complexity := [.low, .medium, .high]

def title : Complexity → String
  | low => "Low"
  | medium => "Medium"
  | high => "High"

def key : Complexity → String
  | low => "low"
  | medium => "medium"
  | high => "high"

def rank : Complexity → Nat
  | low => 0
  | medium => 1
  | high => 2

end Complexity

inductive Rule where
  | stringConcatInLoop
  | nestedLoop
  | missingDocstring
  | missingTypeHint
  | bareExcept
  | dynamicCodeExecution
  deriving DecidableEq, Repr

namespace Rule

def all : List Rule :=
  [.stringConcatInLoop, .nestedLoop, .missingDocstring, .missingTypeHint, .bareExcept,
    .dynamicCodeExecution]

def name : Rule → String
  | stringConcatInLoop => "string-concat-in-loop"
  | nestedLoop => "nested-loop"
  | missingDocstring => "missing-docstring"
  | missingTypeHint => "missing-type-annotation"
  | bareExcept => "bare-except"
  | dynamicCodeExecution => "dynamic-code-execution"

def category : Rule → Category
  | stringConcatInLoop => .performance
  | nestedLoop => .performance
  | missingDocstring => .documentation
  | missingTypeHint => .typeSafety
  | bareExcept => .errorHandling
  | dynamicCodeExecution => .security

def normalize (text : String) : String :=
  String.ofList ((Text.lowerAscii (Text.trim text)).toList.map fun c => if c = '_' then '-' else c)

def ofName? (text : String) : Option Rule := all.find? fun r => r.name == normalize text

def unknownMessage (text : String) : String := "unknown rule '" ++ text ++ "'"

end Rule

end SafeRefactor
