import SafeRefactor.Detect.BareExcept
import SafeRefactor.Detect.Docstring
import SafeRefactor.Detect.DynamicCode
import SafeRefactor.Detect.NestedLoop
import SafeRefactor.Detect.StringConcat
import SafeRefactor.Detect.TypeCoverage
import SafeRefactor.Selection

/-!
# The catalog of detectors

The detector of each rule.
-/

set_option autoImplicit false

namespace SafeRefactor

def Rule.policy : Rule → Policy
  | .stringConcatInLoop => Detect.StringConcat.policy
  | .nestedLoop => Detect.NestedLoop.policy
  | .missingDocstring => Detect.Docstring.policy
  | .missingTypeHint => Detect.TypeCoverage.policy
  | .bareExcept => Detect.BareExcept.policy
  | .dynamicCodeExecution => Detect.DynamicCode.policy

def Rule.issues : Rule → Syntax.Tree → List Issue
  | .stringConcatInLoop => Detect.StringConcat.issues
  | .nestedLoop => Detect.NestedLoop.issues
  | .missingDocstring => Detect.Docstring.issues
  | .missingTypeHint => Detect.TypeCoverage.issues
  | .bareExcept => Detect.BareExcept.issues
  | .dynamicCodeExecution => Detect.DynamicCode.issues

def Rule.detector (r : Rule) : Detector where
  rule := r
  category := r.category
  policy := r.policy
  detect t := .found (r.issues t)

def Selection.detectors (s : Selection) : List Detector := s.rules.map Rule.detector

end SafeRefactor
