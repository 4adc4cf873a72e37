import SafeRefactor.Detect.Shape
import SafeRefactor.Detector

/-!
# Missing docstrings

Reports functions whose body does not begin with a docstring. Where the body stands below the
header, the fix puts a placeholder in front of it.
-/

set_option autoImplicit false

namespace SafeRefactor.Detect.Docstring

open Syntax

def policy : Policy := ⟨.low, .high⟩

def rationale : String :=
  "A docstring is the first statement of a function body; without one the function's contract " ++
  "is only recoverable by reading its implementation, and help() / generated documentation show " ++
  "nothing."

def placeholder (name : String) : String := "\"\"\"TODO: document " ++ name ++ ".\"\"\""

/-- The header of a function followed by a placeholder at the indentation of the body. Nothing if
the body stands on the line of the header, or if either of them is not the first thing on its line.
-/
def fix? (t : Tree) (n : Node) (header : LineRange) : Option String :=
  match bodyStatements n with
  | [] => none
  | first :: _ =>
    let indent := t.indentation first.line
    if header.last < first.line ∧ indent.utf8ByteSize = first.start.column ∧
        (t.indentation header.first).utf8ByteSize = n.start.column then
      some (t.linesText header.first header.last ++ "\n" ++ indent ++
        placeholder (functionName t n))
    else none

def issue (t : Tree) (n : Node) : Issue :=
  let header := LineRange.of n.line (headerEnd n)
  { rule := .missingDocstring
    category := .documentation
    line := n.line
    column := n.column
    severity := policy.severity
    confidence := policy.confidence
    description := "Function \x60" ++ functionName t n ++ "\x60 has no docstring"
    snippet := t.linesText header.first header.last
    range := header
    fix := fix? t n header
    rationale }

def issues (t : Tree) : List Issue :=
  (t.functions.filter fun c => !hasDocstring c.node).map fun c => issue t c.node

end SafeRefactor.Detect.Docstring
