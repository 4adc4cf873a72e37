import SafeRefactor.Detect.Shape
import SafeRefactor.Detector

/-!
# Code run from data

Reports calls of the built-in functions that run code given as data. Whether that code can be
trusted is not to be seen in one file, so every such call is refused: reported and never changed.
-/

set_option autoImplicit false

namespace SafeRefactor.Detect.DynamicCode

open Syntax

def policy : Policy := ⟨.critical, .refuse⟩

def builtins : List String := ["eval", "exec"]

def rationale (builtin : String) : String :=
  "\x60" ++ builtin ++ "()\x60 runs arbitrary code with the caller's privileges. Whether its " ++
  "input can be influenced by an attacker depends on data flow outside this file, which cannot " ++
  "be derived from syntax; refusing to propose a transformation. A human must verify the input " ++
  "is trusted or replace it (e.g. ast.literal_eval, a dispatch table)."

def called? (t : Tree) (n : Node) : Option String :=
  if n.has .call then
    match n.child? .function with
    | some f =>
      if f.has .identifier && builtins.contains (t.text f) then some (t.text f) else none
    | none => none
  else none

def issue (t : Tree) (n : Node) (builtin : String) : Issue :=
  let range := LineRange.of n.line n.endLine
  { rule := .dynamicCodeExecution
    category := .security
    line := n.line
    column := n.column
    severity := policy.severity
    confidence := policy.confidence
    description := "Call to \x60" ++ builtin ++ "()\x60 executes dynamically constructed code"
    snippet := t.linesText range.first range.last
    range
    fix := none
    rationale := rationale builtin }

def issues (t : Tree) : List Issue := t.nodes.filterMap fun n => (called? t n).map (issue t n)

end SafeRefactor.Detect.DynamicCode
