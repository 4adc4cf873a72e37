import SafeRefactor.Detect.Shape
import SafeRefactor.Detector

/-!
# Handlers that catch everything

Reports `except` clauses that name no exception. The fix narrows them to `Exception`.
-/

set_option autoImplicit false

namespace SafeRefactor.Detect.BareExcept

open Syntax

def policy : Policy := ⟨.high, .high⟩

def rationale : String :=
  "A bare \x60except:\x60 also catches BaseException subclasses that carry control flow rather " ++
  "than errors: KeyboardInterrupt (user interrupt), SystemExit, GeneratorExit and asyncio " ++
  "cancellation. Swallowing them makes programs impossible to cancel or interrupt cleanly, so " ++
  "the handler must be narrowed. \x60except Exception:\x60 keeps catching every ordinary error " ++
  "while letting those signals propagate."

def isBare (n : Node) : Bool := n.namedChildren.all (·.has .block)

def fix? (t : Tree) (n : Node) : Option String := do
  let colon ← headerColon? n
  if colon.start.row ≠ n.start.row then none
  else
    let text := t.lineText n.line
    let before ← linePrefix? text n.start.column
    let after ← lineSuffix? text colon.start.column
    some (before ++ "except Exception" ++ after)

def issue (t : Tree) (n : Node) : Issue where
  rule := .bareExcept
  category := .errorHandling
  line := n.line
  column := n.column
  severity := policy.severity
  confidence := policy.confidence
  description :=
    "Bare \x60except:\x60 catches every exception, including interrupts and cancellation"
  snippet := t.lineText n.line
  range := .single n.line
  fix := fix? t n
  rationale := rationale

def issues (t : Tree) : List Issue :=
  (t.nodes.filter fun n => n.has .exceptClause && isBare n).map (issue t)

end SafeRefactor.Detect.BareExcept
