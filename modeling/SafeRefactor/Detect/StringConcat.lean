import SafeRefactor.Detect.Shape
import SafeRefactor.Detector

/-!
# Strings built in loops

Reports a name that a loop extends by string concatenation again and again. Where the loop does
nothing else, the fix collects the pieces in a list and joins them after the loop.
-/

set_option autoImplicit false

namespace SafeRefactor.Detect.StringConcat

open Syntax

def policy : Policy := ⟨.high, .high⟩

def rationale : String :=
  "Python strings are immutable, so every concatenation copies the text accumulated so far; " ++
  "building a string from n pieces this way is O(n^2). Collecting the pieces in a list and " ++
  "joining once is O(n)."

structure Accumulation where
  statement : Node
  name : String
  appended : Option Node

/-- The operands of `v + a + b …` after the first, last one first, and the first operand. `fuel`
bounds their number. Nothing if an operand is lacking. -/
def additionSpine : Nat → Node → Option (List Node × Node)
  | 0, n => some ([], n)
  | fuel + 1, n =>
    if n.has .binaryOperator && operator? n = some "+" then
      match n.child? .right, n.child? .left with
      | some r, some l => (additionSpine fuel l).map fun (rs, first) => (r :: rs, first)
      | _, _ => none
    else some ([], n)

def loopNames (t : Tree) (loop : Node) : List String := ((loop.child? .left).map t.namesOf).getD []

def isDeclaredString (t : Tree) (n : Node) : Bool :=
  match n.child? .typeHint with
  | some h => t.text h = "str"
  | none => false

/-- The expression that an assignment to `name` appends to it: nothing if it does not extend a
string, and otherwise the expression if it is the only one. `known` says that the name holds a
string. -/
def appended? (t : Tree) (n right : Node) (name : String) (known : Bool) : Option (Option Node) :=
  if n.has .augmentedAssignment then
    if operator? n = some "+=" && (known || isStringLike t right) then some (some right) else none
  else
    match additionSpine right.size right with
    | none => none
    | some (operands, first) =>
      if operands.isEmpty || !first.has .identifier || t.text first ≠ name then none
      else if !known && !operands.any (isStringLike t) then none
      else
        match operands with
        | [e] => some (some e)
        | _ => some none

def accumulation? (t : Tree) (strings : List String) (loop parent n : Node) :
    Option Accumulation := do
  let left ← n.child? .left
  if !left.has .identifier then none
  else
    let name := t.text left
    if (loopNames t loop).contains name then none
    else
      let right ← n.child? .right
      let known := strings.contains name || isDeclaredString t n
      let appended ← appended? t n right name known
      let statement := if parent.has .expressionStatement then parent else n
      some { statement, name, appended }

def isSoleStatement (loop statement : Node) : Bool := bodyStatements loop = [statement]

def joinFix? (t : Tree) (taken : List String) (loop : Node) (a : Accumulation) :
    Option (LineRange × String) := do
  let appended ← a.appended
  let first := loop.line
  let last := loop.endLine
  let stmtFirst := a.statement.line
  let stmtLast := a.statement.endLine
  let indent := t.indentation first
  let bodyIndent := t.indentation stmtFirst
  let applies :=
    loop.has .forStatement && (loop.child? .alternative).isNone &&
      isSoleStatement loop a.statement &&
    !(a.statement.has .expressionStatement && a.statement.namedChildren.length ≠ 1) &&
    !(t.namesOf appended).contains a.name && first < stmtFirst &&
    indent.utf8ByteSize = loop.start.column && bodyIndent.utf8ByteSize = a.statement.start.column
  if applies then
    let parts := unusedName ("_" ++ a.name ++ "_parts") taken
    let rest := if stmtLast < last then t.linesText (stmtLast + 1) last ++ "\n" else ""
    some (.of first last,
      indent ++ parts ++ " = []\n" ++ t.linesText first (stmtFirst - 1) ++ "\n" ++
        bodyIndent ++ parts ++ ".append(" ++ t.text appended ++ ")\n" ++ rest ++
        indent ++ a.name ++ " += \"\".join(" ++ parts ++ ")")
  else none

def issue (t : Tree) (taken : List String) (loop : Node) (a : Accumulation) : Issue :=
  let (range, fix) := match joinFix? t taken loop a with
    | some (r, f) => (r, some f)
    | none => (LineRange.of a.statement.line a.statement.endLine, none)
  { rule := .stringConcatInLoop
    category := .performance
    line := a.statement.line
    column := a.statement.column
    severity := policy.severity
    confidence := policy.confidence
    description := "String \x60" ++ a.name ++ "\x60 is rebuilt by concatenation inside a loop"
    snippet := t.linesText range.first range.last
    range
    fix
    rationale }

def track (t : Tree) (n : Node) (strings : List String) : List String :=
  if n.has .assignment then
    match n.child? .left, n.child? .right with
    | some left, some right =>
      if left.has .identifier then
        let name := t.text left
        if isStringLike t right then name :: strings
        else if right.has .binaryOperator then strings
        else strings.filter (· ≠ name)
      else strings
    | _, _ => strings
  else strings

mutual

/-- Visits nodes in order, with the innermost loop around them and the names that hold strings.
Gives these names as they are afterwards, and the issues found. A function, class or lambda starts
anew. -/
def visit (t : Tree) (taken : List String) (parent : Node) (loop : Option Node) :
    List Node → List String → List String × List Issue
  | [], strings => (strings, [])
  | .mk l cs :: rest, strings =>
    let n := Node.mk l cs
    let (here, found) :=
      if n.opensScope then (strings, (visit t taken n none cs []).2)
      else if n.has .forStatement || n.has .whileStatement then visitParts t taken n loop cs strings
      else if n.has .assignment || n.has .augmentedAssignment then
        let own := match loop with
          | some lp => ((accumulation? t strings lp parent n).map (issue t taken lp)).toList
          | none => []
        let (after, inner) := visit t taken n loop cs (track t n strings)
        (after, own ++ inner)
      else visit t taken n loop cs strings
    let (after, more) := visit t taken parent loop rest here
    (after, found ++ more)

def visitParts (t : Tree) (taken : List String) (lp : Node) (outer : Option Node) :
    List Node → List String → List String × List Issue
  | [], strings => (strings, [])
  | .mk l cs :: rest, strings =>
    let loop := if l.role = some .body then some lp else outer
    let (here, found) := visit t taken (.mk l cs) loop cs strings
    let (after, more) := visitParts t taken lp outer rest here
    (after, found ++ more)

end

def issues (t : Tree) : List Issue := (visit t t.names t.root none t.root.children []).2

end SafeRefactor.Detect.StringConcat
