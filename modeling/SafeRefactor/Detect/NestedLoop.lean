import SafeRefactor.Detect.Shape
import SafeRefactor.Detector

/-!
# Loops in loops

Reports a loop that runs over something independent of all loops around it. The `for` clauses of a
comprehension are loops, each inside the ones before it.
-/

set_option autoImplicit false

namespace SafeRefactor.Detect.NestedLoop

open Syntax

def policy : Policy := ⟨.medium, .medium⟩

def rationale : String :=
  "Iterating an independent collection inside another loop multiplies the work (O(n*m)); an " ++
  "index (set or dict lookup) or a precomputed inner result is usually linear. Nested loops are " ++
  "sometimes inherent, e.g. matrix algorithms, so this needs human review."

structure Enclosing where
  names : List String
  iterable : String

def Enclosing.of (t : Tree) (n : Node) : Enclosing where
  names := ((n.child? .left).map t.namesOf).getD []
  iterable := ((n.child? .right).map t.text).getD ""

def abbreviate (text : String) : String :=
  let line := Text.join " " ((Text.words text.toList).map String.ofList)
  if line.length ≤ 40 then line else String.ofList (line.toList.take 37) ++ "..."

def issue (t : Tree) (inner : Node) (innerIterable outerIterable : String) : Issue where
  rule := .nestedLoop
  category := .performance
  line := inner.line
  column := inner.column
  severity := policy.severity
  confidence := policy.confidence
  description := "Loop over \x60" ++ abbreviate innerIterable ++
    "\x60 nested inside loop over \x60" ++
    abbreviate outerIterable ++ "\x60 (possible O(n^2))"
  snippet := t.lineText inner.line
  range := .single inner.line
  fix := none
  rationale := rationale

def check (t : Tree) (stack : List Enclosing) (inner : Node) : List Issue :=
  match stack with
  | [] => []
  | outer :: _ =>
    let iterable := inner.child? .right
    let mentioned := (iterable.map t.namesOf).getD []
    if stack.all fun e => !e.names.any mentioned.contains then
      [issue t inner ((iterable.map t.text).getD "") outer.iterable]
    else []

def truncate (depth : Nat) (stack : List Enclosing) : List Enclosing :=
  stack.drop (stack.length - depth)

mutual

/-- Visits a node. The loops around it are a stack, innermost first, that a loop pushes itself on
while its body is visited. Gives the stack afterwards and the issues found. -/
def visit (t : Tree) : Node → List Enclosing → List Enclosing × List Issue
  | .mk l cs, stack =>
    let n := Node.mk l cs
    if n.opensScope then (stack, (visitAll t cs []).2)
    else
      match l.kind with
      | .named form =>
        if form = .forStatement then
          let (after, found) := visitParts t (.of t n) cs stack
          (after, check t stack n ++ found)
        else if form.isComprehension then
          let (inside, clauses) := visitClauses t cs stack
          let (after, rest) := visitRest t cs inside
          (truncate stack.length after, clauses ++ rest)
        else visitAll t cs stack
      | _ => visitAll t cs stack

def visitAll (t : Tree) : List Node → List Enclosing → List Enclosing × List Issue
  | [], stack => (stack, [])
  | n :: ns, stack =>
    let (here, found) := visit t n stack
    let (after, more) := visitAll t ns here
    (after, found ++ more)

def visitParts (t : Tree) (own : Enclosing) : List Node → List Enclosing →
    List Enclosing × List Issue
  | [], stack => (stack, [])
  | n :: ns, stack =>
    let (here, found) :=
      if n.role = some .body then
        let (inside, found) := visit t n (own :: stack)
        (inside.tail, found)
      else visit t n stack
    let (after, more) := visitParts t own ns here
    (after, found ++ more)

def visitClauses (t : Tree) : List Node → List Enclosing → List Enclosing × List Issue
  | [], stack => (stack, [])
  | .mk l cs :: ns, stack =>
    let n := Node.mk l cs
    if n.has .forInClause then
      let (here, found) := visitIterable t cs stack
      let (after, more) := visitClauses t ns (.of t n :: here)
      (after, found ++ check t here n ++ more)
    else visitClauses t ns stack

def visitIterable (t : Tree) : List Node → List Enclosing → List Enclosing × List Issue
  | [], stack => (stack, [])
  | n :: ns, stack => if n.role = some .right then visit t n stack else visitIterable t ns stack

def visitRest (t : Tree) : List Node → List Enclosing → List Enclosing × List Issue
  | [], stack => (stack, [])
  | n :: ns, stack =>
    let (here, found) := if n.has .forInClause then (stack, []) else visit t n stack
    let (after, more) := visitRest t ns here
    (after, found ++ more)

end

def issues (t : Tree) : List Issue := (visitAll t t.root.children []).2

end SafeRefactor.Detect.NestedLoop
