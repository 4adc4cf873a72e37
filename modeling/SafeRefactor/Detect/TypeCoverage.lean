import SafeRefactor.Detect.Shape
import SafeRefactor.Detector

/-!
# Missing type annotations

Reports functions that lack annotations in a module where another function has some. A module
without any is taken to be untyped on purpose.
-/

set_option autoImplicit false

namespace SafeRefactor.Detect.TypeCoverage

open Syntax

def policy : Policy := ⟨.medium, .medium⟩

def rationale : String :=
  "Other functions in this module are annotated, so the gap here weakens type checking at every " ++
  "call site. The intended types cannot be derived from syntax alone, so no annotation is " ++
  "suggested."

structure Coverage where
  node : Node
  annotated : Nat
  missing : List String

inductive Place where
  | annotated
  | missing (name : String)
  | exempt

def isReceiver (method : Bool) (position : Nat) (name : String) : Bool :=
  method && position = 0 && (name = "self" || name = "cls")

def placeOf (t : Tree) (method : Bool) (position : Nat) (n : Node) : Place :=
  match n.kind with
  | .named .typedParameter => .annotated
  | .named .typedDefaultParameter => .annotated
  | .named .keywordSeparator => .exempt
  | .named .positionalSeparator => .exempt
  | .named .identifier => if isReceiver method position (t.text n) then
    .exempt else .missing (t.text n)
  | .named .defaultParameter => .missing (((n.child? .name).map t.text).getD (t.text n))
  | _ => .missing (t.text n)

def placesFrom (t : Tree) (method : Bool) : Nat → List Node → List Place
  | _, [] => []
  | position, n :: ns => placeOf t method position n :: placesFrom t method (position + 1) ns

def Coverage.of (t : Tree) (c : Cursor) : Coverage :=
  let n := c.node
  let parameters := ((n.child? .parameters).map Node.namedChildren).getD []
  let places := placesFrom t (isMethod c) 0 parameters ++
    [if (n.child? .returnType).isSome then Place.annotated else Place.missing "return"]
  { node := n
    annotated := (places.filter fun
      | .annotated => true
      | _ => false).length
    missing := places.filterMap fun
      | .missing name => some name
      | _ => none }

def issue (t : Tree) (c : Coverage) : Issue :=
  let header := LineRange.of c.node.line (headerEnd c.node)
  { rule := .missingTypeHint
    category := .typeSafety
    line := c.node.line
    column := c.node.column
    severity := policy.severity
    confidence := policy.confidence
    description := "Function \x60" ++ functionName t c.node ++
      "\x60 is missing type annotations for: " ++
      Text.join ", " c.missing
    snippet := t.linesText header.first header.last
    range := header
    fix := none
    rationale }

def issuesFrom (t : Tree) : (before : Bool) → List Coverage → List Issue
  | _, [] => []
  | before, c :: rest =>
    let others := before || rest.any fun o => 0 < o.annotated
    (if !c.missing.isEmpty && others then [issue t c] else []) ++
      issuesFrom t (before || 0 < c.annotated) rest

def issues (t : Tree) : List Issue := issuesFrom t false (t.functions.map (Coverage.of t))

end SafeRefactor.Detect.TypeCoverage
