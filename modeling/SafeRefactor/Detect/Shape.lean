import SafeRefactor.Syntax.Tree

/-!
# Shapes of code

Questions about the shape of syntax that several detectors ask: what is a docstring, what evidently
is a string, what is a method, and which names are still free.
-/

set_option autoImplicit false

namespace SafeRefactor.Detect

open Syntax

def headerColon? (n : Node) : Option Node := n.children.find? (·.isToken ":")

def bodyStatements (n : Node) : List Node := ((n.child? .body).map Node.namedChildren).getD []

def isDocstring (n : Node) : Bool :=
  n.has .expressionStatement &&
    match n.namedChildren with
    | [s] => s.has .stringLiteral || s.has .concatenatedString
    | _ => false

def hasBytesMark (text : String) : Bool :=
  (text.toList.takeWhile fun c => c ≠ '\x22' && c ≠ '\x27').any fun c => c = 'b' || c = 'B'

def isBytes (t : Tree) (n : Node) : Bool := hasBytesMark (t.text n)

def operator? (n : Node) : Option String := (n.child? .operator).map fun o => o.kind.name

def stringMakers : List String := ["str", "repr", "chr", "format"]

mutual

def isStringLike (t : Tree) : Node → Bool
  | .mk l cs =>
    match l.kind with
    | .named .stringLiteral => !isBytes t (.mk l cs)
    | .named .concatenatedString => !isBytes t (.mk l cs)
    | .named .parenthesizedExpression => firstIsStringLike t cs
    | .named .call => calleeIsStringLike t cs
    | .named .binaryOperator =>
      operator? (.mk l cs) = some "+" &&
        (partIsStringLike t .left cs || partIsStringLike t .right cs)
    | _ => false

def firstIsStringLike (t : Tree) : List Node → Bool
  | [] => false
  | n :: ns => if n.isNamed && !n.has .comment then isStringLike t n else firstIsStringLike t ns

def partIsStringLike (t : Tree) (r : Role) : List Node → Bool
  | [] => false
  | n :: ns => if n.role = some r then isStringLike t n else partIsStringLike t r ns

def calleeIsStringLike (t : Tree) : List Node → Bool
  | [] => false
  | .mk l cs :: ns =>
    if l.role = some .function then
      match l.kind with
      | .named .identifier => stringMakers.contains (t.text (.mk l cs))
      | .named .attributeAccess => partIsStringLike t .object cs
      | _ => false
    else calleeIsStringLike t ns

end

def functionName (t : Tree) (n : Node) : String := ((n.child? .name).map t.text).getD "<anonymous>"

def isMethod (c : Cursor) : Bool :=
  let outer := match c.parent? with
    | some p => if p.node.has .decoratedDefinition then p.parent? else some p
    | none => none
  match outer with
  | some block =>
    block.node.has .block &&
      match block.parent? with
      | some owner => owner.node.has .classDefinition
      | none => false
  | none => false

def headerEnd (n : Node) : Nat := ((headerColon? n).map Node.line).getD n.line

def hasDocstring (n : Node) : Bool :=
  match bodyStatements n with
  | s :: _ => isDocstring s
  | [] => false

/-- The first of `base_n`, `base_(n+1)`, … that is not taken. A name that is taken is struck out, so
the list of taken names grows shorter. -/
def numberedName (base : String) (taken : List String) (n : Nat) : String :=
  let candidate := base ++ "_" ++ toString n
  if _h : candidate ∈ taken then numberedName base (taken.erase candidate) (n + 1) else candidate
termination_by taken.length
decreasing_by
  rw [List.length_erase_of_mem _h]
  exact Nat.sub_lt (List.length_pos_of_mem _h) (by decide)

def unusedName (base : String) (taken : List String) : String :=
  if base ∈ taken then numberedName base taken 2 else base

def linePrefix? (line : String) (column : Nat) : Option String :=
  (Text.takeBytes line.toList column).map String.ofList

def lineSuffix? (line : String) (column : Nat) : Option String :=
  (Text.takeBytes line.toList column).map fun p => String.ofList (line.toList.drop p.length)

end SafeRefactor.Detect
