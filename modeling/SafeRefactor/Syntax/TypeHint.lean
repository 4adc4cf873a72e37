import SafeRefactor.Syntax.Goal

/-!
# Type hints

The types in annotations: expressions, generic types, unions, members, starred types and constrained
type parameters. Each is wrapped in a node of its own.
-/

set_option autoImplicit false

namespace SafeRefactor.Syntax

def typeParameters (self : Grammar) (k : Follow) : Reader := fun l => do
  let a := l.shiftSymbol "[" .operand
  let t ← self (.typeHint .bracket) a.next
  let r ← commaTail .element (·.has "]") (self (.typeHint .bracket)) l.budget
    (a.forest ++ t.forest) t.next
  closeWith .typeParameter "]" k r.forest r.next

def splatType (star name : Parsed) : Parsed :=
  ((name.after star.forest).wrap .splatType).wrap .typeExpr

def isTypeName (w : String) : Bool :=
  (literalOf? w).isNone && (!softWords.contains w || w == "type") && w != "not" && w != "lambda"

def starredName? (l : Look) (k : Follow) : Option Parsed :=
  match l.token with
  | .word w =>
    if softWords.contains w || (literalOf? w).isSome then none
    else
      let b := l.shiftName k.afterOperand
      let continues := b.next.has "[" || b.next.has "(" || b.next.comparison?.isSome ||
        (b.next.arithmetic?.isSome && !b.next.has "|")
      if continues then none else some b
  | _ => none

def simpleType (self : Grammar) (k : Follow) : Reader := fun l =>
  let plain : Option Parsed := do
    let e ← self (.expression k .loosest) l
    some (e.wrap .typeExpr)
  if l.has "**" then
    let a := l.shiftSymbol "**" .nothing
    match a.next.token with
    | .word _ => some (splatType a (a.next.shiftName k.afterOperand))
    | _ => none
  else if l.has "*" then
    let a := l.shiftSymbol "*" .operand
    match starredName? a.next k with
    | some b => some (splatType a b)
    | none => plain
  else
    match l.token with
    | .word w =>
      let a := l.shiftName k.afterOperand
      if isTypeName w && a.next.has "[" then do
        let b ← typeParameters self k a.next
        some (((b.after a.forest).wrap .genericType).wrap .typeExpr)
      else plain
    | _ => plain

def typeTail (self : Grammar) (k : Follow) (constrained : Bool) : Nat → Parsed → Option Parsed
  | 0, _ => none
  | fuel + 1, r =>
    let l := r.next
    if l.has "|" && !l.has "|=" then do
      let a := l.shiftSymbol "|" .operand
      let q ← simpleType self k a.next
      typeTail self k constrained fuel
        (((q.after (r.forest ++ a.forest)).wrap .unionType).wrap .typeExpr)
    else if l.has "." then
      let a := l.shiftSymbol "." .nothing
      match a.next.token with
      | .word _ =>
        let b := a.next.shiftName k.afterOperand
        typeTail self k constrained fuel
          (((b.after (r.forest ++ a.forest)).wrap .memberType).wrap .typeExpr)
      | _ => none
    else if constrained && l.has ":" then do
      let a := l.shiftSymbol ":" .operand
      let q ← self (.typeHint k) a.next
      some (((q.after (r.forest ++ a.forest)).wrap .constrainedType).wrap .typeExpr)
    else some r

/-- A type hint. After `->` there is no constraint, since the colon there ends the header. -/
def typeHint (self : Grammar) (k : Follow) (constrained : Bool) : Reader := fun l => do
  let r ← simpleType self k l
  typeTail self k constrained l.budget r

end SafeRefactor.Syntax
