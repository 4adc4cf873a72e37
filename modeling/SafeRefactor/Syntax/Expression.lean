import SafeRefactor.Syntax.Quoted
import SafeRefactor.Syntax.Collection
import SafeRefactor.Syntax.Parameter

/-!
# Expressions

Atoms, chains of attributes, subscripts and calls, the operators in the order of how tightly they
bind, and the lambda and conditional expressions around them.
-/

set_option autoImplicit false

namespace SafeRefactor.Syntax

def suffix (self : Grammar) (k : Follow) (r : Parsed) : Option (Option Parsed) :=
  let l := r.next
  if l.has "." then
    let a := l.shiftSymbol "." .nothing
    match a.next.token with
    | .word _ =>
      let b := a.next.shiftName k.afterOperand
      some (some ((b.after (r.forest.withRole .object ++ a.forest)).wrap .attributeAccess))
    | _ => some none
  else if l.has "[" then
    some ((subscripts self k l).map fun b => (b.after r.forest).wrap .subscript)
  else if l.has "(" then
    let a := l.shiftSymbol "(" .element
    some ((arguments self true k a.forest a.next).map fun b =>
      (b.after (r.forest.withRole .function)).wrap .call)
  else none

def chainTail (self : Grammar) (k : Follow) : Nat → Parsed → Option Parsed
  | 0, _ => none
  | fuel + 1, r =>
    match suffix self k r with
    | none => some r
    | some none => none
    | some (some q) => chainTail self k fuel q

def shortestPlace (self : Grammar) (k : Follow) : Nat → Parsed → Option Parsed
  | 0, _ => none
  | fuel + 1, r =>
    if r.forest.isPlace then some r
    else
      match suffix self k r with
      | some (some q) => shortestPlace self k fuel q
      | _ => none

def starredAtom (self : Grammar) (k : Follow) : Reader := fun l => do
  let a := l.shiftSymbol "*" .operand
  let r ← self (.chain k) a.next
  if r.forest.isPlace then some ((r.after a.forest).wrap .listSplat)
  else do
    let b ← self (.atom k) a.next
    let p ← shortestPlace self k l.budget b
    some ((p.after a.forest).wrap .listSplat)

def wordAtom (self : Grammar) (k : Follow) (w : String) : Reader := fun l =>
  match literalOf? w with
  | some form => some (l.shift (.named form) l.wordLength k.afterOperand)
  | none =>
    if w = "await" then
      let a := l.shiftKeyword k.beforeOperand
      if a.next.beginsOperand boundaryWords then do
        let r ← self (.arithmetic k .sign) a.next
        some ((r.after a.forest).wrap .awaitExpr)
      else some (l.shiftName k.beforeOperand)
    else some (l.shiftName k.afterOperand)

def signedAtom (self : Grammar) (k : Follow) (sign : String) : Reader := fun l => do
  let a := l.shiftSymbol sign .operand
  let r ← self (.arithmetic k .sign) a.next
  some ((r.after (a.forest.withRole .operator)).wrap .unaryOperator)

def atom (self : Grammar) (k : Follow) : Reader := fun l =>
  match l.token with
  | .quote => stringAtom self k l
  | .word w => wordAtom self k w l
  | .symbol =>
    if l.isNumber then
      match numberLength? l.scan.rest with
      | some (form, n) => some (l.shift (.named form) n k.afterOperand)
      | none => none
    else if l.has "..." then some (l.shift (.named .ellipsis) 3 k.afterOperand)
    else
      match l.scan.peek? with
      | some '(' => parentheses self k l
      | some '[' => listDisplay self k l
      | some '\x7b' => braces self k l
      | some '-' => signedAtom self k "-" l
      | some '+' => signedAtom self k "+" l
      | some '~' => signedAtom self k "~" l
      | some '*' => starredAtom self k l
      | _ => none
  | _ => none

def chain (self : Grammar) (k : Follow) : Reader := fun l => do
  let r ← self (.atom k) l
  chainTail self k l.budget r

def arithmeticTail (self : Grammar) (k : Follow) (min : Binding) : Nat → Parsed → Option Parsed
  | 0, _ => none
  | fuel + 1, r =>
    match r.next.arithmetic? with
    | none => some r
    | some (op, strength) =>
      if strength ≤ min then some r
      else do
        let a := r.next.shiftSymbol op .operand
        let q ← self (.arithmetic k (if op = "**" then .sign else strength)) a.next
        let f := r.forest.withRole .left ++ a.forest.withRole .operator ++ q.forest.withRole .right
        arithmeticTail self k min fuel ⟨Forest.wrap .binaryOperator f, q.next⟩

def arithmetic (self : Grammar) (k : Follow) (min : Binding) : Reader := fun l => do
  let r ← self (.chain k) l
  arithmeticTail self k min l.budget r

def comparisonOperator (op : String) : Reader := fun l =>
  if op = "not" then
    let x := l.shiftKeyword .nothing
    if x.next.isWord "in" then
      let y := x.next.shiftKeyword .operand
      some ⟨Forest.wrapKind (.token "not in") (x.forest ++ y.forest), y.next⟩
    else none
  else if op = "is" then
    let x := l.shiftKeyword .operand
    if x.next.isWord "not" then
      let y := x.next.shiftKeyword .operand
      some ⟨Forest.wrapKind (.token "is not") (x.forest ++ y.forest), y.next⟩
    else some x
  else if op = "in" then some (l.shiftKeyword .operand)
  else some (l.shiftSymbol op .operand)

def comparisonTail (self : Grammar) (k : Follow) : Nat → Forest → Reader
  | 0, _, _ => none
  | fuel + 1, f, l =>
    match l.comparison? with
    | none => some ⟨f, l⟩
    | some op => do
      let a ← comparisonOperator op l
      let q ← self (.arithmetic k .loosest) a.next
      comparisonTail self k fuel (f ++ a.forest ++ q.forest) q.next

def comparison (self : Grammar) (k : Follow) : Reader := fun l => do
  let r ← self (.arithmetic k .loosest) l
  if r.next.comparison?.isSome then
    let t ← comparisonTail self k l.budget r.forest r.next
    some (t.wrap .comparisonOperator)
  else some r

def joinBinding? (w : String) : Option Binding :=
  if w = "and" then some .conjunction
  else if w = "or" then some .disjunction
  else if w = "if" then some .conditional
  else if w = "as" then some .asName
  else none

def conditionalRest (self : Grammar) (k : Follow) (r : Parsed) : Option Parsed := do
  let a := r.next.shiftKeyword .operand
  let c ← self (.expression .nothing .loosest) a.next
  if c.next.isWord "else" then
    let e := c.next.shiftKeyword .operand
    let q ← self (.expression k .otherwise) e.next
    some ((q.after (r.forest ++ a.forest ++ c.forest ++ e.forest)).wrap .conditionalExpression)
  else none

def joinTail (self : Grammar) (k : Follow) (min : Binding) : Nat → Parsed → Option Parsed
  | 0, _ => none
  | fuel + 1, r =>
    match r.next.token with
    | .word w =>
      match joinBinding? w with
      | none => some r
      | some strength =>
        if strength ≤ min then some r
        else if w = "if" then do
          let q ← conditionalRest self k r
          joinTail self k min fuel q
        else do
          let a := r.next.shiftKeyword .operand
          let q ← self (.expression k strength) a.next
          if w = "as" then
            let f := r.forest ++ a.forest ++ q.forest.wrap .asPatternTarget
            joinTail self k min fuel ⟨Forest.wrap .asPattern f, q.next⟩
          else
            let f := r.forest.withRole .left ++ a.forest.withRole .operator ++
              q.forest.withRole .right
            joinTail self k min fuel ⟨Forest.wrap .booleanOperator f, q.next⟩
    | _ => some r

def lambdaExpression (self : Grammar) (body : Goal) : Reader := fun l => do
  let a := l.shiftKeyword .nothing
  let p ←
    if a.next.has ":" then some a
    else do
      let p ← lambdaParameters self a.next
      some ((p.wrap .lambdaParameters).withRole .parameters |>.after a.forest)
  if p.next.has ":" then
    let c := p.next.shiftSymbol ":" .operand
    let b ← self body c.next
    some (((b.withRole .body).after (p.forest ++ c.forest)).wrap .lambdaExpr)
  else none

def namedExpression (self : Grammar) (k : Follow) (name : Parsed) : Option Parsed := do
  let b := name.next.shiftSymbol ":=" .operand
  let q ← self (.expression k .asName) b.next
  some ((q.after (name.forest.withRole .name ++ b.forest)).wrap .namedExpression)

def leading (self : Grammar) (k : Follow) : Reader := fun l =>
  match l.token with
  | .word w =>
    if w = "not" then do
      let a := l.shiftKeyword .operand
      let q ← self (.expression k .negation) a.next
      some ((q.after a.forest).wrap .notOperator)
    else if w = "lambda" then lambdaExpression self (.expression k .lambdaBody) l
    else if (literalOf? w).isSome then comparison self k l
    else
      let name := l.shiftName (if w = "await" then k.beforeOperand else k.afterOperand)
      if name.next.has ":=" then namedExpression self k name else comparison self k l
  | _ => comparison self k l

def expression (self : Grammar) (k : Follow) (min : Binding) : Reader := fun l => do
  let r ← leading self k l
  joinTail self k min l.budget r

def iterable (self : Grammar) (k : Follow) : Reader := fun l =>
  if l.isWord "lambda" then do
    let r ← lambdaExpression self (.iterable k) l
    joinTail self k .clause l.budget r
  else self (.expression k .clause) l

end SafeRefactor.Syntax
