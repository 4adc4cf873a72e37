import SafeRefactor.Syntax.ExpressionList
import SafeRefactor.Syntax.Target

/-!
# Bracketed expressions

Parentheses, lists, sets, dictionaries and their comprehensions, call arguments and subscripts.
-/

set_option autoImplicit false

namespace SafeRefactor.Syntax

def Forest.headHas (f : Forest) (form : Form) : Bool := (Forest.head? f).elim false (·.has form)

def Node.asParenthesizedSplat? : Node → Option Node
  | .mk l cs =>
    if l.kind = .named .tupleDisplay then
      match cs.filter fun c => !(c.has .comment || c.has .lineContinuation) with
      | [_, inner, _] =>
        let relabelled :=
          Label.mk (.named .parenthesizedListSplat) l.role l.start l.stop l.missing l.flawed
        if inner.has .listSplat then some (.mk relabelled cs)
        else if inner.has .parenthesizedListSplat then
          some (.mk relabelled (cs.map fun
            | .mk m ds =>
              if m.kind = .named .parenthesizedListSplat then
                .mk { m with kind := .named .parenthesizedExpression } ds
              else .mk m ds))
        else none
      | _ => none
    else none

def reinterpretSplat (argument : Bool) (f : Forest) : Forest :=
  (Forest.mapNode? (fun n =>
    match n.asParenthesizedSplat? with
    | some (.mk l cs) =>
      some (if argument then .mk { l with kind := .named .parenthesizedExpression } cs
        else .mk l cs)
    | none => some n) f).getD f

def starred (self : Grammar) (star : String) (form : Form) : Reader := fun l => do
  let a := l.shiftSymbol star .operand
  let e ← self (.expression .bracket .loosest) a.next
  some ((e.after a.forest).wrap form)

def element (self : Grammar) : Reader := fun l =>
  if l.isWord "yield" then yieldExpression self .bracket l
  else if l.has "*" then starred self "*" .listSplat l
  else do
    let e ← self (.expression .bracket .loosest) l
    some { e with forest := reinterpretSplat false e.forest }

def iterableTail (self : Grammar) : Nat → Forest → Reader :=
  commaTail .element
    (fun l => l.endsExpression || l.isFor || l.isWord "if")
    (self (.iterable .bracket))

def forClause (self : Grammar) : Reader := fun l => do
  let lead ←
    if l.isWord "async" then
      let a := l.shiftKeyword .nothing
      if a.next.isWord "for" then some a else none
    else some ⟨[], l⟩
  let a := lead.next.shiftKeyword .operand
  let t ← targets self .nothing .nothing .nothing false a.next
  if t.next.isWord "in" then
    let i := t.next.shiftKeyword .operand
    let e ← self (.iterable .bracket) i.next
    let opened := lead.forest ++ a.forest ++ t.forest.withRole .left ++ i.forest ++
      e.forest.withRole .right
    let r ← iterableTail self l.budget opened e.next
    some (r.wrap .forInClause)
  else none

def clauses (self : Grammar) : Nat → (first : Bool) → Forest → Reader
  | 0, _, _, _ => none
  | fuel + 1, first, f, l =>
    if l.isFor then do
      let r ← forClause self l
      clauses self fuel false (f ++ r.forest) r.next
    else if l.isWord "if" && !first then do
      let a := l.shiftKeyword .operand
      let e ← self (.expression .bracket .clause) a.next
      clauses self fuel false (f ++ Forest.wrap .ifClause (a.forest ++ e.forest)) e.next
    else some ⟨f, l⟩

def comprehension (self : Grammar) (form : Form) (closer : String) (k : Follow) (opened : Forest)
    (body : Parsed) : Option Parsed := do
  let r ← clauses self body.next.budget true (opened ++ body.forest.withRole .body) body.next
  closeWith form closer k r.forest r.next

def elements (self : Grammar) (form : Form) (closer : String) (k : Follow) (f : Forest) : Reader :=
  fun l => do
    let r ← commaTail .element Look.endsExpression (element self) l.budget f l
    closeWith form closer k r.forest r.next

def parentheses (self : Grammar) (k : Follow) : Reader := fun l =>
  let a := l.shiftSymbol "(" .element
  if a.next.has ")" then closeWith .tupleDisplay ")" k a.forest a.next
  else do
    let e ← element self a.next
    let splat := Forest.headHas e.forest .listSplat ||
      Forest.headHas e.forest .parenthesizedListSplat
    if !splat && !Forest.headHas e.forest .yieldExpr && e.next.isFor then
      comprehension self .generatorExpression ")" k a.forest e
    else if e.next.has ")" then
      closeWith (if splat then .tupleDisplay else .parenthesizedExpression) ")" k
        (a.forest ++ e.forest) e.next
    else elements self .tupleDisplay ")" k (a.forest ++ e.forest) e.next

def listDisplay (self : Grammar) (k : Follow) : Reader := fun l =>
  let a := l.shiftSymbol "[" .element
  if a.next.has "]" then closeWith .listDisplay "]" k a.forest a.next
  else do
    let e ← element self a.next
    if e.next.isFor && !a.next.isWord "yield" then
      comprehension self .listComprehension "]" k a.forest e
    else elements self .listDisplay "]" k (a.forest ++ e.forest) e.next

def pairRest (self : Grammar) (key : Parsed) : Option Parsed := do
  let c := key.next.shiftSymbol ":" .operand
  let v ← self (.expression .bracket .loosest) c.next
  some ((v.after (key.forest ++ c.forest)).wrap .pair)

def entry (self : Grammar) : Reader := fun l =>
  if l.has "**" then starred self "**" .dictionarySplat l
  else do
    let key ← self (.expression .nothing .loosest) l
    if key.next.has ":" then pairRest self key else none

def entries (self : Grammar) (k : Follow) (f : Forest) : Reader := fun l => do
  let r ← commaTail .element (·.has "\x7d") (entry self) l.budget f l
  closeWith .dictDisplay "\x7d" k r.forest r.next

def braces (self : Grammar) (k : Follow) : Reader := fun l =>
  let a := l.shiftSymbol "\x7b" .element
  if a.next.has "\x7d" then closeWith .dictDisplay "\x7d" k a.forest a.next
  else if a.next.has "," then
    let c := a.next.shiftSymbol "," .close
    closeWith .dictDisplay "\x7d" k (a.forest ++ c.forest) c.next
  else if a.next.has "**" then do
    let d ← starred self "**" .dictionarySplat a.next
    entries self k (a.forest ++ d.forest) d.next
  else do
    let e ← element self a.next
    let yields := a.next.isWord "yield"
    if e.next.has ":" && !yields && !a.next.has "*" then do
      let p ← pairRest self e
      if p.next.isFor then comprehension self .dictionaryComprehension "\x7d" k a.forest p
      else entries self k (a.forest ++ p.forest) p.next
    else if e.next.isFor && !yields then comprehension self .setComprehension "\x7d" k a.forest e
    else elements self .setDisplay "\x7d" k (a.forest ++ e.forest) e.next

def Look.beginsNamedArgument (l : Look) : Bool :=
  match l.token with
  | .word w =>
    (literalOf? w).isNone && w != "not" && w != "lambda" && (l.shiftName .close).next.isAssign
  | _ => false

def argument (self : Grammar) : Reader := fun l =>
  if l.beginsNamedArgument then do
    let a := l.shiftName .close
    let c := a.next.shiftSymbol "=" .operand
    let e ← self (.expression .bracket .loosest) c.next
    some ((e.after (a.forest.withRole .name ++ c.forest)).wrap .keywordArgument)
  else if l.has "**" then starred self "**" .dictionarySplat l
  else if l.has "*" then starred self "*" .listSplat l
  else do
    let e ← self (.expression .bracket .loosest) l
    some { e with forest := reinterpretSplat true e.forest }

/-- The rest of an argument list after its opening parenthesis. The only argument may be a
generator, if `generator` holds. -/
def arguments (self : Grammar) (generator : Bool) (k : Follow) (opened : Forest) : Reader :=
  fun l =>
  if l.has ")" then closeWith .argumentList ")" k opened l
  else if l.has "," then
    let c := l.shiftSymbol "," .close
    closeWith .argumentList ")" k (opened ++ c.forest) c.next
  else do
    let e ← argument self l
    if generator && e.next.isFor && !Forest.headHas e.forest .keywordArgument then
      comprehension self .generatorExpression ")" k opened e
    else do
      let r ← commaTail .element (·.has ")") (argument self) l.budget (opened ++ e.forest) e.next
      closeWith .argumentList ")" k r.forest r.next

def sliceBound (self : Grammar) (f : Forest) : Reader := fun l =>
  let c := l.shiftSymbol ":" .element
  if c.next.endsExpression then some (c.after f)
  else do
    let e ← self (.expression .bracket .loosest) c.next
    some (e.after (f ++ c.forest))

def slice (self : Grammar) : Reader := fun l => do
  let lower ← if l.has ":" then some ⟨[], l⟩ else self (.expression .bracket .loosest) l
  if lower.next.has ":" then
    let upper ← sliceBound self lower.forest lower.next
    let r ← if upper.next.has ":" then sliceBound self upper.forest upper.next else some upper
    some (r.wrap .slice)
  else some lower

def subscripts (self : Grammar) (k : Follow) : Reader := fun l => do
  let a := l.shiftSymbol "[" .operand
  let s ← slice self a.next
  let r ← commaTail .element (·.has "]") (slice self) l.budget (a.forest ++ s.forest) s.next
  if r.next.has "]" then
    let c := r.next.shiftSymbol "]" k.afterOperand
    some (c.after r.forest)
  else none

end SafeRefactor.Syntax
