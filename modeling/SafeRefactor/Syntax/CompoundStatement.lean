import SafeRefactor.Syntax.Expression
import SafeRefactor.Syntax.SimpleStatement

/-!
# Compound statements

The statements with a header and a body: conditions, loops, handlers, contexts, definitions and
matches. Each reader is told what to expect after its statement, which depends on the block it
stands in.
-/

set_option autoImplicit false

namespace SafeRefactor.Syntax

def Expect.block : Expect := { dedent := true, string := true }

def blockStatements (self : Grammar) (after : Expect) : Nat → Forest → Reader
  | 0, _, _ => none
  | fuel + 1, f, l =>
    if l.token = .dedent then some ((l.shiftHidden after).after f)
    else do
      let s ← self (.statement .block) l
      blockStatements self after fuel (f ++ s.forest) s.next

def suite (self : Grammar) (after : Expect) : Reader := fun l =>
  match l.token with
  | .indent => do
    let i := l.shiftHidden .block
    let b ← blockStatements self after l.budget [] i.next
    some ((b.wrap .block).after i.forest)
  | .newline =>
    some ⟨l.extras ++ [.node (.leaf (.named .block) l.start l.start)], l.scan.look after⟩
  | _ => do
    let s ← simpleStatements self after l.budget [] l
    some (s.wrap .block)

def colonSuite (self : Grammar) (after : Expect) (role : Option Role) : Reader := fun l =>
  if l.has ":" then do
    let c := l.shiftSymbol ":" .suite
    let s ← suite self after c.next
    let s := match role with
      | some r => s.withRole r
      | none => s
    some (s.after c.forest)
  else none

def elseClause (self : Grammar) (after : Expect) : Reader := fun l => do
  let a := l.shiftKeyword .nothing
  let s ← colonSuite self after (some .body) a.next
  some ((s.after a.forest).wrap .elseClause)

def closeWithElse (self : Grammar) (after : Expect) (form : Form) (r : Parsed) : Option Parsed :=
  if r.next.isWord "else" then do
    let e ← elseClause self after r.next
    some ((e.withRole .alternative |>.after r.forest).wrap form)
  else some (r.wrap form)

def conditionSuite (self : Grammar) (after : Expect) (role : Option Role) : Reader := fun l => do
  let a := l.shiftKeyword .operand
  let c ← self (.expression .nothing .loosest) a.next
  let s ← colonSuite self after role c.next
  some (s.after (a.forest ++ c.forest))

def elifClauses (self : Grammar) (after : Expect) : Nat → Forest → Reader
  | 0, _, _ => none
  | fuel + 1, f, l =>
    if l.isWord "elif" then do
      let c ← conditionSuite self after none l
      elifClauses self after fuel (f ++ ((c.wrap .elifClause).withRole .alternative).forest) c.next
    else some ⟨f, l⟩

def ifStatement (self : Grammar) (after : Expect) : Reader := fun l => do
  let c ← conditionSuite self after none l
  let r ← elifClauses self after l.budget c.forest c.next
  closeWithElse self after .ifStatement r

def whileStatement (self : Grammar) (after : Expect) : Reader := fun l => do
  let c ← conditionSuite self after (some .body) l
  closeWithElse self after .whileStatement c

def forStatement (self : Grammar) (after : Expect) (lead : Forest) : Reader := fun l => do
  let a := l.shiftKeyword .operand
  let t ← targets self .nothing .nothing .nothing false a.next
  if t.next.isWord "in" then
    let i := t.next.shiftKeyword .operand
    let e ← expressionList self .nothing i.next
    let s ← colonSuite self after (some .body) e.next
    let f := lead ++ a.forest ++ t.forest.withRole .left ++ i.forest ++ e.forest.withRole .right
    closeWithElse self after .forStatement (s.after f)
  else none

def withItem (self : Grammar) (k : Follow) : Reader := fun l => do
  let e ← self (.expression k .loosest) l
  some (e.wrap .withItem)

def parenthesizedContexts (self : Grammar) : Reader := fun l => do
  let o := l.shiftSymbol "(" .operand
  let first ← withItem self .bracket o.next
  let r ← commaTail .element (·.has ")") (withItem self .bracket) l.budget
    (o.forest ++ first.forest) first.next
  let several := (r.forest.filter fun
    | .node n => n.has .withItem
    | _ => false).length > 1
  if several && r.next.has ")" then
    let c := r.next.shiftSymbol ")" .nothing
    if c.next.has ":" then some ((c.after r.forest).wrap .withClause) else none
  else none

def plainContexts (self : Grammar) : Reader := fun l => do
  let r ← commaList .operand (·.has ":") (withItem self .nothing) l
  some (r.wrap .withClause)

def withStatement (self : Grammar) (after : Expect) (lead : Forest) : Reader := fun l => do
  let a := l.shiftKeyword .operand
  let c ←
    match if a.next.has "(" then parenthesizedContexts self a.next else none with
    | some c => some c
    | none => plainContexts self a.next
  let s ← colonSuite self after (some .body) c.next
  some ((s.after (lead ++ a.forest ++ c.forest)).wrap .withStatement)

def optionalTypeParameters (self : Grammar) (r : Parsed) : Option Parsed :=
  if r.next.has "[" then do
    let t ← typeParameters self .nothing r.next
    some (t.after r.forest)
  else some r

def definedName (self : Grammar) : Reader := fun l => do
  let a := l.shiftKeyword .nothing
  match a.next.token with
  | .word _ =>
    let i := a.next.shiftName .nothing
    optionalTypeParameters self (i.withRole .name |>.after a.forest)
  | _ => none

def parameterList (self : Grammar) : Reader := fun l =>
  if l.has "(" then do
    let o := l.shiftSymbol "(" .close
    let p ← if o.next.has ")" then some o
      else do
        let p ← functionParameters self o.next
        some (p.after o.forest)
    closeWith .parameters ")" .nothing p.forest p.next
  else none

def returnedType (self : Grammar) (r : Parsed) : Option Parsed :=
  if r.next.has "->" then do
    let a := r.next.shiftSymbol "->" .operand
    let t ← typeHint self .nothing false a.next
    some (t.withRole .returnType |>.after (r.forest ++ a.forest))
  else some r

def functionDefinition (self : Grammar) (after : Expect) (lead : Forest) : Reader := fun l => do
  let n ← definedName self l
  let p ← parameterList self n.next
  let h ← returnedType self (p.withRole .parameters |>.after n.forest)
  let s ← colonSuite self after (some .body) h.next
  some ((s.after (lead ++ h.forest)).wrap .functionDefinition)

def classDefinition (self : Grammar) (after : Expect) : Reader := fun l => do
  let n ← definedName self l
  let h ←
    if n.next.has "(" then do
      let o := n.next.shiftSymbol "(" .element
      let b ← arguments self false .nothing o.forest o.next
      some (b.after n.forest)
    else some n
  let s ← colonSuite self after (some .body) h.next
  some ((s.after h.forest).wrap .classDefinition)

def decorators (self : Grammar) : Nat → Forest → Reader
  | 0, _, _ => none
  | fuel + 1, f, l =>
    if l.has "@" then do
      let a := l.shiftSymbol "@" .operand
      let e ← self (.expression .line .loosest) a.next
      if e.next.token = .newline then
        let h := e.next.shiftHidden .nothing
        decorators self fuel (f ++ Forest.wrap .decorator (a.forest ++ e.forest ++ h.forest)) h.next
      else none
    else some ⟨f, l⟩

def decoratedDefinition (self : Grammar) (after : Expect) : Reader := fun l => do
  let r ← decorators self l.budget [] l
  let d ←
    if r.next.isWord "class" then classDefinition self after r.next
    else if r.next.isWord "def" then functionDefinition self after [] r.next
    else if r.next.isWord "async" then
      let a := r.next.shiftKeyword .nothing
      if a.next.isWord "def" then functionDefinition self after a.forest a.next else none
    else none
  some ((d.after r.forest).wrap .decoratedDefinition)

inductive HandlerKind where
  | single
  | group
  deriving DecidableEq

def groupHandler (self : Grammar) (after : Expect) : Reader := fun l => do
  let x := l.shift (.token "except*") (l.wordLength + 1) .operand
  let e ← self (.expression .nothing .loosest) x.next
  let s ← colonSuite self after none e.next
  some ((s.after (x.forest ++ e.forest)).wrap .exceptGroupClause)

def caught (self : Grammar) : Reader := fun l => do
  let e ← self (.expression .nothing .loosest) l
  if e.next.has "," then
    let c := e.next.shiftSymbol "," .operand
    let y ← self (.expression .nothing .loosest) c.next
    some (y.after (e.forest ++ c.forest))
  else some e

def singleHandler (self : Grammar) (after : Expect) : Reader := fun l => do
  let x := l.shiftKeyword .operand
  let h ←
    if x.next.has ":" then some x
    else do
      let e ← caught self x.next
      some (e.after x.forest)
  let s ← colonSuite self after none h.next
  some ((s.after h.forest).wrap .exceptClause)

def handlers (self : Grammar) (after : Expect) :
    Nat → Option HandlerKind → Forest → Look → Option (Option HandlerKind × Parsed)
  | 0, _, _, _ => none
  | fuel + 1, kind, f, l =>
    if l.isWord "except" then
      let starred := (l.scan.advance l.wordLength).peek? = some '*'
      match kind.getD (if starred then .group else .single) with
      | .group =>
        if starred then do
          let c ← groupHandler self after l
          handlers self after fuel (some .group) (f ++ c.forest) c.next
        else none
      | .single => do
        let c ← singleHandler self after l
        handlers self after fuel (some .single) (f ++ c.forest) c.next
    else some (kind, ⟨f, l⟩)

def finallyClause (self : Grammar) (after : Expect) : Reader := fun l => do
  let x := l.shiftKeyword .nothing
  let s ← colonSuite self after none x.next
  some ((s.after x.forest).wrap .finallyClause)

/-- A `try` statement. It has a handler or a `finally` clause. -/
def tryStatement (self : Grammar) (after : Expect) : Reader := fun l => do
  let a := l.shiftKeyword .nothing
  let b ← colonSuite self { handler := true } (some .body) a.next
  let (kind, r) ←
    handlers self { after with handler := true } l.budget none (a.forest ++ b.forest) b.next
  let r ←
    if kind.isSome && r.next.isWord "else" then do
      let e ← elseClause self after r.next
      some (e.after r.forest)
    else some r
  if r.next.isWord "finally" then do
    let e ← finallyClause self after r.next
    some ((e.after r.forest).wrap .tryStatement)
  else if kind.isSome then some (r.wrap .tryStatement)
  else none

def caseGuard (self : Grammar) (r : Parsed) : Option Parsed :=
  if r.next.isWord "if" then do
    let b := r.next.shiftKeyword .operand
    let e ← self (.expression .nothing .loosest) b.next
    some ⟨r.forest ++ Forest.wrap .ifClause (b.forest ++ e.forest), e.next⟩
  else some r

def caseClause (self : Grammar) : Reader := fun l => do
  let a := l.shiftKeyword .operand
  let p ← commaList .operand (fun l => l.has ":" || l.isWord "if")
      (self (.casePattern .nothing)) a.next
  let g ← caseGuard self (p.after a.forest)
  let s ← colonSuite self { dedent := true } none g.next
  some ((s.after g.forest).wrap .caseClause)

def caseClauses (self : Grammar) (after : Expect) : Nat → Forest → Reader
  | 0, _, _ => none
  | fuel + 1, f, l =>
    if l.isWord "case" then do
      let k ← caseClause self l
      caseClauses self after fuel (f ++ k.forest.withRole .alternative) k.next
    else if l.token = .dedent then some ((l.shiftHidden after).after f)
    else none

def matchStatement (self : Grammar) (after : Expect) : Reader := fun l => do
  let a := l.shiftKeyword .lineOrOperand
  let begins := a.next.beginsOperand operatorWords || a.next.isWord "not" || a.next.isWord "lambda"
  if begins then
    let e ← commaList .operand (·.has ":") (self (.expression .nothing .loosest)) a.next
    if e.next.has ":" && !e.next.has ":=" then
      let c := e.next.shiftSymbol ":" { newline := true, indent := true }
      let header := a.forest ++ e.forest ++ c.forest
      match c.next.token with
      | .newline =>
        let here := c.next.start
        let empty :=
          Node.mk { kind := .named .block, role := some .body, start := here, stop := here } []
        some ⟨Forest.wrap .matchStatement (header ++ c.next.extras ++ [.node empty]),
          c.next.scan.look after⟩
      | .indent =>
        let h := c.next.shiftHidden { dedent := true }
        let b ← caseClauses self after l.budget h.forest h.next
        some ((((b.wrap .block).withRole .body).after header).wrap .matchStatement)
      | _ => none
    else none
  else none

def statementLine (self : Grammar) (after : Expect) : Reader := fun l =>
  simpleStatements self after l.budget [] l

def wordStatement (self : Grammar) (after : Expect) (w : String) : Reader := fun l =>
  if w = "if" then ifStatement self after l
  else if w = "while" then whileStatement self after l
  else if w = "for" then forStatement self after [] l
  else if w = "with" then withStatement self after [] l
  else if w = "def" then functionDefinition self after [] l
  else if w = "class" then classDefinition self after l
  else if w = "try" then tryStatement self after l
  else if w = "async" then
    let a := l.shiftKeyword .line
    if a.next.isWord "def" then functionDefinition self after a.forest a.next
    else if a.next.isWord "for" then forStatement self after a.forest a.next
    else if a.next.isWord "with" then withStatement self after a.forest a.next
    else statementLine self after l
  else if w = "match" then
    match matchStatement self after l with
    | some r => some r
    | none => statementLine self after l
  else statementLine self after l

def statement (self : Grammar) (after : Expect) : Reader := fun l =>
  if l.has "@" then decoratedDefinition self after l
  else
    match l.token with
    | .word w => wordStatement self after w l
    | _ => statementLine self after l

end SafeRefactor.Syntax
