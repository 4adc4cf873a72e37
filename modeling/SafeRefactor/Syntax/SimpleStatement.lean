import SafeRefactor.Syntax.CasePattern
import SafeRefactor.Syntax.Target
import SafeRefactor.Syntax.TypeHint

/-!
# Simple statements

The statements that stand on one line: assignments, expressions, imports, and those that a keyword
begins. Where a word can also be a name, the statement it begins is tried and kept if the line ends
there.
-/

set_option autoImplicit false

namespace SafeRefactor.Syntax

def expressionRow (self : Grammar) : Reader :=
  commaList .operand (fun _ => false) (self (.expression .line .loosest))

def assignmentTail (self : Grammar) (t : Parsed) : Option Parsed :=
  let l := t.next
  let left := t.forest.withRole .left
  match l.augmented? with
  | some op => do
    let a := l.shiftSymbol op .operand
    let r ← self .value a.next
    some ((r.withRole .right |>.after
      (left ++ a.forest.withRole .operator)).wrap .augmentedAssignment)
  | none =>
    if l.isAssign then do
      let a := l.shiftSymbol "=" .operand
      let r ← self .value a.next
      some ((r.withRole .right |>.after (left ++ a.forest)).wrap .assignment)
    else if l.has ":" && !l.has ":=" then do
      let a := l.shiftSymbol ":" .operand
      let h ← self (.typeHint .line) a.next
      let f := left ++ a.forest ++ h.forest.withRole .typeHint
      if h.next.isAssign then
        let b := h.next.shiftSymbol "=" .operand
        let r ← self .value b.next
        some ((r.withRole .right |>.after (f ++ b.forest)).wrap .assignment)
      else some ⟨Forest.wrap .assignment f, h.next⟩
    else none

def assignment (self : Grammar) (k : Follow) : Reader := fun l => do
  let t ← targets self .line .nothing k true l
  let r ← assignmentTail self t
  if r.isEnded then some r else none

def assignedValue (self : Grammar) : Reader := fun l =>
  if l.isWord "yield" then yieldExpression self .line l
  else
    match assignment self .line l with
    | some r => some r
    | none => expressionList self .line l

def expressionsOnly (self : Grammar) : Reader := fun l => do
  let r ← commaList .lineOrOperand Look.endsExpression (self (.expression .line .loosest)) l
  some (r.wrap .expressionStatement)

def expressionStatement (self : Grammar) : Reader := fun l =>
  if l.isWord "yield" then do
    let y ← yieldExpression self .line l
    some (y.wrap .expressionStatement)
  else
    match assignment self .nothing l with
    | some r => some (r.wrap .expressionStatement)
    | none => expressionsOnly self l

def nameStatement (form : Form) : Reader := fun l => do
  let a := l.shiftKeyword .nothing
  let name (l : Look) : Option Parsed := l.word?.map fun _ => l.shiftName .line
  let r ← commaList .nothing (fun _ => false) name a.next
  some ((r.after a.forest).wrap form)

def importedName (e : Expect) : Reader := fun l => do
  let d ← dottedName e l
  if d.next.isWord "as" then
    let a := d.next.shiftKeyword .nothing
    match a.next.token with
    | .word _ =>
      let i := a.next.shiftName e
      some ((i.after (d.forest.withRole .name ++ a.forest)).wrap .aliasedImport |>.withRole .name)
    | _ => none
  else some (d.withRole .name)

def importedNames (e : Expect) : Reader := commaList e (fun l => l.word?.isNone) (importedName e)

def leadingPoints : Nat → Forest → Look → Parsed
  | 0, f, l => ⟨f, l⟩
  | fuel + 1, f, l =>
    if l.has "." then
      let d := l.shiftSymbol "." .nothing
      leadingPoints fuel (f ++ d.forest) d.next
    else ⟨f, l⟩

def importedModule : Reader := fun l =>
  if l.has "." then
    let p := (leadingPoints l.budget [] l).wrap .importPrefix
    match p.next.token with
    | .word w =>
      if w = "import" then some (p.wrap .relativeImport)
      else do
        let d ← dottedName .nothing p.next
        some ((d.after p.forest).wrap .relativeImport)
    | _ => some (p.wrap .relativeImport)
  else dottedName .nothing l

def fromImport : Reader := fun l => do
  let a := l.shiftKeyword .nothing
  let future := a.next.isWord "__future__"
  let form : Form := if future then .futureImportStatement else .importFromStatement
  let m ← if future then some (a.next.shiftKeyword .nothing) else importedModule a.next
  let f := a.forest ++ m.forest
  if m.next.isWord "import" then
    let i := m.next.shiftKeyword .nothing
    let f := f ++ i.forest
    if i.next.has "(" then
      let p := i.next.shiftSymbol "(" .nothing
      let n ← importedNames .close p.next
      if n.next.has ")" then
        let c := n.next.shiftSymbol ")" .line
        some ((c.after (f ++ p.forest ++ n.forest)).wrap form)
      else none
    else if i.next.has "*" && !future then
      let w := (i.next.shiftSymbol "*" .line).wrap .wildcardImport
      some ((w.after f).wrap form)
    else do
      let n ← importedNames .line i.next
      some ((n.after f).wrap form)
  else none

def bareStatement (form : Form) : Reader := fun l => some ((l.shiftKeyword .line).wrap form)

def assertStatement (self : Grammar) : Reader := fun l => do
  let a := l.shiftKeyword .operand
  let e ← expressionRow self a.next
  some ((e.after a.forest).wrap .assertStatement)

def returnStatement (self : Grammar) : Reader := fun l =>
  let a := l.shiftKeyword .lineOrOperand
  if a.next.endsExpression then some (a.wrap .returnStatement)
  else do
    let e ← expressionList self .line a.next
    some ((e.after a.forest).wrap .returnStatement)

def deleteStatement (self : Grammar) : Reader := fun l => do
  let a := l.shiftKeyword .operand
  let e ← expressionList self .line a.next
  some ((e.after a.forest).wrap .deleteStatement)

def raiseStatement (self : Grammar) : Reader := fun l => do
  let a := l.shiftKeyword .lineOrOperand
  let r ←
    if a.next.endsExpression || a.next.isWord "from" then some a
    else do
      let e ← expressionList self { newline := true, source := true } a.next
      some (e.after a.forest)
  if r.next.isWord "from" then do
    let b := r.next.shiftKeyword .operand
    let e ← self (.expression .line .loosest) b.next
    some ((e.after (r.forest ++ b.forest)).wrap .raiseStatement)
  else some (r.wrap .raiseStatement)

def redirectedPrint (self : Grammar) (a : Parsed) : Option Parsed := do
  let c := a.next.shiftSymbol ">>" .operand
  let e ← self (.expression .line .loosest) c.next
  let f := a.forest ++ Forest.wrap .chevron (c.forest ++ e.forest)
  let r ← commaTail .lineOrOperand Look.endsExpression (self (.expression .line .loosest))
    e.next.budget f e.next
  some (r.wrap .printStatement)

def printStatement (self : Grammar) : Reader := fun l =>
  let a := l.shiftKeyword .lineOrOperand
  if a.next.has ">>" && !a.next.has ">>=" then redirectedPrint self a
  else
    match (expressionStatement self l).filter Parsed.isEnded with
    | some r => some r
    | none =>
      let barred := match a.next.token with
        | .word w => operatorWords.contains w && w != "not"
        | _ => false
      if a.next.endsExpression || barred then none
      else do
        let r ← commaList .lineOrOperand Look.endsExpression
          (self (.expression .line .loosest)) a.next
        some ((r.after a.forest).wrap .printStatement)

def executedCode (self : Grammar) : Reader := fun l =>
  match l.token with
  | .quote => stringLiteral self .line l
  | .word _ => some (l.shiftName .line)
  | _ => none

def execStatement (self : Grammar) : Reader := fun l =>
  let a := l.shiftKeyword .lineOrOperand
  let codeAhead := match a.next.token with
    | .quote => true
    | .word w => !operatorWords.contains w
    | _ => false
  if codeAhead then do
    let c ← executedCode self a.next
    let f := a.forest ++ c.forest
    if c.next.isWord "in" then do
      let b := c.next.shiftKeyword .operand
      let e ← expressionRow self b.next
      some ((e.after (f ++ b.forest)).wrap .execStatement)
    else some ⟨Forest.wrap .execStatement f, c.next⟩
  else expressionStatement self l

def typeAlias (self : Grammar) : Reader := fun l => do
  let a := l.shiftKeyword .lineOrOperand
  let begins := a.next.beginsOperand operatorWords || a.next.isWord "not" ||
    a.next.isWord "lambda" ||
    a.next.has "**"
  if begins then
    let t ← self (.typeHint .nothing) a.next
    if t.next.isAssign then
      let b := t.next.shiftSymbol "=" .operand
      let u ← self (.typeHint .line) b.next
      let r := (u.after (a.forest ++ t.forest ++ b.forest)).wrap .typeAliasStatement
      if r.isEnded then some r else none
    else none
  else none

def keywordStatement (self : Grammar) (w : String) : Reader := fun l =>
  if w = "import" then do
    let a := l.shiftKeyword .nothing
    let m ← importedNames .line a.next
    some ((m.after a.forest).wrap .importStatement)
  else if w = "from" then fromImport l
  else if w = "assert" then assertStatement self l
  else if w = "return" then returnStatement self l
  else if w = "del" then deleteStatement self l
  else if w = "raise" then raiseStatement self l
  else if w = "pass" then bareStatement .passStatement l
  else if w = "break" then bareStatement .breakStatement l
  else if w = "continue" then bareStatement .continueStatement l
  else if w = "global" then nameStatement .globalStatement l
  else if w = "nonlocal" then nameStatement .nonlocalStatement l
  else if w = "print" then printStatement self l
  else if w = "exec" then execStatement self l
  else if w = "type" then
    match typeAlias self l with
    | some r => some r
    | none => expressionStatement self l
  else expressionStatement self l

def simpleStatement (self : Grammar) : Reader := fun l =>
  match l.token with
  | .word w => keywordStatement self w l
  | _ => expressionStatement self l

def simpleStatements (self : Grammar) (after : Expect) : Nat → Forest → Reader
  | 0, _, _ => none
  | fuel + 1, f, l => do
    let s ← simpleStatement self l
    let t := optional (·.has ";") (·.shiftSymbol ";" .lineOrOperand) s
    if t.next.token = .newline then
      let h := t.next.shiftHidden after
      some (h.after (f ++ t.forest))
    else if s.next.has ";" then simpleStatements self after fuel (f ++ t.forest) t.next
    else none

end SafeRefactor.Syntax
