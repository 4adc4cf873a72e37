import SafeRefactor.Syntax.Goal

/-!
# Targets

What a `for` loop, a comprehension or an assignment binds: a name, an attribute, a subscript, a
starred one of these, or brackets around targets. A bracketed target is read as an expression and
then reinterpreted, since the two look alike until the sign after them.
-/

set_option autoImplicit false

namespace SafeRefactor.Syntax

def Form.isPlace : Form → Bool
  | .identifier | .subscript | .attributeAccess => true
  | _ => false

def Node.isPlace (n : Node) : Bool :=
  match n.kind with
  | .named f => f.isPlace
  | _ => false

def Forest.isPlace (f : Forest) : Bool :=
  match f.filterMap fun
    | .node n => some n
    | _ => none with
  | [n] => n.isPlace
  | _ => false

def Node.isFiller (n : Node) : Bool :=
  match n.kind with
  | .token _ => true
  | .named f => f = .comment || f = .lineContinuation
  | .error => false

def Form.asTarget? : Form → Option Form
  | .tupleDisplay | .parenthesizedExpression | .parenthesizedListSplat => some .tuplePattern
  | .listDisplay => some .listPattern
  | _ => none

mutual

def Node.asTarget? : Node → Option Node
  | .mk l cs =>
    match l.kind with
    | .named .listSplat =>
      if cs.all fun c => c.isFiller || c.isPlace then
        some (.mk { l with kind := .named .listSplatPattern } cs)
      else none
    | .named f =>
      if f.isPlace then some (.mk l cs)
      else
        match f.asTarget? with
        | some g => (Node.asTargets? cs).map fun ds => .mk { l with kind := .named g } ds
        | none => none
    | _ => none

def Node.asTargets? : List Node → Option (List Node)
  | [] => some []
  | c :: cs =>
    match if c.isFiller then some c else Node.asTarget? c with
    | none => none
    | some d => (Node.asTargets? cs).map (d :: ·)

end

def Forest.mapNode? (g : Node → Option Node) : Forest → Option Forest
  | [] => some []
  | .node n :: f =>
    match g n with
    | none => none
    | some m => (Forest.mapNode? g f).map (.node m :: ·)
  | p :: f => (Forest.mapNode? g f).map (p :: ·)

/-- One target. After brackets that hold something the token ahead is read again with `kb`. The
first target of a statement does not begin with a word that begins another expression. -/
def target (self : Grammar) (k kb : Follow) (first : Bool) : Reader := fun l =>
  if first && (l.isWord "lambda" || l.isWord "not" || l.isWord "yield") then none
  else if l.has "*" then do
    let a := l.shiftSymbol "*" .operand
    let r ← self (.chain k) a.next
    if r.forest.isPlace then some ((r.after a.forest).wrap .listSplatPattern) else none
  else do
    let r ← self (.chain k) l
    if r.forest.isPlace then some r
    else if l.has "(" || l.has "[" then do
      let f ← Forest.mapNode? Node.asTarget? r.forest
      let filled := (Forest.head? f).elim false fun n => !n.children.all Node.isFiller
      let next := if filled then r.next.again kb.afterOperand else r.next
      if next.has "." || next.has "[" || next.has "(" then none else some ⟨f, next⟩
    else none

/-- Targets between commas. `k1` follows the first one and `k` the others. -/
def targets (self : Grammar) (k1 kb k : Follow) (first : Bool) : Reader := fun l => do
  let r ← target self k1 kb first l
  if r.next.has "," then
    let stop (l : Look) := l.endsExpression || (!first && l.isWord "in") || l.isAugmented
    let t ← commaTail k.beforeOperand stop (target self k k false) l.budget r.forest r.next
    some (t.wrap .patternList)
  else some r

end SafeRefactor.Syntax
