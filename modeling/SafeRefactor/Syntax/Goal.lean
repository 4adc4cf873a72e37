import SafeRefactor.Syntax.Look

/-!
# Goals of the parser

The grammar is written in open recursion. A `Goal` names a construct that other constructs contain;
each construct is a reader that takes the readers of all goals as a parameter. `Grammar` is such a
family of readers, and the parser ties the knot with a bound on the depth of nesting.
-/

set_option autoImplicit false

namespace SafeRefactor.Syntax

structure Follow where
  newline : Bool := false
  closer : Bool := false
  source : Bool := false
  deriving DecidableEq, Repr

namespace Follow

def nothing : Follow := {}

def line : Follow := { newline := true }

def bracket : Follow := { closer := true }

def afterOperand (k : Follow) : Expect := { newline := k.newline, closer := k.closer }

def beforeOperand (k : Follow) : Expect :=
  { newline := k.newline, closer := k.closer, string := true }

end Follow

namespace Expect

def nothing : Expect := {}

def operand : Expect := { string := true }

def element : Expect := { string := true, closer := true }

def close : Expect := { closer := true }

def line : Expect := { newline := true }

def lineOrOperand : Expect := { newline := true, string := true }

def suite : Expect := { newline := true, indent := true, string := true }

end Expect

abbrev Binding := Nat

namespace Binding

def loosest : Binding := 0
def lambdaBody : Binding := 1
def otherwise : Binding := 2
def conditional : Binding := 3
def clause : Binding := 4
def asName : Binding := 5
def disjunction : Binding := 6
def conjunction : Binding := 7
def negation : Binding := 8
def sign : Binding := 20

end Binding

inductive Goal where
  | expression (k : Follow) (min : Binding)
  | iterable (k : Follow)
  | arithmetic (k : Follow) (min : Binding)
  | chain (k : Follow)
  | atom (k : Follow)
  | interpolation (form : Form)
  | typeHint (k : Follow)
  | casePattern (k : Follow)
  | alternatives (k : Follow)
  | value
  | statement (after : Expect)

abbrev Grammar := Goal → Reader

def augmentedOperators : List String :=
  ["**=", "//=", ">>=", "<<=", "+=", "-=", "*=", "/=", "@=", "%=", "&=", "^=", "|="]

def arithmeticOperators : List (String × Binding) :=
  [("**", 21), ("//", 19), ("<<", 17), (">>", 17), ("+", 18), ("-", 18), ("*", 19), ("@", 19),
    ("/", 19),
    ("%", 19), ("|", 14), ("&", 15), ("^", 16)]

def comparisonSymbols : List String := ["<=", "==", "!=", ">=", "<>", "<", ">"]

def operatorWords : List String := ["in", "not", "is", "and", "or", "if", "as"]

def boundaryWords : List String := operatorWords ++ ["else", "for", "from"]

def softWords : List String := ["print", "exec", "async", "await", "type", "match"]

def literalOf? (w : String) : Option Form :=
  if w = "True" then some .trueLiteral
  else if w = "False" then some .falseLiteral
  else if w = "None" then some .noneLiteral
  else none

namespace Look

def augmented? (l : Look) : Option String := augmentedOperators.find? l.has

def isAugmented (l : Look) : Bool := l.augmented?.isSome

def arithmetic? (l : Look) : Option (String × Binding) :=
  if l.isAugmented || l.has "->" then none else arithmeticOperators.find? fun o => l.has o.1

def comparison? (l : Look) : Option String :=
  match l.token with
  | .symbol =>
    if l.isAugmented || l.has "<<" || l.has ">>" then none else comparisonSymbols.find? l.has
  | .word w => if w = "in" || w = "not" || w = "is" then some w else none
  | _ => none

def isAssign (l : Look) : Bool := l.has "=" && !l.has "=="

def isNumber (l : Look) : Bool :=
  match l.symbol? with
  | some c => c.isDigit || (c = '.' && (l.secondSymbol?.elim false Char.isDigit))
  | none => false

def endsExpression (l : Look) : Bool :=
  match l.token with
  | .newline | .eof | .dedent | .indent => true
  | .symbol =>
    match l.scan.peek? with
    | some c => c ∈ [')', ']', '\x7d', ',', ':', ';', '=', '!']
    | none => false
  | _ => false

def beginsOperand (l : Look) (barred : List String) : Bool :=
  match l.token with
  | .quote => true
  | .word w => !barred.contains w
  | .symbol =>
    !l.has "**" && !l.isAugmented &&
      (l.isNumber || l.has "..." ||
        match l.scan.peek? with
        | some c => c ∈ ['(', '[', '\x7b', '~', '+', '-', '*']
        | none => false)
  | _ => false

def isFor (l : Look) : Bool := l.isWord "for" || l.isWord "async"

def budget (l : Look) : Nat := l.scan.budget

end Look

def Parsed.isEnded (r : Parsed) : Bool := r.next.token = .newline || r.next.has ";"

def closeWith (form : Form) (closer : String) (k : Follow) (f : Forest) : Reader := fun l =>
  if l.has closer then
    let c := l.shiftSymbol closer k.afterOperand
    some ((c.after f).wrap form)
  else none

/-- More items, each after a comma. A comma may stand at the end, where `stop` recognises what
follows. -/
def commaTail (e : Expect) (stop : Look → Bool) (item : Reader) : Nat → Forest → Reader
  | 0, _, _ => none
  | n + 1, f, l =>
    if l.has "," then
      let c := l.shiftSymbol "," e
      if stop c.next then some (c.after f)
      else do
        let r ← item c.next
        commaTail e stop item n (f ++ c.forest ++ r.forest) r.next
    else some ⟨f, l⟩

def commaList (e : Expect) (stop : Look → Bool) (item : Reader) : Reader := fun l => do
  let r ← item l
  commaTail e stop item l.budget r.forest r.next

end SafeRefactor.Syntax
