/-!
# Rules of a grammar

A grammar with precedences, as a list of named rules. Each rule is a regular expression over tokens
and constructs; `Rule.spellings` lists the rows of symbols it stands for, each symbol with the
precedence and grouping in force after it.
-/

set_option autoImplicit false

namespace SafeRefactor.Syntax.Recovery

inductive Side where
  | left
  | right
  deriving DecidableEq, Hashable, Repr

inductive Rule where
  | blank
  | token (name : String)
  | construct (name : String)
  | run (number : Nat)
  | seq (parts : List Rule)
  | choice (parts : List Rule)
  | many (part : Rule)
  | ranked (precedence : Int) (part : Rule)
  | grouped (side : Side) (part : Rule)
  | weighted (weight : Int) (part : Rule)
  | shownAs (name : String) (part : Rule)
  deriving BEq, Repr

structure NamedRule where
  name : String
  body : Rule

def NamedRule.isLexical (r : NamedRule) : Bool := r.body == .token r.name

namespace Rule

def optional (r : Rule) : Rule := .choice [r, .blank]

def star (r : Rule) : Rule := .choice [.many r, .blank]

def separated (separator : String) (r : Rule) : Rule := .seq [r, star (.seq [.token separator, r])]

def commas (r : Rule) : Rule := separated "," r

mutual

def tokens : Rule → List String
  | .token n => [n]
  | .seq rs => tokensAll rs
  | .choice rs => tokensAll rs
  | .many r | .ranked _ r | .grouped _ r | .weighted _ r | .shownAs _ r => tokens r
  | .blank | .construct _ | .run _ => []

def tokensAll : List Rule → List String
  | [] => []
  | r :: rs => tokens r ++ tokensAll rs

end

mutual

/-- Replaces each repetition by its number. `found` are the repeated parts numbered so far; equal
parts share a number. -/
def number : Rule → (found : List Rule) → Rule × List Rule
  | .many r, found =>
    let (part, found) := number r found
    match found.findIdx? (· == part) with
    | some i => (.run i, found)
    | none => (.run found.length, found ++ [part])
  | .seq rs, found => let (rs, found) := numberAll rs found; (.seq rs, found)
  | .choice rs, found => let (rs, found) := numberAll rs found; (.choice rs, found)
  | .ranked p r, found => let (r, found) := number r found; (.ranked p r, found)
  | .grouped s r, found => let (r, found) := number r found; (.grouped s r, found)
  | .weighted w r, found => let (r, found) := number r found; (.weighted w r, found)
  | .shownAs n r, found => let (r, found) := number r found; (.shownAs n r, found)
  | .blank, found => (.blank, found)
  | .token n, found => (.token n, found)
  | .construct n, found => (.construct n, found)
  | .run i, found => (.run i, found)

def numberAll : List Rule → List Rule → List Rule × List Rule
  | [], found => ([], found)
  | r :: rs, found =>
    let (r, found) := number r found
    let (rs, found) := numberAll rs found
    (r :: rs, found)

end

end Rule

inductive Symbol where
  | token (index : Nat)
  | construct (index : Nat)
  | passed
  | error
  deriving DecidableEq, Hashable, Repr, Inhabited

def Symbol.before : Symbol → Symbol → Bool
  | .token i, .token j => i < j
  | .token _, _ => true
  | .construct i, .construct j => i < j
  | .construct _, .passed | .construct _, .error => true
  | .passed, .error => true
  | _, _ => false

structure Step where
  symbol : Symbol
  precedence : Option Int := none
  side : Option Side := none
  shownAs : Option String := none
  deriving DecidableEq, Hashable, Repr

structure Spelling where
  steps : List Step
  weight : Int := 0
  deriving DecidableEq, Repr

namespace Spelling

def stronger (a b : Int) : Int := if a.natAbs < b.natAbs then b else a

def append (a b : Spelling) : Spelling := ⟨a.steps ++ b.steps, stronger a.weight b.weight⟩

def mapLast (f : Step → Step) (a : Spelling) : Spelling :=
  match a.steps.reverse with
  | [] => a
  | s :: ss => { a with steps := (f s :: ss).reverse }

end Spelling

namespace Rule

mutual

/-- The rows of symbols that a rule stands for. `around` holds what surrounds the rule; a precedence
or grouping of a part ends with the part, unless the part ends the whole row. -/
def spellings (resolve : Rule → Symbol) : Rule → (around : Step) → (last : Bool) → List Spelling
  | .blank, _, _ => [⟨[], 0⟩]
  | .token n, around, _ => [⟨[{ around with symbol := resolve (.token n) }], 0⟩]
  | .construct n, around, _ => [⟨[{ around with symbol := resolve (.construct n) }], 0⟩]
  | .run i, around, _ => [⟨[{ around with symbol := resolve (.run i) }], 0⟩]
  | .seq rs, around, last => spellingsSeq resolve rs around last
  | .choice rs, around, last => spellingsChoice resolve rs around last
  | .many r, around, last => spellings resolve r around last
  | .ranked p r, around, last =>
    let inner := spellings resolve r { around with precedence := some p } last
    if last then inner
    else inner.map (Spelling.mapLast fun s => { s with precedence := around.precedence })
  | .grouped side r, around, last =>
    let inner := spellings resolve r { around with side := some side } last
    if last then inner else inner.map (Spelling.mapLast fun s => { s with side := around.side })
  | .weighted w r, around, last =>
    (spellings resolve r around last).map fun a => { a with weight := Spelling.stronger w a.weight }
  | .shownAs n r, around, last => spellings resolve r { around with shownAs := some n } last

def spellingsSeq (resolve : Rule → Symbol) : List Rule → Step → Bool → List Spelling
  | [], _, _ => [⟨[], 0⟩]
  | r :: rs, around, last =>
    let tails := spellingsSeq resolve rs around last
    (spellings resolve r around (last && rs.isEmpty)).flatMap fun a => tails.map a.append

def spellingsChoice (resolve : Rule → Symbol) : List Rule → Step → Bool → List Spelling
  | [], _, _ => []
  | r :: rs, around, last =>
    spellings resolve r around last ++ spellingsChoice resolve rs around last

end

end Rule

end SafeRefactor.Syntax.Recovery
