import SafeRefactor.Syntax.Recovery.Rules
import Std.Data.HashMap

/-!
# The language as productions

The rules, spelled out: tokens and constructs are numbered, every repetition is a construct of its
own, and each construct has its list of spellings. `Item`s are spellings of which a part has been
recognised.
-/

set_option autoImplicit false

namespace SafeRefactor.Syntax.Recovery

def distinct {α : Type} [BEq α] (xs : List α) : List α :=
  (xs.foldl (fun acc x => if acc.contains x then acc else x :: acc) []).reverse

def tokenNames : Array String :=
  (distinct (["end", "identifier"]
    ++ rules.flatMap (fun r => if r.isLexical then [r.name] else r.body.tokens)
    ++ layoutTokens)).toArray

def tokenNumbers : Std.HashMap String Nat :=
  Std.HashMap.ofList (tokenNames.toList.zipIdx)

def tokenNumber (name : String) : Nat := tokenNumbers.getD name 0

def constructRules : List NamedRule := rules.filter fun r => !r.isLexical

def constructNumbers : Std.HashMap String Nat :=
  Std.HashMap.ofList ((constructRules.map NamedRule.name).zipIdx)

def numberedRules : List Rule × List Rule := Rule.numberAll (constructRules.map NamedRule.body) []

def firstRun : Nat := constructRules.length

def wholeText : Nat := firstRun + numberedRules.2.length

def symbolOf : Rule → Symbol
  | .token n => .token (tokenNumber n)
  | .construct n =>
    match constructNumbers[n]? with
    | some i => .construct i
    | none => .token (tokenNumber n)
  | .run i => .construct (firstRun + i)
  | _ => .error

def plainSpellings : Array (List Spelling) :=
  let around : Step := { symbol := .error }
  let bodies := numberedRules.1 ++
    numberedRules.2.mapIdx (fun i part => .choice [.seq [.run i, .run i], part]) ++
    [.construct "module"]
  (bodies.map fun r => distinct (r.spellings symbolOf around true)).toArray

def inlinedNumbers : List Nat := inlined.filterMap fun n => constructNumbers[n]?

def substitute (s : Step) (q : Spelling) : List Step :=
  let steps := q.steps.map fun x => { x with shownAs := s.shownAs.or x.shownAs }
  (Spelling.mapLast
    (fun x => { x with precedence := x.precedence.or s.precedence, side := x.side.or s.side })
    ⟨steps, 0⟩).steps

def inline : Nat → (done : List Step) → (ahead : List Step) → (weight : Int) → List Spelling
  | 0, _, _, _ => []
  | _ + 1, done, [], weight => [⟨done.reverse, weight⟩]
  | fuel + 1, done, s :: ss, weight =>
    match s.symbol with
    | .construct i =>
      if inlinedNumbers.contains i then
        ((plainSpellings[i]?).getD []).flatMap fun q =>
          inline fuel done (substitute s q ++ ss) (Spelling.stronger weight q.weight)
      else inline fuel (s :: done) ss weight
    | _ => inline fuel (s :: done) ss weight

def spellings : Array (List Spelling) :=
  plainSpellings.mapIdx fun i ps =>
    if inlinedNumbers.contains i then []
    else distinct (ps.flatMap fun p => inline 100 [] p.steps p.weight)

def shownTokens : Array Bool := tokenNames.map fun n => !hiddenTokens.contains n

def shownConstructs : Array Bool :=
  (constructRules.map fun r => !(r.name.startsWith "_" || groupings.contains r.name)).toArray

def Symbol.shown : Symbol → Bool
  | .token i => shownTokens.getD i false
  | .construct i => shownConstructs.getD i false
  | .passed => false
  | .error => true

abbrev TokenSet := Nat

def firstOf (firsts : Array TokenSet) : Symbol → TokenSet
  | .token i => 1 <<< i
  | .construct i => firsts.getD i 0
  | _ => 0

/-- One round of collecting the tokens with which constructs begin. No construct inside another is
empty, so that only the first symbol of a spelling matters. -/
def firstRound (firsts : Array TokenSet) : Array TokenSet :=
  spellings.mapIdx fun i ps =>
    ps.foldl (fun acc p =>
      match p.steps with
      | [] => acc
      | s :: _ => acc ||| firstOf firsts s.symbol) (firsts.getD i 0)

def settle {α : Type} [BEq α] (f : α → α) : Nat → α → α
  | 0, a => a
  | fuel + 1, a =>
    let b := f a
    if b == a then a else settle f fuel b

def firsts : Array TokenSet :=
  settle firstRound spellings.size (Array.replicate spellings.size 0)

def Symbol.first (s : Symbol) : TokenSet := firstOf firsts s

structure Item where
  head : Nat
  weight : Int
  past : List (Option String)
  precedence : Option Int
  side : Option Side
  rest : List Step
  deriving DecidableEq, Hashable, Repr, Inhabited

namespace Item

def start (head : Nat) (p : Spelling) : Item := ⟨head, p.weight, [], none, none, p.steps⟩

def advance (i : Item) : Item :=
  match i.rest with
  | [] => i
  | s :: ss =>
    { i with past := i.past ++ [s.shownAs], precedence := s.precedence, side := s.side, rest := ss }

def next? (i : Item) : Option Symbol := i.rest.head?.map Step.symbol

end Item

def itemRows : Nat → List Item → List (List Item)
  | 0, _ => []
  | fuel + 1, row =>
    row :: itemRows fuel ((row.filter fun i => !i.rest.isEmpty).map Item.advance)

def itemTable : Array Item × Std.HashMap Item Nat :=
  let starts := (spellings.toList.zipIdx).flatMap fun (ps, i) => ps.map (Item.start i)
  (itemRows 20 starts).flatten.foldl
    (fun (items, numbers) i =>
      if numbers.contains i then (items, numbers) else (items.push i, numbers.insert i items.size))
    (#[], {})

def items : Array Item := itemTable.1

def itemNumber (i : Item) : Nat := itemTable.2.getD i 0

def advanced : Array Nat := items.map fun i => itemNumber i.advance

def openings : Array (List Nat) :=
  spellings.mapIdx fun i ps => ps.map fun p => itemNumber (Item.start i p)

structure After where
  tokens : TokenSet := 0
  inherits : Bool := false
  deriving DecidableEq

/-- Which constructs may be opened where a given one is expected, and what may follow each of them.
`todo` are those whose spellings are still to be looked at. -/
def opened : Nat → (todo : List Nat) → Std.HashMap Nat After → Std.HashMap Nat After
  | 0, _, m => m
  | _ + 1, [], m => m
  | fuel + 1, c :: todo, m =>
    let here := m.getD c {}
    let (todo, m) := ((spellings[c]?).getD []).foldl
      (fun (todo, m) p =>
        match p.steps with
        | ⟨.construct d, _, _, _⟩ :: more =>
          let old := m[d]?
          let base := old.getD {}
          let new : After :=
            match more with
            | [] => ⟨base.tokens ||| here.tokens, base.inherits || here.inherits⟩
            | s :: _ => { base with tokens := base.tokens ||| s.symbol.first }
          if old = some new then (todo, m) else (d :: todo, m.insert d new)
        | _ => (todo, m))
      (todo, m)
    opened fuel todo m

def companions : Array (List (Nat × After)) :=
  (Array.range spellings.size).map fun c =>
    let m := opened 1000000 [c] (Std.HashMap.ofList [(c, { inherits := true })])
    m.toList.flatMap fun (d, a) => (openings.getD d []).map fun i => (i, a)

end SafeRefactor.Syntax.Recovery
