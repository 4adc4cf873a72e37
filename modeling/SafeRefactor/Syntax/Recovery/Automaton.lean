import SafeRefactor.Syntax.Recovery.Language
import Std.Data.TreeMap

/-!
# The automaton of the language

A state is a set of items, each with the tokens that may follow once it is complete. What to do on
each token is decided by the items; precedence and grouping settle what they can, and what they
leave open is kept as several actions. The states are made when they are first entered.
-/

set_option autoImplicit false

namespace SafeRefactor.Syntax.Recovery

inductive Action where
  | shift (again : Bool)
  | skip
  | reduce (head : Nat) (count : Nat) (weight : Int) (names : List (Option String))
  | accept
  | recover
  deriving DecidableEq, Repr

abbrev ItemSet := List (Nat × TokenSet)

def ItemSet.join (m : Std.TreeMap Nat TokenSet) (item : Nat) (tokens : TokenSet) :
    Std.TreeMap Nat TokenSet :=
  m.insert item (m.getD item 0 ||| tokens)

def ItemSet.close (kernel : ItemSet) : ItemSet :=
  let start := kernel.foldl (fun m (i, tokens) => join m i tokens) ∅
  (kernel.foldl (fun m (i, tokens) =>
    match (items.getD i default).rest with
    | ⟨.construct c, _, _, _⟩ :: more =>
      let follow := match more with
        | [] => tokens
        | s :: _ => s.symbol.first
      (companions.getD c []).foldl (fun m (j, after) =>
        join m j (if after.inherits then after.tokens ||| follow else after.tokens)) m
    | _ => m) start).toList

def ItemSet.after (s : Symbol) (entries : ItemSet) : ItemSet :=
  (entries.foldl (fun m (i, tokens) =>
    if (items.getD i default).next? = some s then join m (advanced.getD i 0) tokens
      else m) ∅).toList

structure Cell where
  actions : List Action := []
  precedence : Int := 0
  left : Bool := false
  right : Bool := false
  neither : Bool := false
  contested : Bool := false
  deriving Inhabited

namespace Cell

def noteSide (c : Cell) : Option Side → Cell
  | some .left => { c with left := true }
  | some .right => { c with right := true }
  | none => { c with neither := true }

def contend (c : Cell) (a : Action) (i : Item) : Cell :=
  let p := i.precedence.getD 0
  if c.actions.isEmpty || c.precedence < p then
    ({ actions := [a], precedence := p } : Cell).noteSide i.side
  else if c.precedence = p then
    { c with actions := c.actions ++ [a], contested := true }.noteSide i.side
  else c

def offerShift (c : Cell) : Cell :=
  { c with actions := c.actions ++ [.shift false], contested := c.contested || !c.actions.isEmpty }

/-- Settles a contest between taking the token and closing constructs, as far as precedence and
grouping do. `heads` are the constructs of the items that contend and `precedences` those in force
where the token would be taken. -/
def decide (c : Cell) (heads : List Nat) (precedences : List Int) : List Action :=
  match c.actions.getLast? with
  | some (.shift _) =>
    let closing := c.actions.dropLast
    let runs := match heads with
      | [] => false
      | h :: hs => firstRun ≤ h && h < wholeText && hs.all (· == h)
    let more := precedences.any (c.precedence < ·)
    let less := precedences.any (· < c.precedence)
    if runs then closing ++ [.shift true]
    else if more && !less then [.shift false]
    else if less && !more then closing
    else if !less && !more && c.left && !c.right && !c.neither then closing
    else if !less && !more && c.right && !c.left && !c.neither then [.shift false]
    else c.actions
  | _ => c.actions

end Cell

def Item.action (i : Item) : Action :=
  if i.head = wholeText then .accept else .reduce i.head i.past.length i.weight i.past

def contendAll (cells : Array Cell) (tokens : TokenSet) (i : Item) : Array Cell :=
  cells.mapIdx fun t c => if tokens.testBit t then c.contend i.action i else c

def contenders (entries : ItemSet) (t : Nat) : List Item :=
  entries.filterMap fun (n, tokens) =>
    let i := items.getD n default
    match i.next? with
    | some s => if !i.past.isEmpty && s.first.testBit t then some i else none
    | none => if tokens.testBit t && i.head ≠ wholeText then some i else none

def extraNumbers : List Nat := extraTokens.map tokenNumber

def ItemSet.actions (entries : ItemSet) : Array (List Action) :=
  let blank : Array Cell := Array.replicate tokenNames.size default
  let closing := entries.foldl (fun cells (n, tokens) =>
    let i := items.getD n default
    if i.rest.isEmpty then contendAll cells tokens i else cells) blank
  let shifted : TokenSet := entries.foldl (fun acc (n, _) =>
    match (items.getD n default).next? with
    | some (.token t) => acc ||| (1 <<< t)
    | _ => acc) 0
  closing.mapIdx fun t c =>
    let c := if shifted.testBit t then c.offerShift else c
    if c.contested then
      let cs := contenders entries t
      c.decide ((cs.filter fun i => i.head ≠ wholeText).map Item.head)
        ((cs.filter fun i => !i.rest.isEmpty).map fun i => i.precedence.getD 0)
    else if c.actions.isEmpty && extraNumbers.contains t then [.skip]
    else c.actions

structure Row where
  entries : ItemSet
  actions : Array (List Action)
  deriving Inhabited

def Row.ofKernel (kernel : ItemSet) : Row :=
  let entries := kernel.close
  ⟨entries, entries.actions⟩

def Row.error : Row :=
  ⟨[], tokenNames.map fun n => if n = "fmt_content" then [] else [.recover]⟩

/-- The states entered so far, and the moves between them that were asked for. State `0` is the
state of error and state `1` the first one. -/
structure Automaton where
  rows : Array Row
  numbers : Std.HashMap ItemSet Nat
  moves : Std.HashMap (Nat × Symbol) Nat

namespace Automaton

def start : Automaton :=
  let kernel : ItemSet := (openings.getD wholeText []).map fun i => (i, 1)
  { rows := #[.error, .ofKernel kernel]
    numbers := Std.HashMap.ofList [(kernel, 1)]
    moves := ∅ }

def actions (a : Automaton) (state token : Nat) : List Action :=
  match a.rows[state]? with
  | some row => row.actions.getD token []
  | none => []

def intern (a : Automaton) (kernel : ItemSet) : Nat × Automaton :=
  if kernel.isEmpty then (0, a)
  else
    match a.numbers[kernel]? with
    | some n => (n, a)
    | none =>
      let n := a.rows.size
      (n, { a with rows := a.rows.push (.ofKernel kernel), numbers := a.numbers.insert kernel n })

def move (a : Automaton) (state : Nat) (s : Symbol) : Nat × Automaton :=
  match a.moves[(state, s)]? with
  | some n => (n, a)
  | none =>
    let (n, a) := a.intern (ItemSet.after s ((a.rows[state]?.map Row.entries).getD []))
    (n, { a with moves := a.moves.insert (state, s) n })

def next (a : Automaton) (state : Nat) (s : Symbol) : Nat × Automaton :=
  match s with
  | .token t =>
    match (a.actions state t).getLast? with
    | some (.shift _) => a.move state s
    | some .skip => (state, a)
    | _ => (0, a)
  | .construct _ => a.move state s
  | .passed | .error => (0, a)

end Automaton

end SafeRefactor.Syntax.Recovery
