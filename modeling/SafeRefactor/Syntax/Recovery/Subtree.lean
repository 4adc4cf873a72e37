import SafeRefactor.Syntax.Recovery.Language
import SafeRefactor.Syntax.Scan

/-!
# Trees with errors

A recovered tree also holds what trees do not show, and stretches in error and tokens that the text
lacks. Every error has a cost: a stretch in error costs the more the more of the text it covers, and
the cost of a tree is that of its errors. Of two readings of a text the cheaper one is kept.
-/

set_option autoImplicit false

namespace SafeRefactor.Syntax.Recovery

structure Layout where
  indents : List Nat := [0]
  quotes : List Quote := []
  inside : Bool := false
  deriving DecidableEq

structure Source where
  points : Array Point
  rests : Array (List Char)
  bytes : Array Nat

namespace Source

def survey : List Char → Point → (bytes : Nat) → Source → Source
  | [], here, bytes, s => ⟨s.points.push here, s.rests.push [], s.bytes.push bytes⟩
  | c :: cs, here, bytes, s =>
    survey cs (here.advance c) (bytes + Text.byteWidth c)
      ⟨s.points.push here, s.rests.push (c :: cs), s.bytes.push bytes⟩

def ofText (cs : List Char) : Source := survey cs .origin 0 ⟨#[], #[], #[]⟩

def point (s : Source) (i : Nat) : Point := s.points.getD i .origin

def rest (s : Source) (i : Nat) : List Char := s.rests.getD i []

def length (s : Source) (start stop : Nat) : Nat :=
  (s.bytes.getD stop 0 - s.bytes.getD start 0) + 30 * ((s.point stop).row - (s.point start).row)

end Source

structure Info where
  symbol : Symbol
  names : List (Option String) := []
  gap : Nat
  start : Nat
  stop : Nat
  cost : Nat := 0
  weight : Int := 0
  below : Nat := 0
  children : Nat := 0
  extra : Bool := false
  missing : Bool := false
  keyword : Bool := false
  layout : Option Layout := none
  relays : Bool := false

inductive Subtree where
  | mk (info : Info) (parts : List Subtree)

namespace Subtree

def info : Subtree → Info
  | mk i _ => i

def parts : Subtree → List Subtree
  | mk _ ps => ps

def symbol (t : Subtree) : Symbol := t.info.symbol

def isExtra (t : Subtree) : Bool := t.info.extra

def asExtra (t : Subtree) (extra : Bool) : Subtree := .mk { t.info with extra } t.parts

def cost (t : Subtree) : Nat := if t.info.missing then 610 else t.info.cost

def count (t : Subtree) : Nat :=
  t.info.below + (if t.symbol.shown then 1 else 0) + (if t.symbol = .passed then 1 else 0)

def isErroneous (s : Symbol) : Bool := s = .error || s = .passed

def addPart (i : Info) (names : List (Option String)) (t : Subtree) : Info × List (Option String) :=
  let leaf := t.parts.isEmpty
  let renamed := !t.isExtra && t.symbol ≠ .token 0 && (names.headD none).isSome
  let shown := renamed || t.symbol.shown
  let passing :=
    if isErroneous i.symbol && !t.isExtra && !(t.symbol = .error && leaf) then
      if t.symbol.shown then 100 else if leaf then 0 else 100 * t.info.children
    else 0
  ({ i with
      stop := t.info.stop
      cost := i.cost + (if t.symbol = .passed then 0 else t.cost) + passing
      weight := i.weight + t.info.weight
      below := i.below + t.info.below + (if shown then 1 else 0)
      children := i.children + (if shown then 1 else if leaf then 0 else t.info.children) },
    if t.isExtra then names else names.tail)

def node (source : Source) (symbol : Symbol) (names : List (Option String)) (parts : List Subtree) :
    Subtree :=
  let (gap, start) := match parts with
    | [] => (0, 0)
    | t :: _ => (t.info.gap, t.info.start)
  let base : Info := { symbol, names, gap, start, stop := 0 }
  let i := (parts.foldl (fun (i, names) t => addPart i names t) (base, names)).1
  .mk (if isErroneous symbol then { i with cost := i.cost + 500 + source.length start i.stop }
    else i)
    parts

def leaf (symbol : Symbol) (gap start stop : Nat) : Subtree :=
  .mk { symbol, gap, start, stop, extra := symbol = .token 0 } []

def lacking (token here : Nat) : Subtree :=
  .mk { symbol := .token token, gap := here, start := here, stop := here, missing := true } []

/-- Compares two trees node by node, those on the left first. `fuel` bounds the number of nodes. -/
def order : Nat → List (Subtree × Subtree) → Ordering
  | 0, _ => .eq
  | _ + 1, [] => .eq
  | fuel + 1, (a, b) :: more =>
    if a.symbol.before b.symbol then .lt
    else if b.symbol.before a.symbol then .gt
    else if a.parts.length < b.parts.length then .lt
    else if b.parts.length < a.parts.length then .gt
    else order fuel (a.parts.zip b.parts ++ more)

def replaces (source : Source) (old new : Subtree) : Bool :=
  if new.cost < old.cost then true
  else if old.cost < new.cost then false
  else if old.info.weight < new.info.weight then true
  else if new.info.weight < old.info.weight then false
  else if 0 < old.cost then true
  else order (100 * (source.rests.size + 100)) [(old, new)] = .gt

def alike (a b : Subtree) : Bool :=
  a.symbol = b.symbol &&
    ((0 < a.cost && 0 < b.cost) ||
      (a.info.gap = b.info.gap && a.info.start = b.info.start && a.info.stop = b.info.stop &&
        a.parts.length = b.parts.length && a.isExtra = b.isExtra &&
        a.info.layout.getD {} = b.info.layout.getD {}))

def nameOf : Symbol → String
  | .token t => tokenNames.getD t ""
  | _ => ""

mutual

/-- The nodes that a subtree shows, put before `after`. `name` is the name under which the subtree
is shown, if it has another one. -/
def shown (source : Source) : Subtree → (name : Option String) → (after : List Node) → List Node
  | .mk i parts, name, after =>
    if name.isSome || i.symbol.shown then
      .mk { kind := if i.symbol = .error then .error else .token (name.getD (nameOf i.symbol))
            start := source.point i.start
            stop := source.point i.stop
            missing := i.missing
            flawed := i.missing || 0 < i.cost }
        (shownIn source parts i.names []) :: after
    else shownIn source parts i.names after

def shownIn (source : Source) : List Subtree → List (Option String) → List Node → List Node
  | [], _, after => after
  | t :: ts, names, after =>
    shown source t (if t.isExtra then none else names.headD none)
      (shownIn source ts (if t.isExtra then names else names.tail) after)

end

end Subtree

end SafeRefactor.Syntax.Recovery
