import SafeRefactor.Syntax.Recovery.Lexeme
import SafeRefactor.Syntax.Recovery.Stack

/-!
# Readings of a text

The state of the parser that follows all readings of a text, and the operations on its heads: to
push a subtree, to close a construct, to merge readings and to compare them.
-/

set_option autoImplicit false

namespace SafeRefactor.Syntax.Recovery

structure Engine where
  automaton : Automaton
  knots : Array Knot
  heads : Array Head
  finished : Option Subtree := none
  accepted : Nat := 0

def Engine.start : Engine where
  automaton := .start
  knots := #[{ state := 1 }]
  heads := #[{ knot := 0 }]

abbrev Reading := ReaderT Source (StateM Engine)

def maxHeads : Nat := 6

def headCount : Reading Nat := return (← get).heads.size

def getHead (v : Nat) : Reading Head := return (← get).heads.getD v default

def setHead (v : Nat) (h : Head) : Reading Unit :=
  modify fun e => { e with heads := e.heads.setIfInBounds v h }

def dropHead (v : Nat) : Reading Unit :=
  modify fun e => { e with heads := e.heads.eraseIdxIfInBounds v }

def addHead (h : Head) : Reading Nat := do
  let n ← headCount
  modify fun e => { e with heads := e.heads.push h }
  return n

def haltHead (v : Nat) : Reading Unit := do
  let h ← getHead v
  setHead v { h with status := .halted }

def getKnot (n : Nat) : Reading Knot := return (← get).knots.getD n default

def topKnot (v : Nat) : Reading Knot := do getKnot (← getHead v).knot

def actionsOn (state : Nat) : Symbol → Reading (List Action)
  | .token t => return (← get).automaton.actions state t
  | _ => return []

def nextState (state : Nat) (s : Symbol) : Reading Nat :=
  modifyGet fun ⟨a, knots, heads, finished, accepted⟩ =>
    let (n, a) := a.next state s
    (n, ⟨a, knots, heads, finished, accepted⟩)

def push (v : Nat) (tree : Option Subtree) (state : Nat) : Reading Unit := do
  let h ← getHead v
  let k ← getKnot h.knot
  let top := k.above h.knot tree state
  let n := (← get).knots.size
  modify fun e => { e with knots := e.knots.push top }
  setHead v { h with knot := n, countAtError := if tree.isNone then top.count else h.countAtError }

def headCost (v : Nat) : Reading Nat := do
  let h ← getHead v
  let k ← getKnot h.knot
  let fresh := k.state = 0 && (match k.links with
    | [] => true
    | l :: _ => l.tree.isNone)
  return if h.isPaused || fresh then k.cost + 500 else k.cost

def countSinceError (v : Nat) : Reading Nat := do
  let h ← getHead v
  let k ← getKnot h.knot
  let base := min h.countAtError k.count
  setHead v { h with countAtError := base }
  return k.count - base

def advancedFrom (knots : Array Knot) (countAtError : Nat) : Nat → Nat → Bool
  | 0, _ => false
  | fuel + 1, n =>
    let k := knots.getD n default
    match k.links with
    | ⟨below, some t⟩ :: _ =>
      if t.info.gap < t.info.stop then true
      else if countAtError < k.count && t.cost = 0 then advancedFrom knots countAtError fuel below
      else false
    | _ => false

def advancedSinceError (v : Nat) : Reading Bool := do
  let h ← getHead v
  let knots := (← get).knots
  return (knots.getD h.knot default).cost = 0 || advancedFrom knots h.countAtError knots.size h.knot

def canMerge (a b : Nat) : Reading Bool := do
  let x ← getHead a
  let y ← getHead b
  let kx ← getKnot x.knot
  let ky ← getKnot y.knot
  return x.isActive && y.isActive && kx.matches ky && x.layout = y.layout

def merge (a b : Nat) : Reading Bool := do
  if ← canMerge a b then
    let x ← getHead a
    let links := (← topKnot b).links
    modify fun ⟨m, knots, heads, finished, accepted⟩ =>
      let fuel := knots.size
      ⟨m, links.foldl (fun ks l => addLink fuel ks x.knot l) knots, heads, finished, accepted⟩
    let k ← getKnot x.knot
    if k.state = 0 then setHead a { x with countAtError := k.count }
    dropHead b
    return true
  else return false

def mergeIntoFirst (v : Nat) : List Nat → Reading Bool
  | [] => return false
  | j :: js => do if ← merge j v then return true else mergeIntoFirst v js

def pop (v : Nat) (visit : Bool → Path → Bool × Visit) :
    Reading (List (Nat × List (List Subtree))) := do
  let h ← getHead v
  let knots := (← get).knots
  let (_, taken) := explore knots visit (knots.size + 1) false [{ knot := h.knot }] []
  (groupPaths taken.reverse []).mapM fun (knot, rows) => do
    let n ← addHead { knot, countAtError := h.countAtError, layout := h.layout }
    return (n, rows)

def popCount (v count : Nat) : Reading (List (Nat × List (List Subtree))) :=
  pop v fun s p => (s, if p.count = count then { take := true, stop := true } else {})

def renumber (a b : Nat) : Reading Unit := do
  if a ≠ b then
    let s ← getHead a
    let t ← getHead b
    setHead b { s with retreats := s.retreats.or t.retreats }
    dropHead a

/-- Closes a construct over the last `count` subtrees of a head. The result is the number of the
first of the new heads, if there are any. -/
def reduce (v head count : Nat) (weight : Int) (names : List (Option String)) :
    Reading (Option Nat) := do
  let source ← read
  let first ← headCount
  let build (row : List Subtree) : Subtree × List Subtree :=
    let (parts, trail) := splitExtras row
    (.node source (.construct head) names parts, trail)
  let _ ← (← popCount v count).foldlM (fun removed (number, rows) => do
    let n := number - removed
    if maxHeads + 4 < n then
      dropHead n
      return removed + 1
    match rows.map build with
    | [] => return removed
    | best :: others =>
      let (parent, trail) := others.foldl
        (fun best other => if best.1.replaces source other.1 then other else best) best
      let state := (← topKnot n).state
      let next ← nextState state (.construct head)
      let parent :=
        Subtree.mk { parent.info with weight := parent.info.weight + weight } parent.parts
      push n (some parent) next
      for t in trail do push n (some t) next
      let merged ← mergeIntoFirst n ((List.range n).filter (· ≠ v))
      return if merged then removed + 1 else removed) 0
  return if first < (← headCount) then some first else none

structure Standing where
  cost : Nat
  count : Nat
  weight : Int
  inError : Bool

def standing (v : Nat) : Reading Standing := do
  let h ← getHead v
  let cost ← headCost v
  let count ← countSinceError v
  let k ← getKnot h.knot
  return { cost := if h.isPaused then cost + 100 else cost
           count, weight := k.weight, inError := h.isPaused || k.state = 0 }

inductive Better where
  | takeFirst
  | preferFirst
  | neither
  | preferSecond
  | takeSecond
  deriving DecidableEq

/-- Compares two readings: one without an error is better, then the cheaper one. A difference in
cost weighs the more the further the cheaper one has come since its last error. -/
def Standing.compare (a b : Standing) : Better :=
  if !a.inError && b.inError then if a.cost < b.cost then .takeFirst else .preferFirst
  else if a.inError && !b.inError then if b.cost < a.cost then .takeSecond else .preferSecond
  else if a.cost < b.cost then
    if 1800 < (b.cost - a.cost) * (1 + a.count) then .takeFirst else .preferFirst
  else if b.cost < a.cost then
    if 1800 < (a.cost - b.cost) * (1 + b.count) then .takeSecond else .preferSecond
  else if b.weight < a.weight then .preferFirst
  else if a.weight < b.weight then .preferSecond
  else .neither

def betterAmong (v here : Nat) (s : Standing) : List Nat → Reading Bool
  | [] => return false
  | i :: is => do
    let h ← getHead i
    let k ← getKnot h.knot
    if i = v || !h.isActive || k.here < here then betterAmong v here s is
    else
      match s.compare (← standing i) with
      | .takeSecond => return true
      | .preferSecond => if ← canMerge i v then return true else betterAmong v here s is
      | _ => betterAmong v here s is

def betterExists (v cost : Nat) : Reading Bool := do
  let done : Bool := match (← get).finished with
    | some t => t.cost ≤ cost
    | none => false
  if done then return true
  let k ← topKnot v
  let count ← countSinceError v
  betterAmong v k.here { cost, count, weight := k.weight, inError := false }
    (List.range (← headCount))

end SafeRefactor.Syntax.Recovery
