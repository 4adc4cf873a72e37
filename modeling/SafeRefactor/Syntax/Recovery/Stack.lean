import SafeRefactor.Syntax.Recovery.Automaton
import SafeRefactor.Syntax.Recovery.Subtree

/-!
# A stack with many heads

Several readings of a text are followed side by side. Their stacks share what they have in common: a
knot is a state with links to the knots below it, each link with the subtree between the two, and a
head is a reading whose stack begins at a knot. Readings that come to the same state at the same
place are merged into one head whose knot has the links of both.
-/

set_option autoImplicit false

namespace SafeRefactor.Syntax.Recovery

structure Link where
  knot : Nat
  tree : Option Subtree

structure Knot where
  state : Nat
  links : List Link := []
  here : Nat := 0
  cost : Nat := 0
  weight : Int := 0
  count : Nat := 0
  deriving Inhabited

def Knot.above (below : Knot) (number : Nat) (tree : Option Subtree) (state : Nat) : Knot :=
  let base : Knot := { below with state, links := [⟨number, tree⟩] }
  match tree with
  | none => base
  | some t =>
    { base with
      here := t.info.stop
      cost := base.cost + t.cost
      weight := base.weight + t.info.weight
      count := base.count + t.count }

inductive Status where
  | active
  | paused (look : Subtree)
  | halted

structure Retreat where
  here : Nat
  depth : Nat
  state : Nat

structure Head where
  knot : Nat
  countAtError : Nat := 0
  layout : Layout := {}
  status : Status := .active
  retreats : Option (List Retreat) := none
  deriving Inhabited

namespace Head

def isActive (h : Head) : Bool :=
  match h.status with
  | .active => true
  | _ => false

def isPaused (h : Head) : Bool :=
  match h.status with
  | .paused _ => true
  | _ => false

def isHalted (h : Head) : Bool :=
  match h.status with
  | .halted => true
  | _ => false

end Head

def maxLinks : Nat := 8

def maxPaths : Nat := 64

def sameTree : Option Subtree → Option Subtree → Bool
  | none, none => true
  | some a, some b => a.alike b
  | _, _ => false

def Knot.matches (a b : Knot) : Bool := a.state = b.state && a.here = b.here && a.cost = b.cost

def Link.weight (l : Link) (below : Knot) : Int :=
  below.weight + (l.tree.map (·.info.weight)).getD 0

/-- Adds a link to a knot. A link that is there already, but for its subtree, is kept once with the
preferred subtree; one with a matching knot below is merged with it further down. -/
def addLink : Nat → Array Knot → (self : Nat) → Link → Array Knot
  | 0, knots, _, _ => knots
  | fuel + 1, knots, self, link =>
    if link.knot = self then knots
    else
      let me := knots.getD self default
      let below := knots.getD link.knot default
      let found := me.links.find? fun l =>
        sameTree l.tree link.tree &&
          (l.knot = link.knot || (knots.getD l.knot default).matches below)
      match found with
      | some l =>
        if l.knot = link.knot then
          if (l.tree.map (·.info.weight)).getD 0 < (link.tree.map (·.info.weight)).getD 0 then
            let links := me.links.map fun k =>
              if k.knot = link.knot && sameTree k.tree link.tree then link else k
            knots.setIfInBounds self { me with links, weight := link.weight below }
          else knots
        else
          let knots := below.links.foldl (fun ks k => addLink fuel ks l.knot k) knots
          let me := knots.getD self default
          knots.setIfInBounds self { me with weight := max me.weight (link.weight below) }
      | none =>
        if maxLinks ≤ me.links.length then knots
        else
          let count := below.count + (link.tree.map Subtree.count).getD 0
          knots.setIfInBounds self
            { me with
              links := me.links ++ [link]
              count := max me.count count
              weight := max me.weight (link.weight below) }

structure Path where
  knot : Nat
  trees : List Subtree := []
  count : Nat := 0

def Path.down (p : Path) (l : Link) : Path :=
  match l.tree with
  | none => { p with knot := l.knot, count := p.count + 1 }
  | some t =>
    { knot := l.knot, trees := t :: p.trees, count := if t.isExtra then p.count else p.count + 1 }

structure Visit where
  take : Bool := false
  stop : Bool := false

/-- One step down on each path. Where a knot has several links, the path goes on through the first
and copies of it through the others, as long as there are not too many. `before` are the paths
already moved and `fresh` the copies, both in reverse. -/
def stepDown {σ : Type} (knots : Array Knot) (visit : σ → Path → σ × Visit) :
    List Path → (before fresh : List Path) → σ → List Path → σ × List Path × List Path
  | [], before, fresh, s, taken => (s, before.reverse ++ fresh.reverse, taken)
  | p :: ps, before, fresh, s, taken =>
    let (s, v) := visit s p
    let taken := if v.take then p :: taken else taken
    match if v.stop then [] else (knots.getD p.knot default).links with
    | [] => stepDown knots visit ps before fresh s taken
    | l :: ls =>
      let room := maxPaths - (before.length + 1 + ps.length + fresh.length)
      stepDown knots visit ps (p.down l :: before)
        ((ls.take room).map p.down |>.reverse |> (· ++ fresh))
        s taken

def explore {σ : Type} (knots : Array Knot) (visit : σ → Path → σ × Visit) :
    Nat → σ → List Path → List Path → σ × List Path
  | 0, s, _, taken => (s, taken)
  | _ + 1, s, [], taken => (s, taken)
  | fuel + 1, s, ps, taken =>
    let (s, ps, taken) := stepDown knots visit ps [] [] s taken
    explore knots visit fuel s ps taken

def groupPaths : List Path → List (Nat × List (List Subtree)) → List (Nat × List (List Subtree))
  | [], groups => groups
  | p :: ps, groups =>
    if groups.any fun g => g.1 = p.knot then
      groupPaths ps (groups.map fun g => if g.1 = p.knot then (g.1, g.2 ++ [p.trees]) else g)
    else groupPaths ps (groups ++ [(p.knot, [p.trees])])

def splitExtras (ts : List Subtree) : List Subtree × List Subtree :=
  let r := ts.reverse
  ((r.dropWhile Subtree.isExtra).reverse, (r.takeWhile Subtree.isExtra).reverse)

end SafeRefactor.Syntax.Recovery
