import SafeRefactor.Syntax.Recovery.Engine

/-!
# Going on after an error

A reading that meets a token it cannot use has three ways to go on: to suppose that one token is
missing, to give up what was read since an earlier state and go on from there, or to pass over the
token. Each has its cost, and the readings are followed side by side until one is clearly better.
-/

set_option autoImplicit false

namespace SafeRefactor.Syntax.Recovery

def tokenRange (look : Nat) : List Nat :=
  if look = 0 then (List.range tokenNames.size).tail else [look]

def takesToken (actions : List Action) : Bool :=
  actions.any fun
    | .shift again => !again
    | .recover => true
    | _ => false

def closings (actions : List Action) : List Action :=
  actions.foldl (fun acc a =>
    match a with
    | .reduce head count _ _ =>
      let known := acc.any fun
        | .reduce h c _ _ => h = head && c = count
        | _ => false
      if count = 0 || known then acc else acc ++ [a]
    | _ => acc) []

def applyClosing (v : Nat) : Action → Reading (Option Nat)
  | .reduce head count weight names => reduce v head count weight names
  | _ => return none

/-- Closes all constructs that can be closed before one of the tokens in question, on head `v` and
on the heads that this makes. Heads before number `first` are left alone. The result says whether
some head can take the token. -/
def closeAll (start first look : Nat) : Nat → (i v : Nat) → Bool → Reading Bool
  | 0, _, _, can => return can
  | fuel + 1, i, v, can => do
    let count ← headCount
    if count ≤ v then return can
    if ← mergeIntoFirst v ((List.range v).filter (first ≤ ·)) then
      closeAll start first look fuel (i + 1) v can
    else
      let state := (← topKnot v).state
      let actions := (← (tokenRange look).mapM fun t => actionsOn state (.token t)).flatten
      let made ← (closings actions).foldlM (fun _ a => applyClosing v a) none
      let step := if v = start then count else v + 1
      if takesToken actions then closeAll start first look fuel (i + 1) step true
      else
        match if i < maxHeads then made else none with
        | some n =>
          renumber n v
          closeAll start first look fuel (i + 1) v can
        | none =>
          if look ≠ 0 then dropHead v
          closeAll start first look fuel (i + 1) step can

def doReductions (v look : Nat) : Reading Bool := do
  let source ← read
  closeAll v (← headCount) look (100 * (source.rests.size + 100)) 0 v false

def popError (v : Nat) : Reading (Option Subtree) := do
  let k ← topKnot v
  let isError (t : Subtree) : Bool := t.symbol = .error
  if k.links.any fun l => (l.tree.map isError).getD false then
    let groups ← pop v fun found p =>
      match p.trees with
      | [] => (found, {})
      | t :: _ =>
        if !found && isError t then (true, { take := true, stop := true })
        else (found, { stop := true })
    match groups with
    | (n, rows) :: _ =>
      renumber n v
      return rows.head?.bind List.head?
    | [] => return none
  else return none

def recoverTo (v depth goal : Nat) : Reading Bool := do
  let source ← read
  (← popCount v depth).foldlM (fun did (n, rows) => do
    if (← topKnot n).state ≠ goal then
      haltHead n
      return did
    else
      let inner := ((← popError n).map Subtree.parts).getD []
      let (parts, trail) := splitExtras (inner ++ rows.headD [])
      if !parts.isEmpty then push n (some ((Subtree.node source .error [] parts).asExtra true)) goal
      for t in trail do push n (some t) goal
      return true) false

def accept (v : Nat) (look : Subtree) : Reading Unit := do
  let source ← read
  push v (some look) 1
  let knots := (← get).knots
  let groups ← pop v fun s p =>
    (s, { take := (knots.getD p.knot default).links.isEmpty })
  for row in groups.flatMap Prod.snd do
    let trail := (row.reverse.takeWhile Subtree.isExtra).reverse
    match row.reverse.dropWhile Subtree.isExtra with
    | [] => pure ()
    | t :: before =>
      let root := Subtree.node source t.symbol t.info.names (before.reverse ++ t.parts ++ trail)
      modify fun e =>
        let better := match e.finished with
          | some old => old.replaces source root
          | none => true
        { e with finished := if better then some root else e.finished, accepted := e.accepted + 1 }
  match groups with
  | (n, _) :: _ => dropHead n
  | [] => pure ()
  haltHead v

/-- Goes back to the first of some earlier states that can use the token ahead, unless that is not
worth its cost. `heads` is the number of heads before. -/
def retreat (v heads here since : Nat) (cost : Nat) (look : Subtree) : List Retreat → Reading Bool
  | [] => return false
  | r :: rs => do
    if r.state = 0 || r.here = here then retreat v heads here since cost look rs
    else
      let tops ← (List.range heads).mapM topKnot
      if tops.any fun k => k.state = r.state && k.here = here then
        retreat v heads here since cost look rs
      else
        let source ← read
        if ← betterExists v (cost + r.depth * 100 + source.length r.here here) then return false
        let did ←
          if (← actionsOn r.state look.symbol).isEmpty then pure false
          else recoverTo v (if 0 < since then r.depth + 1 else r.depth) r.state
        if did then return true else retreat v heads here since cost look rs

def dropIdle : Nat → Nat → Reading Unit
  | 0, _ => return
  | fuel + 1, i => do
    if i < (← headCount) then
      if (← getHead i).isActive then dropIdle fuel (i + 1)
      else
        dropHead i
        dropIdle fuel i

def noteLayout (v : Nat) (look : Subtree) : Reading Unit := do
  match look.info.layout with
  | some layout =>
    let h ← getHead v
    setHead v { h with layout }
  | none => pure ()

def passOver (v since : Nat) (look : Subtree) : Reading Unit := do
  let source ← read
  let extra := match (← actionsOn 1 look.symbol).getLast? with
    | some .skip => true
    | _ => false
  let look := if extra then look.asExtra true else look
  let single := Subtree.node source .passed [] [look]
  let tree ←
    if 0 < since then
      match ← popCount v 1 with
      | (n, rows) :: _ =>
        modify fun e => { e with heads := e.heads.take (n + 1) }
        renumber n v
        pure (Subtree.node source .passed [] (rows.headD [] ++ [single]))
      | [] => pure single
    else pure single
  push v (some tree) 0
  noteLayout v look

def recover (v : Nat) (look : Subtree) : Reading Unit := do
  let source ← read
  let heads ← headCount
  let here := (← topKnot v).here
  let retreats := (← getHead v).retreats
  let since ← countSinceError v
  let cost ← headCost v
  let did ←
    match if look.symbol = .error then none else retreats with
    | some rs => retreat v heads here since cost look rs
    | none => pure false
  dropIdle (← headCount) heads
  if look.symbol = .token 0 then
    push v
      (some (.mk { symbol := .error, gap := here, start := here, stop := here, cost := 500 } [])) 1
    accept v look
  else if did && (maxHeads < (← headCount) || look.info.relays) then haltHead v
  else if ← betterExists v (cost + 100 + source.length look.info.gap look.info.stop) then haltHead v
  else passOver v since look

def supposeMissing (v here : Nat) (look : Subtree) : List Nat → Reading Bool
  | [] => return false
  | t :: ts => do
    let state := (← topKnot v).state
    let next ← nextState state (.token t)
    if next = 0 || next = state then supposeMissing v here look ts
    else
      match ← actionsOn next look.symbol with
      | .reduce .. :: _ =>
        let h ← getHead v
        let n ← addHead { h with retreats := none }
        push n (some (.lacking t here)) next
        let token := match look.symbol with
          | .token t => t
          | _ => 0
        if ← doReductions n token then return true else supposeMissing v here look ts
      | _ => supposeMissing v here look ts

def enterError (here : Nat) (look : Subtree) : (did : Bool) → List Nat → Reading Unit
  | _, [] => return
  | did, v :: vs => do
    let did ← if did then pure true
      else supposeMissing v here look (List.range tokenNames.size).tail
    push v none 0
    enterError here look did vs

def retreatsOf (v : Nat) : Reading (List Retreat) := do
  let h ← getHead v
  let knots := (← get).knots
  let visit (s : List Retreat) (p : Path) : List Retreat × Visit :=
    let k := knots.getD p.knot default
    let known := (s.takeWhile fun r => p.count ≤ r.depth).any fun r =>
      r.depth = p.count && r.state = k.state
    if 16 < p.count then (s, { stop := true })
    else if known then (s, {})
    else (⟨k.here, p.count, k.state⟩ :: s, {})
  return (explore knots visit (knots.size + 1) [] [{ knot := h.knot }] []).1.reverse

def handleError (v : Nat) (look : Subtree) : Reading Unit := do
  let before ← headCount
  let _ ← doReductions v 0
  let after ← headCount
  let here := (← topKnot v).here
  enterError here look false (v :: (List.range (after - before)).map (· + before))
  for _ in List.range (after - before) do
    let _ ← merge v before
  let retreats ← retreatsOf v
  let h ← getHead v
  setHead v { h with retreats := some retreats }
  recover v look

end SafeRefactor.Syntax.Recovery
