/-!
# Where to divide an edit script

The divide-and-conquer search for a shortest script asks for a point that some shortest script
passes through. It is found by walking the edit graph from both ends at once, with the furthest
point reached on each diagonal, until the two walks meet.
-/

set_option autoImplicit false

namespace SafeRefactor.Diff

structure Frontier where
  offset : Int
  reach : Array Nat

namespace Frontier

def empty (bound : Nat) : Frontier := ⟨bound + 1, Array.replicate (2 * bound + 3) 0⟩

def get (f : Frontier) (k : Int) : Nat := f.reach.getD (k + f.offset).toNat 0

def set (f : Frontier) (k : Int) (x : Nat) : Frontier :=
  { f with reach := f.reach.setIfInBounds (k + f.offset).toNat x }

def enter (f : Frontier) (d k : Int) : Nat :=
  if k = -d ∨ (k ≠ d ∧ f.get (k - 1) < f.get (k + 1)) then f.get (k + 1) else f.get (k - 1) + 1

end Frontier

def runForward (a b : Array String) : (fuel x y : Nat) → Nat
  | 0, _, _ => 0
  | fuel + 1, x, y =>
    match a[x]?, b[y]? with
    | some s, some t => if s = t then runForward a b fuel (x + 1) (y + 1) + 1 else 0
    | _, _ => 0

def runBackward (a b : Array String) : (x y : Nat) → Nat
  | x + 1, y + 1 =>
    match a[x]?, b[y]? with
    | some s, some t => if s = t then runBackward a b x y + 1 else 0
    | _, _ => 0
  | _, _ => 0

inductive Round where
  | met (x y : Nat)
  | reached (f : Frontier)

def diagonals (d : Nat) : List Int :=
  (List.range (d + 1)).map fun (i : Nat) => (d : Int) - 2 * (i : Int)

def forwardRound (a b : Array String) (d : Nat) (backward : Frontier) : List Int → Frontier → Round
  | [], f => .reached f
  | k :: ks, f =>
    let delta := (a.size : Int) - b.size
    let x := f.enter d k
    let y := ((x : Int) - k).toNat
    let x' := x + runForward a b a.size x y
    let f' := f.set k x'
    if delta % 2 ≠ 0 ∧ (k - delta).natAbs + 1 ≤ d ∧ a.size ≤ x' + backward.get (delta - k) then
      .met x y
    else forwardRound a b d backward ks f'

def backwardRound (a b : Array String) (d : Nat) (forward : Frontier) : List Int → Frontier → Round
  | [], f => .reached f
  | k :: ks, f =>
    let delta := (a.size : Int) - b.size
    let x := f.enter d k
    let y := ((x : Int) - k).toNat
    let run := if x < a.size ∧ y < b.size then runBackward a b (a.size - x) (b.size - y) else 0
    let f' := f.set k (x + run)
    if delta % 2 = 0 ∧ (k - delta).natAbs ≤ d ∧ a.size ≤ x + run + forward.get (delta - k) then
      .met (a.size - (x + run)) (b.size - (y + run))
    else backwardRound a b d forward ks f'

def walkRounds (a b : Array String) : (rounds d : Nat) → (forward backward : Frontier) →
    Option (Nat × Nat)
  | 0, _, _, _ => none
  | rounds + 1, d, forward, backward =>
    match forwardRound a b d backward (diagonals d) forward with
    | .met x y => some (x, y)
    | .reached forward =>
      match backwardRound a b d forward (diagonals d) backward with
      | .met x y => some (x, y)
      | .reached backward => walkRounds a b rounds (d + 1) forward backward

def midpoint? (old new : List String) : Option (Nat × Nat) :=
  let a := old.toArray
  let b := new.toArray
  let rounds := (a.size + b.size + 1) / 2 + 1
  walkRounds a b rounds 0 (Frontier.empty rounds) (Frontier.empty rounds)

end SafeRefactor.Diff
