import SafeRefactor.Syntax.Cursor

/-!
# Tours

A tour takes a cursor through a tree in document order. It arrives at a node, and then goes down to
the first child or leaves the node; from a node that it leaves it goes on to the next sibling or,
where there is none, leaves the parent too. On the way down and up it keeps a record, such as a
count of levels.
-/

set_option autoImplicit false

namespace SafeRefactor.Syntax

structure Tour (ρ : Type) where
  start : ρ
  down : ρ → ρ
  up : ρ → Option ρ
  up_down : ∀ r, up (down r) = some r
  stops : ρ → Node → Bool
  enters : Node → Bool

namespace Tour

variable {ρ : Type}

inductive State (ρ : Type) where
  | arriving (record : ρ) (c : Cursor)
  | leaving (record : ρ) (c : Cursor)
  | stopped (c : Cursor)
  | finished
  | astray

def step (t : Tour ρ) : State ρ → State ρ
  | .arriving r c =>
    if t.stops r c.node then .stopped c
    else
      match if t.enters c.node then c.firstChild? else none with
      | some d => .arriving (t.down r) d
      | none => .leaving r c
  | .leaving r c =>
    match c.nextSibling? with
    | some d => .arriving r d
    | none =>
      match c.parent? with
      | none => .finished
      | some p =>
        match t.up r with
        | some above => .leaving above p
        | none => .astray
  | s => s

def after (t : Tour ρ) : Nat → State ρ → State ρ
  | 0, s => s
  | n + 1, s => t.after n (t.step s)

def outset (t : Tour ρ) (root : Node) : State ρ := .arriving t.start (.ofRoot root)

def bound (root : Node) : Nat := 2 * root.size

def result (t : Tour ρ) (root : Node) : State ρ := t.after (bound root) (t.outset root)

def State.arrival? : State ρ → Option Cursor
  | .arriving _ c => some c
  | _ => none

def arrivals (t : Tour ρ) : Nat → State ρ → List Cursor
  | 0, _ => []
  | n + 1, s =>
    match s.arrival? with
    | some c => c :: t.arrivals n (t.step s)
    | none => t.arrivals n (t.step s)

def unrecorded (stops enters : Node → Bool) : Tour Unit where
  start := ()
  down := id
  up := some
  up_down _ := rfl
  stops _ := stops
  enters := enters

def full : Tour Unit := unrecorded (fun _ => false) (fun _ => true)

end Tour

def Cursor.sites (root : Node) : List Cursor := Tour.full.arrivals (Tour.bound root)
    (Tour.full.outset root)

end SafeRefactor.Syntax
