import SafeRefactor.Syntax.Tour

/-!
# Faults of a tree

A tree is accepted only if nothing in it is in error and nothing lies deeper than `maxDepth`. A
fault says where acceptance first fails, in document order.
-/

set_option autoImplicit false

namespace SafeRefactor.Syntax

inductive Fault where
  | invalid (line column : Nat)
  | missing (kind : String) (line column : Nat)
  | tooDeep (line column : Nat)
  deriving DecidableEq, Repr

def maxDepth : Nat := 1000

namespace Fault

def message : Fault → String
  | invalid l c => s!"invalid syntax at line {l}, column {c}"
  | missing k l c => "missing \"" ++ k ++ s!"\" at line {l}, column {c}"
  | tooDeep l c => s!"nesting deeper than {maxDepth} levels at line {l}, column {c}"

def line : Fault → Nat
  | invalid l _ | missing _ l _ | tooDeep l _ => l

def column : Fault → Nat
  | invalid _ c | missing _ _ c | tooDeep _ c => c

end Fault

def Node.isFaulty (n : Node) : Bool := n.kind = .error || n.label.missing

def Node.fault (n : Node) : Fault :=
  if n.label.missing then .missing n.kind.name n.line n.column else .invalid n.line n.column

def Cursor.tooDeep (c : Cursor) : Fault := .tooDeep c.node.line c.node.column

def Tour.toFault : Tour Unit := unrecorded Node.isFaulty fun n => n.label.flawed

def Tour.toDepth : Tour Nat where
  start := 0
  down depth := depth + 1
  up
    | 0 => none
    | depth + 1 => some depth
  up_down _ := rfl
  stops depth _ := maxDepth < depth
  enters _ := true

def Node.firstFault (root : Node) : Option Fault :=
  if root.label.flawed then
    match Tour.toFault.result root with
    | .stopped c => some c.node.fault
    | _ => some root.fault
  else none

def Node.firstTooDeep (root : Node) : Option Fault :=
  match Tour.toDepth.result root with
  | .stopped c => some c.tooDeep
  | _ => none

end SafeRefactor.Syntax
