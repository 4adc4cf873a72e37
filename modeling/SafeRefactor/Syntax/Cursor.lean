import SafeRefactor.Syntax.Node

/-!
# Cursors

A cursor is a node together with where it stands in its tree. It moves to the first child, the next
sibling or the parent.
-/

set_option autoImplicit false

namespace SafeRefactor.Syntax

structure Frame where
  parent : Node
  following : List Node

/-- A node in its tree. `frames` leads from the node up to the root, innermost first. -/
structure Cursor where
  node : Node
  frames : List Frame

namespace Cursor

def ofRoot (root : Node) : Cursor := ⟨root, []⟩

def parent? (c : Cursor) : Option Cursor :=
  match c.frames with
  | [] => none
  | f :: fs => some ⟨f.parent, fs⟩

def firstChild? (c : Cursor) : Option Cursor :=
  match c.node.children with
  | [] => none
  | n :: ns => some ⟨n, ⟨c.node, ns⟩ :: c.frames⟩

def nextSibling? (c : Cursor) : Option Cursor :=
  match c.frames with
  | [] => none
  | f :: fs =>
    match f.following with
    | [] => none
    | n :: ns => some ⟨n, ⟨f.parent, ns⟩ :: fs⟩

def depth (c : Cursor) : Nat := c.frames.length

end Cursor

end SafeRefactor.Syntax
