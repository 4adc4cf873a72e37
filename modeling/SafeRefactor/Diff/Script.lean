/-!
# Edit scripts

A script is a row of chunks. Each chunk holds lines that both texts have, that only the old one has,
or that only the new one has; read in order, the chunks spell out both texts.
-/

set_option autoImplicit false

namespace SafeRefactor.Diff

inductive Tag where
  | same
  | removed
  | added
  deriving DecidableEq, Repr

/-- A chunk of a script, and where it was first placed in the old and in the new text. A chunk that
is in one text only may later be moved along the other without being renumbered there. -/
structure Chunk where
  tag : Tag
  oldAt : Nat
  newAt : Nat
  lines : List String
  deriving DecidableEq, Repr

abbrev Script := List Chunk

namespace Chunk

def old (c : Chunk) : List String :=
  match c.tag with
  | .same | .removed => c.lines
  | .added => []

def new (c : Chunk) : List String :=
  match c.tag with
  | .same | .added => c.lines
  | .removed => []

def moveUp (c : Chunk) (n : Nat) (lines : List String) : Chunk :=
  { c with oldAt := c.oldAt - n, newAt := c.newAt - n, lines }

def moveDown (c : Chunk) (n : Nat) (lines : List String) : Chunk :=
  { c with oldAt := c.oldAt + n, newAt := c.newAt + n, lines }

end Chunk

namespace Script

def old (s : Script) : List String := s.flatMap Chunk.old

def new (s : Script) : List String := s.flatMap Chunk.new

end Script

def commonStart : List String → List String → Nat
  | a :: as, b :: bs => if a = b then commonStart as bs + 1 else 0
  | _, _ => 0

def commonEnd (a b : List String) : Nat := commonStart a.reverse b.reverse

end SafeRefactor.Diff
