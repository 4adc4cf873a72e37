import SafeRefactor.Diff.Token
import SafeRefactor.Diff.Search
import SafeRefactor.Diff.Compaction

/-!
# Unified diffs

A diff shows each change with three lines of context around it. Changes whose contexts touch share a
hunk. A line without a terminator is followed by a remark that says so.
-/

set_option autoImplicit false

namespace SafeRefactor.Diff

inductive Block where
  | same (oldAt newAt : Nat) (lines : List String)
  | change (oldAt newAt : Nat) (removed added : List String)
  deriving DecidableEq, Repr

namespace Block

def oldAt : Block → Nat
  | same i _ _ | change i _ _ _ => i

def newAt : Block → Nat
  | same _ j _ | change _ j _ _ => j

def oldLength : Block → Nat
  | same _ _ ls => ls.length
  | change _ _ rs _ => rs.length

def newLength : Block → Nat
  | same _ _ ls => ls.length
  | change _ _ _ as => as.length

end Block

structure Pending where
  removed : Option (Nat × Nat × List String) := none
  added : Option (Nat × Nat × List String) := none

namespace Pending

/-- The change so far. A change of one kind stands where its first chunk was placed. -/
def flush (p : Pending) : List Block :=
  match p.removed, p.added with
  | some (i, _, rs), some (_, j, as) => [.change i j rs as]
  | some (i, j, rs), none => [.change i j rs []]
  | none, some (i, j, as) => [.change i j [] as]
  | none, none => []

def remove (p : Pending) (c : Chunk) : Pending :=
  match p.removed with
  | some (i, j, rs) => { p with removed := some (i, j, rs ++ c.lines) }
  | none => { p with removed := some (c.oldAt, c.newAt, c.lines) }

def add (p : Pending) (c : Chunk) : Pending :=
  match p.added with
  | some (i, j, as) => { p with added := some (i, j, as ++ c.lines) }
  | none => { p with added := some (c.oldAt, c.newAt, c.lines) }

end Pending

def blocksFrom : Pending → Script → List Block
  | p, [] => p.flush
  | p, c :: cs =>
    match c.tag with
    | .removed => blocksFrom (p.remove c) cs
    | .added => blocksFrom (p.add c) cs
    | .same =>
      p.flush ++
        match blocksFrom {} cs with
        | .same _ _ ls :: bs => .same c.oldAt c.newAt (c.lines ++ ls) :: bs
        | bs => .same c.oldAt c.newAt c.lines :: bs

def blocks (s : Script) : List Block := blocksFrom {} s

def contextRadius : Nat := 3

def lastLines (i j : Nat) (ls : List String) : Block :=
  let n := ls.length - contextRadius
  .same (i + n) (j + n) (ls.drop n)

def firstLines (i j : Nat) (ls : List String) : Block := .same i j (ls.take contextRadius)

def trimStart : List Block → List Block
  | .same i j ls :: bs => lastLines i j ls :: bs
  | bs => bs

def trimEnd : List Block → List Block
  | [] => []
  | [.same i j ls] => [firstLines i j ls]
  | b :: bs => b :: trimEnd bs

/-- Cuts a list of blocks into hunks, in the middle of long stretches of common lines. `hunk` is the
hunk so far, last block first. -/
def hunksFrom : (hunk : List Block) → List Block → List (List Block)
  | hunk, [] =>
    match hunk with
    | [] => []
    | [.same _ _ _] => []
    | _ => [hunk.reverse]
  | hunk, b :: bs =>
    match b with
    | .same i j ls =>
      if 2 * contextRadius < ls.length then
        (firstLines i j ls :: hunk).reverse :: hunksFrom [lastLines i j ls] bs
      else hunksFrom (b :: hunk) bs
    | .change _ _ _ _ => hunksFrom (b :: hunk) bs

def hunks (s : Script) : List (List Block) := hunksFrom [] (trimEnd (trimStart (blocks s)))

/-- A range in the header of a hunk, given by its first line, zero-based, and the line after its
last. An empty range is given by the line before it. -/
def renderRange (start stop : Nat) : String :=
  if stop = start + 1 then toString (start + 1)
  else if stop ≤ start then toString start ++ ",0"
  else toString (start + 1) ++ "," ++ toString (stop - start)

def renderLine (sign : String) (line : String) : String :=
  if isTerminated line then sign ++ line else sign ++ line ++ "\n\\ No newline at end of file\n"

def renderBlock : Block → String
  | .same _ _ ls => String.join (ls.map (renderLine " "))
  | .change _ _ rs as =>
    String.join (rs.map (renderLine "-")) ++ String.join (as.map (renderLine "+"))

def renderHeader (first last : Block) : String :=
  "@@ -" ++ renderRange first.oldAt (last.oldAt + last.oldLength) ++ " +" ++
    renderRange first.newAt (last.newAt + last.newLength) ++ " @@\n"

def renderHunk (hunk : List Block) : String :=
  match hunk with
  | [] => ""
  | b :: bs => renderHeader b ((b :: bs).getLastD b) ++ String.join (hunk.map renderBlock)

structure Labels where
  old : String
  new : String
  deriving DecidableEq, Repr

namespace Labels

def generic : Labels := ⟨"original", "refactored"⟩

def ofSource : Option String → Labels
  | some id => ⟨"a/" ++ id, "b/" ++ id⟩
  | none => generic

end Labels

def unified (labels : Labels) (old new : String) : String :=
  if old = new then ""
  else
    match hunks (compact (findScript (tokens old) (tokens new))) with
    | [] => ""
    | hs => "--- " ++ labels.old ++ "\n+++ " ++ labels.new ++ "\n" ++
        String.join (hs.map renderHunk)

end SafeRefactor.Diff
