import SafeRefactor.Text.Lines

/-!
# Paths

A path is kept as it was written, because it is shown that way. Its parts decide what it names,
which directory it lies in, and how it compares with other paths. Two slashes count as one, and a
dot between slashes as nothing; a dot at the beginning of a path that is not absolute is a part of
its own.
-/

set_option autoImplicit false

namespace SafeRefactor.Path

inductive Part where
  | root
  | here
  | up
  | named (name : String)
  deriving DecidableEq, Repr

namespace Part

def rank : Part → Nat
  | root => 0
  | here => 1
  | up => 2
  | named _ => 3

def le (a b : Part) : Bool :=
  match a, b with
  | named m, named n => m < n || m == n
  | _, _ => a.rank ≤ b.rank

end Part

/-- The parts of the pieces between slashes, each with the number of characters of the path up to
its end. `start` is the number of characters before the pieces. -/
def partsFrom (start : Nat) (first : Bool) : List (List Char) → List (Part × Nat)
  | [] => []
  | p :: ps =>
    let stop := start + p.length
    let rest := partsFrom (stop + 1) false ps
    if p = [] then rest
    else if p = ['.'] then if first then (.here, stop) :: rest else rest
    else if p = ['.', '.'] then (.up, stop) :: rest
    else (.named (String.ofList p), stop) :: rest

def partsWithEnds (path : String) : List (Part × Nat) :=
  match path.toList with
  | '/' :: cs => (.root, 1) :: partsFrom 1 false (Text.splitAt '/' cs)
  | cs => partsFrom 0 true (Text.splitAt '/' cs)

def parts (path : String) : List Part := (partsWithEnds path).map (·.1)

def lePartLists : List Part → List Part → Bool
  | [], _ => true
  | _ :: _, [] => false
  | a :: as, b :: bs => if a = b then lePartLists as bs else a.le b

def le (a b : String) : Bool := lePartLists (parts a) (parts b)

def parent? (path : String) : Option String :=
  match (partsWithEnds path).reverse with
  | [] => none
  | (.root, _) :: _ => none
  | _ :: (_, stop) :: _ => some (String.ofList (path.toList.take stop))
  | [_] => some ""

def ancestors (path : String) : (count : Nat) → List String
  | 0 => []
  | count + 1 => path :: match parent? path with
    | some p => ancestors p count
    | none => []

def isAbsolute (path : String) : Bool := path.toList.head? = some '/'

def join (dir name : String) : String :=
  if isAbsolute name ∨ dir = "" then name
  else if dir.toList.getLast? = some '/' then dir ++ name
  else dir ++ "/" ++ name

def extension? (name : String) : Option String :=
  match (Text.splitAt '.' name.toList).reverse with
  | last :: before =>
    if before.isEmpty ∨ before = [[]] then none else some (String.ofList last)
  | [] => none

end SafeRefactor.Path
