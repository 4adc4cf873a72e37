/-!
# Lines of a text

A text is cut after every line feed. `pieces` keeps the terminators, so that joining the pieces
gives the text back; `lines` drops a final `\n` or `\r\n` from each piece.
-/

set_option autoImplicit false

namespace SafeRefactor.Text

/-- The text cut after every line feed, terminators kept. The last piece has none if the text does
not end in a line feed; an empty text has no pieces. -/
def pieces : List Char → List (List Char)
  | [] => []
  | c :: cs =>
    if c = '\n' then [c] :: pieces cs
    else match pieces cs with
      | [] => [[c]]
      | p :: ps => (c :: p) :: ps

theorem flatten_pieces (cs : List Char) : (pieces cs).flatten = cs := by
  induction cs with
  | nil => rfl
  | cons c cs ih =>
    by_cases h : c = '\n'
    · simp [pieces, h, ih]
    · cases hp : pieces cs with
      | nil => simp [hp] at ih; simp [pieces, h, hp, ← ih]
      | cons p ps => simp [hp] at ih; simp [pieces, h, hp, ih]

/-- A piece without its line terminator, `\n` or `\r\n`. A `\r` alone is no terminator. -/
def stripTerminator (piece : List Char) : List Char :=
  match piece.reverse with
  | '\n' :: '\r' :: rest => rest.reverse
  | '\n' :: rest => rest.reverse
  | _ => piece

def lines (s : String) : List String :=
  (pieces s.toList).map fun p => String.ofList (stripTerminator p)

def splitAt (sep : Char) : List Char → List (List Char)
  | [] => [[]]
  | c :: cs =>
    if c = sep then [] :: splitAt sep cs
    else match splitAt sep cs with
      | [] => [[c]]
      | p :: ps => (c :: p) :: ps

def join (sep : String) (parts : List String) : String := sep.intercalate parts

def dropEndWhile (p : Char → Bool) (cs : List Char) : List Char :=
  (cs.reverse.dropWhile p).reverse

def hasInfix (sub : List Char) : List Char → Bool
  | [] => sub.isEmpty
  | c :: cs => sub.isPrefixOf (c :: cs) || hasInfix sub cs

def byteWidth (c : Char) : Nat := c.utf8Size

def byteLength : List Char → Nat
  | [] => 0
  | c :: cs => byteWidth c + byteLength cs

def takeBytes : List Char → Nat → Option (List Char)
  | _, 0 => some []
  | [], _ + 1 => none
  | c :: cs, n + 1 =>
    if byteWidth c ≤ n + 1 then (takeBytes cs (n + 1 - byteWidth c)).map (c :: ·) else none

end SafeRefactor.Text
