import SafeRefactor.Syntax.Node
import SafeRefactor.Text.Identifier

/-!
# Scanning layout

Python marks the structure of a program by line ends and indentation. The scanner carries the
columns of the open blocks and the open string literals, and decides, from what the parser can use
next, whether the gap ahead is a line end, opens a block, closes one, or leads to a string literal.
-/

set_option autoImplicit false

namespace SafeRefactor.Syntax

structure Quote where
  mark : Char
  triple : Bool := false
  interpolates : Bool := false
  raw : Bool := false
  bytes : Bool := false
  deriving DecidableEq, Repr

structure Scan where
  rest : List Char
  here : Point
  indents : List Nat
  quotes : List Quote
  inside : Bool
  budget : Nat
  deriving Repr

structure Expect where
  newline : Bool := false
  indent : Bool := false
  dedent : Bool := false
  string : Bool := false
  closer : Bool := false
  handler : Bool := false
  deriving DecidableEq, Repr

namespace Scan

def ofText (cs : List Char) : Scan where
  rest := cs
  here := .origin
  indents := [0]
  quotes := []
  inside := false
  budget := cs.length + 1

def advance : Nat → Scan → Scan
  | 0, s => s
  | n + 1, s =>
    match s.rest with
    | [] => s
    | c :: cs => advance n { s with rest := cs, here := s.here.advance c }

def dropWhile (p : Char → Bool) : List Char → Point → List Char × Point
  | [], here => ([], here)
  | c :: cs, here => if p c then dropWhile p cs (here.advance c) else (c :: cs, here)

def skipWhile (p : Char → Bool) (s : Scan) : Scan :=
  let (rest, here) := dropWhile p s.rest s.here
  { s with rest := rest, here := here }

def skipMark (s : Scan) : Scan :=
  if s.here.offset = 0 ∧ s.rest.head? = some '\uFEFF' then s.advance 1 else s

def peek? (s : Scan) : Option Char := s.rest.head?

def ahead (s : Scan) (text : String) : Bool := text.toList.isPrefixOf s.rest

def width (s : Scan) : Nat := s.indents.headD 0

end Scan

def isSpace (c : Char) : Bool :=
  let n := c.toNat
  (9 ≤ n && n ≤ 13) || n == 32 || n == 0xFEFF || n == 0x2060 || n == 0x200B

structure Gap where
  ends : Bool
  width : Nat
  comment : Option Nat
  rest : List Char
  here : Point

/-- Measures the gap at the beginning of a text. A blank counts one column and a tab eight. Comments
are part of the gap if `comments` holds; then a comment on the line where the gap begins ends the
measurement without a result, as does a backslash that does not join lines. -/
def measure (comments : Bool) : List Char → Point → (within : Bool) → Bool → Nat → Option Nat →
    Option Gap
  | [], here, _, _, _, comment => some ⟨true, 0, comment, [], here⟩
  | c :: cs, here, true, ends, width, comment =>
    if c = '\n' then measure comments cs (here.advance c) false ends 0 comment
    else measure comments cs (here.advance c) true ends width comment
  | c :: cs, here, false, ends, width, comment =>
    if c = '\n' then measure comments cs (here.advance c) false true 0 comment
    else if c = ' ' then measure comments cs (here.advance c) false ends (width + 1) comment
    else if c = '\r' ∨ c = '\x0c' then measure comments cs (here.advance c) false ends 0 comment
    else if c = '\t' then measure comments cs (here.advance c) false ends (width + 8) comment
    else if c = '#' ∧ comments then
      if ends then
        measure comments cs (here.advance c) true ends width (comment.or (some width))
      else none
    else if c = '\\' then
      match cs with
      | '\n' :: ds => measure comments ds ((here.advance c).advance '\n') false ends width comment
      | '\r' :: '\n' :: ds =>
        measure comments ds (((here.advance c).advance '\r').advance '\n') false ends width comment
      | '\r' :: [] => measure comments [] ((here.advance c).advance '\r') false ends width comment
      | [] => measure comments [] (here.advance c) false ends width comment
      | _ => none
    else some ⟨ends, width, comment, c :: cs, here⟩

def readLetters : List Char → Point → Quote → Quote × List Char × Point
  | [], here, q => (q, [], here)
  | c :: cs, here, q =>
    if c = 'f' ∨ c = 'F' then readLetters cs (here.advance c) { q with interpolates := true }
    else if c = 'r' ∨ c = 'R' then readLetters cs (here.advance c) { q with raw := true }
    else if c = 'b' ∨ c = 'B' then readLetters cs (here.advance c) { q with bytes := true }
    else if c = 'u' ∨ c = 'U' then readLetters cs (here.advance c) q
    else (q, c :: cs, here)

def readOpening (cs : List Char) (here : Point) : Option (Quote × List Char × Point) :=
  let (q, rest, here) := readLetters cs here ⟨'\x60', false, false, false, false⟩
  match rest with
  | '\x60' :: ds => some (q, ds, here.advance '\x60')
  | m :: ds =>
    if m = '\x22' ∨ m = '\x27' then
      match ds with
      | a :: b :: es =>
        if a = m ∧ b = m then
          some ({ q with mark := m, triple := true }, es, ((here.advance m).advance m).advance m)
        else some ({ q with mark := m }, ds, here.advance m)
      | _ => some ({ q with mark := m }, ds, here.advance m)
    else none
  | [] => none

inductive LayoutToken where
  | newline
  | indent
  | dedent
  | quote
  deriving DecidableEq, Repr

structure Layout where
  token : LayoutToken
  start : Point
  scan : Scan

def Scan.layout? (s : Scan) (e : Expect) : Option Layout :=
  let s := s.skipMark
  match measure (e.indent || e.dedent || e.newline || e.handler)
    s.rest s.here false false 0 none with
  | none => none
  | some gap =>
    let stringAhead := match gap.rest with
      | c :: _ => c = '\x22' || c = '\x27' || c = '\x60'
      | [] => false
    let closes := e.dedent || (!e.newline && !(e.string && stringAhead) && !e.closer)
    let commentInside := match gap.comment with
      | some w => s.width ≤ w
      | none => false
    if gap.ends && e.indent && s.width < gap.width then
      some ⟨.indent, s.here, { s with indents := gap.width :: s.indents }⟩
    else if gap.ends && closes && gap.width < s.width && !s.inside && !commentInside then
      some ⟨.dedent, s.here, { s with indents := s.indents.tail }⟩
    else if gap.ends && e.newline then some ⟨.newline, s.here, s⟩
    else if gap.comment.isNone && e.string then
      match readOpening gap.rest gap.here with
      | some (q, rest, here) =>
        some ⟨.quote, gap.here,
          { s with rest := rest, here := here, quotes := q :: s.quotes, inside := q.interpolates }⟩
      | none => none
    else none

end SafeRefactor.Syntax
