import SafeRefactor.Syntax.Scan

/-!
# Looking ahead

The parser always holds the next token, read with the expectations that hold at that point, and the
comments and line continuations before it. What it builds is a forest: a row of nodes, of extras
that may still float out of the node being built, and of tokens that take up space without being
shown.
-/

set_option autoImplicit false

namespace SafeRefactor.Syntax

inductive Piece where
  | node (n : Node)
  | extra (n : Node)
  | hidden (start stop : Point)

abbrev Forest := List Piece

namespace Piece

def start : Piece → Point
  | node n | extra n => n.start
  | hidden s _ => s

def stop : Piece → Point
  | node n | extra n => n.stop
  | hidden _ e => e

def isExtra : Piece → Bool
  | extra _ => true
  | _ => false

def node? : Piece → Option Node
  | node n | extra n => some n
  | hidden _ _ => none

end Piece

def Node.leaf (kind : Kind) (start stop : Point) : Node := .mk { kind, start, stop } []

namespace Forest

def nodes (f : Forest) : List Node := f.filterMap Piece.node?

def head? (f : Forest) : Option Node :=
  f.findSome? fun
    | .node n => some n
    | _ => none

def lastStop (here : Point) : Forest → Point
  | [] => here
  | p :: ps => lastStop p.stop ps

def wrapKind (kind : Kind) (f : Forest) : Forest :=
  let before := f.takeWhile Piece.isExtra
  let body := f.dropWhile Piece.isExtra
  let after := (body.reverse.takeWhile Piece.isExtra).reverse
  let inner := (body.reverse.dropWhile Piece.isExtra).reverse
  match inner with
  | [] => f
  | p :: ps =>
    before ++
      .node (.mk { kind, start := p.start, stop := lastStop p.stop ps } (nodes inner)) :: after

def wrap (form : Form) (f : Forest) : Forest := wrapKind (.named form) f

def withRole (r : Role) (f : Forest) : Forest :=
  f.map fun
    | .node (.mk l cs) => .node (.mk { l with role := l.role.or (some r) } cs)
    | p => p

end Forest

inductive Token where
  | newline
  | indent
  | dedent
  | quote
  | word (text : String)
  | symbol
  | eof
  deriving DecidableEq, Repr

structure Look where
  before : Scan
  extras : Forest
  token : Token
  start : Point
  scan : Scan

def continuationLength : List Char → Option Nat
  | '\\' :: '\x00' :: _ => some 2
  | '\\' :: '\n' :: _ => some 2
  | '\\' :: '\r' :: '\n' :: _ => some 3
  | _ => none

namespace Scan

def leaf (s : Scan) (kind : Kind) (n : Nat) : Node × Scan :=
  let t := s.advance n
  (.leaf kind s.here t.here, t)

/-- Reads the next token. `fuel` bounds the number of extras before it. -/
def lookFrom (e : Expect) (before : Scan) : Nat → Scan → Forest → Look
  | 0, s, extras => ⟨before, extras.reverse, .eof, s.here, s⟩
  | fuel + 1, s, extras =>
    match s.layout? e with
    | some l =>
      let token := match l.token with
        | .newline => Token.newline
        | .indent => Token.indent
        | .dedent => Token.dedent
        | .quote => Token.quote
      ⟨before, extras.reverse, token, l.start, l.scan⟩
    | none =>
      let t := s.skipMark.skipWhile isSpace
      match t.rest with
      | [] => ⟨before, extras.reverse, .eof, t.here, t⟩
      | c :: cs =>
        if c = '#' then
          let u := t.skipWhile (· ≠ '\n')
          lookFrom e before fuel u (.extra (.leaf (.named .comment) t.here u.here) :: extras)
        else
          match continuationLength (c :: cs) with
          | some n =>
            let (node, u) := t.leaf (.named .lineContinuation) n
            lookFrom e before fuel u (.extra node :: extras)
          | none =>
            if Text.startsName c then
              ⟨before, extras.reverse, .word (String.ofList (c :: cs.takeWhile Text.continuesName)),
                t.here, t⟩
            else ⟨before, extras.reverse, .symbol, t.here, t⟩

def look (s : Scan) (e : Expect) : Look := lookFrom e s s.budget s []

end Scan

structure Parsed where
  forest : Forest
  next : Look

abbrev Reader := Look → Option Parsed

namespace Parsed

def wrap (form : Form) (r : Parsed) : Parsed := { r with forest := r.forest.wrap form }

def withRole (role : Role) (r : Parsed) : Parsed := { r with forest := r.forest.withRole role }

def after (f : Forest) (r : Parsed) : Parsed := { r with forest := f ++ r.forest }

end Parsed

namespace Look

def has (l : Look) (text : String) : Bool := l.token = .symbol && l.scan.ahead text

def isWord (l : Look) (text : String) : Bool := l.token = .word text

def word? (l : Look) : Option String :=
  match l.token with
  | .word w => some w
  | _ => none

def symbol? (l : Look) : Option Char := if l.token = .symbol then l.scan.peek? else none

def secondSymbol? (l : Look) : Option Char := if l.token = .symbol then l.scan.rest[1]? else none

def wordLength (l : Look) : Nat :=
  match l.token with
  | .word w => w.length
  | _ => 0

def again (l : Look) (e : Expect) : Look := l.before.look e

def shift (l : Look) (kind : Kind) (n : Nat) (e : Expect) : Parsed :=
  let (node, s) := l.scan.leaf kind n
  ⟨l.extras ++ [.node node], s.look e⟩

def shiftSymbol (l : Look) (text : String) (e : Expect) : Parsed :=
  l.shift (.token text) text.length e

def shiftKeyword (l : Look) (e : Expect) : Parsed :=
  l.shift (.token (l.word?.getD "")) l.wordLength e

def shiftName (l : Look) (e : Expect) : Parsed := l.shift (.named .identifier) l.wordLength e

def shiftHidden (l : Look) (e : Expect) : Parsed :=
  ⟨l.extras ++ [.hidden l.start l.start], l.scan.look e⟩

end Look

end SafeRefactor.Syntax
