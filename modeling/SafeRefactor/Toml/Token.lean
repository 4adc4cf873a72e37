import SafeRefactor.Toml.Fault

/-!
# Tokens of a TOML text

The text is cut into tokens without looking at what they mean. A string that does not close reaches
to the end of its line, or of the text if it may span lines; it is faulted only when it is read.
-/

set_option autoImplicit false

namespace SafeRefactor.Toml

inductive Quoting where
  | literal
  | basic
  | literalLines
  | basicLines
  deriving DecidableEq, Repr

inductive TokenKind where
  | dot
  | equals
  | comma
  | openArray
  | closeArray
  | openTable
  | closeTable
  | blank
  | newline
  | comment
  | string (quoting : Quoting)
  | atom
  | eof
  deriving DecidableEq, Repr

structure Token where
  kind : TokenKind
  text : List Char
  span : Span
  deriving DecidableEq, Repr

def lineStringLength (mark : Char) : List Char → Nat
  | [] => 0
  | c :: cs =>
    if c = mark then 1
    else if c = '\n' ∨ c = '\r' then 0
    else if c = '\\' ∧ mark = '\x22' then
      match cs with
      | d :: ds => if d = '\\' ∨ d = '\x22' then lineStringLength mark ds + 2
        else lineStringLength mark (d :: ds) + 1
      | [] => 1
    else lineStringLength mark cs + 1

def linesStringLength (mark : Char) : List Char → Nat
  | [] => 0
  | c :: cs =>
    if c = mark ∧ cs.take 2 = [mark, mark] then
      3 + (((cs.drop 2).take 2).takeWhile (· = mark)).length
    else if c = '\\' ∧ mark = '\x22' then
      match cs with
      | _ :: ds => linesStringLength mark ds + 2
      | [] => 1
    else linesStringLength mark cs + 1

def endsAtom (c : Char) : Bool :=
  c ∈ ['.', '=', ',', '[', ']', '\x7b', '\x7d', ' ', '\t', '#', '\r', '\n']

def tokenAt (c : Char) (cs : List Char) : TokenKind × Nat :=
  if c = '.' then (.dot, 1)
  else if c = '=' then (.equals, 1)
  else if c = ',' then (.comma, 1)
  else if c = '[' then (.openArray, 1)
  else if c = ']' then (.closeArray, 1)
  else if c = '\x7b' then (.openTable, 1)
  else if c = '\x7d' then (.closeTable, 1)
  else if c = ' ' ∨ c = '\t' then (.blank, 1 + (cs.takeWhile fun d => d = ' ' || d = '\t').length)
  else if c = '#' then (.comment, 1 + (cs.takeWhile fun d => d ≠ '\r' && d ≠ '\n').length)
  else if c = '\n' then (.newline, 1)
  else if c = '\r' then (.newline, if cs.head? = some '\n' then 2 else 1)
  else if c = '\x27' then
    if cs.take 2 = ['\x27', '\x27'] then
      (.string .literalLines, 3 + linesStringLength c (cs.drop 2))
    else (.string .literal, 1 + lineStringLength c cs)
  else if c = '\x22' then
    if cs.take 2 = ['\x22', '\x22'] then (.string .basicLines, 3 + linesStringLength c (cs.drop 2))
    else (.string .basic, 1 + lineStringLength c cs)
  else (.atom, 1 + (cs.takeWhile fun d => !endsAtom d).length)

def tokensFrom : Nat → List Char → (start : Nat) → List Token
  | 0, _, start => [⟨.eof, [], ⟨start, start⟩⟩]
  | _ + 1, [], start => [⟨.eof, [], ⟨start, start⟩⟩]
  | fuel + 1, c :: cs, start =>
    let (kind, n) := tokenAt c cs
    let text := (c :: cs).take n
    let stop := start + Text.byteLength text
    ⟨kind, text, ⟨start, stop⟩⟩ :: tokensFrom fuel ((c :: cs).drop n) stop

def tokens (cs : List Char) : List Token :=
  match cs with
  | '\uFEFF' :: ds => tokensFrom (ds.length + 1) ds 3
  | _ => tokensFrom (cs.length + 1) cs 0

end SafeRefactor.Toml
