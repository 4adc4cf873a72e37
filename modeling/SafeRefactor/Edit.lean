import SafeRefactor.LineRange
import SafeRefactor.Sort
import SafeRefactor.Text.Lines

/-!
# Line edits

An edit replaces a range of whole lines. A list of edits is applied as a whole or not at all: ranges
have to lie inside the text and must not share a line. Lines that no edit touches stay as they are,
to the byte; new lines get the terminators that the text uses.
-/

set_option autoImplicit false

namespace SafeRefactor

structure Edit where
  range : LineRange
  replacement : String
  deriving DecidableEq, Repr

/-- Why edits are not applied. The last four are crashes while lines are replaced: a line number
below one, a line that the text lacks, lines that end before they start, and lines that were gone
already. -/
inductive EditError where
  | outOfRange (range : LineRange) (lines : Nat)
  | overlapping (first second : LineRange)
  | endsBeforeText
  | pastText (index lines : Nat)
  | inverted (start stop : Nat)
  | pastOutput (stop lines : Nat)
  deriving DecidableEq, Repr

namespace EditError

def crashLead : String := "execution panicked: "

def message : EditError → String
  | outOfRange r n => s!"fix span {r.first}-{r.last} lies outside the source ({n} lines)"
  | overlapping a b => s!"overlapping fixes at lines {a.first}-{a.last} and {b.first}-{b.last}"
  | endsBeforeText => crashLead ++ "attempt to subtract with overflow"
  | pastText i n => crashLead ++ s!"index out of bounds: the len is {n} but the index is {i}"
  | inverted s e => crashLead ++ s!"slice index starts at {s} but ends at {e}"
  | pastOutput e n => crashLead ++ s!"range end index {e} out of range for slice of length {n}"

def isCrash : EditError → Bool
  | endsBeforeText | pastText _ _ | inverted _ _ | pastOutput _ _ => true
  | outOfRange _ _ | overlapping _ _ => false

end EditError

namespace Edit

def le (a b : Edit) : Bool := a.range.le b.range

def firstOutOfRange? (n : Nat) : List Edit → Option LineRange
  | [] => none
  | e :: es =>
    if e.range.first = 0 ∨ n < e.range.last then some e.range else firstOutOfRange? n es

def firstOverlap? : List Edit → Option (LineRange × LineRange)
  | a :: b :: es => if a.range.overlaps b.range then some (a.range, b.range)
      else firstOverlap? (b :: es)
  | _ => none

def terminatorOf (line : List Char) : List Char :=
  match line.reverse with
  | '\n' :: '\r' :: _ => ['\r', '\n']
  | '\n' :: _ => ['\n']
  | _ => []

def terminatorStyle (source : List Char) : List Char :=
  if Text.hasInfix ['\r', '\n'] source then ['\r', '\n'] else ['\n']

def terminate (eol final : List Char) : List (List Char) → List (List Char)
  | [] => []
  | [p] => [p ++ final]
  | p :: ps => (p ++ eol) :: terminate eol final ps

def block (eol final : List Char) (replacement : List Char) : List (List Char) :=
  if replacement.isEmpty then []
  else terminate eol final ((Text.splitAt '\n' replacement).map (Text.dropEndWhile (· = '\r')))

def splice (eol : List Char) (lines : List (List Char)) (e : Edit) (out : List (List Char)) :
    Except EditError (List (List Char)) :=
  let start := e.range.first - 1
  let stop := e.range.last
  if e.range.first = 0 ∨ stop = 0 then .error .endsBeforeText
  else
    match lines[stop - 1]? with
    | none => .error (.pastText (stop - 1) lines.length)
    | some line =>
      if stop < start then .error (.inverted start stop)
      else if out.length < stop then .error (.pastOutput stop out.length)
      else .ok (out.take start ++ block eol (terminatorOf line) e.replacement.toList ++
        out.drop stop)

def spliceAll (eol : List Char) (lines : List (List Char)) :
    List Edit → Except EditError (List (List Char))
  | [] => .ok lines
  | e :: es =>
    match spliceAll eol lines es with
    | .error err => .error err
    | .ok out => splice eol lines e out

def applyAll (source : String) (edits : List Edit) : Except EditError String :=
  let lines := Text.pieces source.toList
  let ordered := sortBy le edits
  match firstOutOfRange? lines.length ordered with
  | some r => .error (.outOfRange r lines.length)
  | none =>
    match firstOverlap? ordered with
    | some (a, b) => .error (.overlapping a b)
    | none =>
      match spliceAll (terminatorStyle source.toList) lines ordered with
      | .error e => .error e
      | .ok out => .ok (String.ofList out.flatten)

end Edit

end SafeRefactor
