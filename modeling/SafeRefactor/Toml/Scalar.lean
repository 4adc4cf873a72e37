import SafeRefactor.Toml.Moment
import SafeRefactor.Toml.Quoted

/-!
# Simple values and keys of a TOML text

What a written piece of text stands for: a string, a number, a truth value or a point in time. A
piece without quotation marks that is none of these was probably meant as a string, and its fault
says so.
-/

set_option autoImplicit false

namespace SafeRefactor.Toml

inductive Scalar where
  | string (s : String)
  | integer (digits : List Char) (base : Nat)
  | float (text : List Char)
  | boolean (b : Bool)
  | moment
  deriving DecidableEq, Repr

namespace Written

def fault {α : Type} (w : Written) (description : String) (expected : List Expected)
    (start stop : Nat) :
    Except Fault α :=
  faultIn w.span.start description expected start stop

def size (w : Written) : Nat := Text.byteLength w.text

def faultBare {α : Type} (w : Written) : Except Fault α :=
  let closes (q : Quoting) : Bool := q.mark.toList.reverse.isPrefixOf w.text.reverse
  match [Quoting.literalLines, .basicLines, .literal, .basic].find? closes with
  | some q => w.fault "missing opening quote" [.spelling q.mark] 0 0
  | none => w.fault "string values must be quoted" [.description "literal string"] 0 w.size

def symbol (w : Written) (word description : String) (value : Scalar) : Except Fault Scalar :=
  if w.text = word.toList then .ok value
  else if ' ' ∈ w.text then w.faultBare
  else w.fault description [.spelling word] 0 w.size

/-- Refuses an underscore that is not between two digits. `digit` are the digits of the number, and
`offset` is where its text begins in the piece. -/
def checkUnderscores (w : Written) (digit : Char → Bool) (offset : Nat) :
    (previous : Option Char) → (place : Nat) → List Char → Except Fault Unit
  | _, _, [] => .ok ()
  | previous, place, c :: cs =>
    let between := previous.any digit && cs.head?.any digit
    if c = '_' ∧ !between then
      w.fault "`_` may only go between digits" [] (offset + place) (offset + place + 1)
    else checkUnderscores w digit offset (some c) (place + 1) cs

def decimalPart (w : Written) (leadingZero : Bool) (description : String) (place : Nat)
    (cs : List Char) :
    Except Fault (Nat × List Char) := do
  let run := cs.takeWhile fun c => c.isDigit || c = '_'
  let count := (run.filter Char.isDigit).length
  if count = 0 then w.fault description [.description "digits"] place place
  else if 1 < count ∧ cs.head? = some '0' ∧ !leadingZero then
    w.fault "unexpected leading zero" [] place (place + 1)
  else .ok (place + run.length, cs.drop run.length)

def checkFloat (w : Written) (place : Nat) (cs : List Char) : Except Fault Unit := do
  let (place, cs) ← w.decimalPart false "invalid mantissa" place cs
  let (place, cs) ← match cs with
    | '.' :: rest => w.decimalPart true "invalid fraction" (place + 1) rest
    | _ => .ok (place, cs)
  let (place, cs) ← match cs with
    | e :: rest =>
      if e = 'e' ∨ e = 'E' then
        match rest with
        | s :: more =>
          if s = '+' ∨ s = '-' then w.decimalPart true "invalid exponent" (place + 2) more
          else w.decimalPart true "invalid exponent" (place + 1) rest
        | [] => w.decimalPart true "invalid exponent" (place + 1) rest
      else .ok (place, cs)
    | [] => .ok (place, cs)
  if cs.isEmpty then .ok () else w.fault "invalid float" [] place w.size

def withoutUnderscores (cs : List Char) : List Char := cs.filter (· ≠ '_')

def float (w : Written) (place : Nat) (cs : List Char) : Except Fault Scalar := do
  w.checkFloat place cs
  w.checkUnderscores Char.isDigit 0 none 0 w.text
  return .float (withoutUnderscores w.text)

def decimal (w : Written) : Except Fault Scalar := do
  w.checkUnderscores Char.isDigit 0 none 0 w.text
  return .integer (withoutUnderscores w.text) 10

def numeric (w : Written) (place : Nat) (cs : List Char) : Except Fault Scalar := do
  let rest := cs.dropWhile Char.isDigit
  let noLeadingZero : Except Fault Unit :=
    if cs.head? = some '0' then w.fault "unexpected leading zero" [] place (place + 1) else .ok ()
  match rest with
  | [] =>
    noLeadingZero
    w.decimal
  | c :: _ =>
    if c = '-' ∨ c = ':' then
      match Moment.fault? w.text with
      | none => return .moment
      | some message => throw ⟨message, w.span⟩
    else if ' ' ∈ rest then w.faultBare
    else if rest.any fun c => c = '.' || c = 'e' || c = 'E' then w.float place cs
    else if c = '_' then
      noLeadingZero
      w.decimal
    else w.faultBare

def baseOf? (c : Char) : Option (Nat × String) :=
  if c = 'x' ∨ c = 'X' then some (16, "invalid hexadecimal number")
  else if c = 'o' ∨ c = 'O' then some (8, "invalid octal number")
  else if c = 'b' ∨ c = 'B' then some (2, "invalid binary number")
  else if c = 'd' ∨ c = 'D' then some (10, "invalid integer number")
  else none

def isDigitIn (base : Nat) (c : Char) : Bool := (Text.hexValue? c).any (· < base)

def checkBase (w : Written) (base : Nat) (description : String) : (place : Nat) → List Char →
    Except Fault Unit
  | _, [] => .ok ()
  | place, c :: cs =>
    if isDigitIn base c ∨ c = '_' then checkBase w base description (place + 1) cs
    else .error ⟨description, ⟨w.span.start + place, w.span.start + place⟩⟩

def afterZero (w : Written) (place : Nat) (signed : Bool) (cs : List Char) :
    Except Fault Scalar := do
  match cs with
  | [_] => return .integer w.text 10
  | _ :: letter :: digits =>
    match baseOf? letter with
    | none => w.numeric place cs
    | some (base, description) =>
      if signed then w.fault "integers with a radix cannot be signed" [] 0 1
      else if base = 10 then w.fault "redundant integer number prefix" [] place (place + 2)
      else if letter.isUpper then
        w.fault "radix must be lowercase" [.spelling (String.ofList ['0', letter.toLower])] place
          (place + 2)
      else match digits with
        | s :: _ =>
          if s = '+' ∨ s = '-' then w.fault "unexpected sign" [] (place + 2) (place + 3)
          else
            w.checkBase base description (place + 2) digits
            w.checkUnderscores (isDigitIn base) (place + 2) none 0 digits
            return .integer (withoutUnderscores digits) base
        | [] => return .integer [] base
  | [] => w.faultBare

def afterSign (w : Written) (place : Nat) : List Char → Except Fault Scalar
  | [] => w.faultBare
  | c :: cs =>
    if c = '+' ∨ c = '-' then w.fault "redundant numeric sign" [] place (place + 1)
    else if c = '0' then w.afterZero place true (c :: cs)
    else if c = '_' ∨ c.isDigit then w.numeric place (c :: cs)
    else if c = '.' then w.float 0 w.text
    else if c = 'i' ∨ c = 'I' then
      if c :: cs = "inf".toList then .ok (.float w.text)
      else w.fault "invalid float" [.spelling "inf"] place w.size
    else if c = 'n' ∨ c = 'N' then
      if c :: cs = "nan".toList then .ok (.float w.text)
      else w.fault "invalid float" [.spelling "nan"] place w.size
    else w.faultBare

def scalar (w : Written) : Except Fault Scalar :=
  match w.quoting, w.text with
  | some q, text => (decodeQuoted q text w.span.start).map .string
  | none, [] => w.faultBare
  | none, c :: cs =>
    if c = '+' ∨ c = '-' then w.afterSign 1 cs
    else if c = '0' then w.afterZero 0 false (c :: cs)
    else if c = '_' ∨ c.isDigit then w.numeric 0 (c :: cs)
    else if c = '.' then w.float 0 (c :: cs)
    else if c = 't' ∨ c = 'T' then w.symbol "true" "invalid boolean" (.boolean true)
    else if c = 'f' ∨ c = 'F' then w.symbol "false" "invalid boolean" (.boolean false)
    else if c = 'i' ∨ c = 'I' then w.symbol "inf" "invalid float" (.float w.text)
    else if c = 'n' ∨ c = 'N' then w.symbol "nan" "invalid float" (.float w.text)
    else w.faultBare

def isKeyChar (c : Char) : Bool := c.isAlphanum || c = '-' || c = '_'

def name (w : Written) : Except Fault String :=
  let wanted := [Expected.description "letters", .description "numbers", .spelling "-",
    .spelling "_"]
  match w.quoting with
  | some .literalLines =>
    w.fault "keys cannot be multi-line literal strings" [.description "literal string"] 0 w.size
  | some .basicLines =>
    w.fault "keys cannot be multi-line basic strings" [.description "basic string"] 0 w.size
  | some q => decodeQuoted q w.text w.span.start
  | none =>
    let good := w.text.takeWhile isKeyChar
    if w.text.isEmpty then w.fault "unquoted keys cannot be empty" wanted 0 0
    else if good.length < w.text.length then
      w.fault "invalid unquoted key" wanted good.length good.length
    else .ok (String.ofList w.text)

end Written

end SafeRefactor.Toml
