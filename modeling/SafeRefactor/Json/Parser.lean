import SafeRefactor.Json.Value
import SafeRefactor.Text.Hexadecimal

/-!
# Reading JSON

The standard grammar and nothing else. Nesting is limited, and a lone half of a surrogate pair is an
error.
-/

set_option autoImplicit false

namespace SafeRefactor.Json

def maxNesting : Nat := 127

def isBlank (c : Char) : Bool := c = ' ' || c = '\t' || c = '\n' || c = '\r'

def skipBlanks (cs : List Char) : List Char := cs.dropWhile isBlank

def hex4? (a b c d : Char) : Option Nat := do
  let a ← Text.hexValue? a
  let b ← Text.hexValue? b
  let c ← Text.hexValue? c
  let d ← Text.hexValue? d
  some (((a * 16 + b) * 16 + c) * 16 + d)

def unescape? (c : Char) : Option Char :=
  if c = '\x22' ∨ c = '\\' ∨ c = '/' then some c
  else if c = 'b' then some '\x08'
  else if c = 'f' then some '\x0c'
  else if c = 'n' then some '\n'
  else if c = 'r' then some '\r'
  else if c = 't' then some '\t'
  else none

def isHigh (n : Nat) : Bool := 0xD800 ≤ n && n < 0xDC00

def isLow (n : Nat) : Bool := 0xDC00 ≤ n && n < 0xE000

def readString : List Char → (acc : List Char) → Option (String × List Char)
  | '\x22' :: cs, acc => some (String.ofList acc.reverse, cs)
  | '\\' :: 'u' :: a :: b :: c :: d :: '\\' :: 'u' :: e :: f :: g :: h :: cs, acc =>
    match hex4? a b c d with
    | none => none
    | some n =>
      if isHigh n then
        match hex4? e f g h with
        | none => none
        | some m =>
          if isLow m then
            readString cs (Char.ofNat (0x10000 + (n - 0xD800) * 1024 + (m - 0xDC00)) :: acc)
          else none
      else if isLow n then none
      else readString ('\\' :: 'u' :: e :: f :: g :: h :: cs) (Char.ofNat n :: acc)
  | '\\' :: 'u' :: a :: b :: c :: d :: cs, acc =>
    match hex4? a b c d with
    | none => none
    | some n => if isHigh n || isLow n then none else readString cs (Char.ofNat n :: acc)
  | '\\' :: c :: cs, acc =>
    match unescape? c with
    | none => none
    | some d => readString cs (d :: acc)
  | c :: cs, acc => if c.toNat < 32 ∨ c = '\\' then none else readString cs (c :: acc)
  | [], _ => none

def digitsValue (cs : List Char) : Nat := cs.foldl (fun n c => n * 10 + (c.toNat - 48)) 0

def readDigits? (cs : List Char) : Option (List Char × List Char) :=
  let ds := cs.takeWhile Char.isDigit
  if ds.isEmpty then none else some (ds, cs.drop ds.length)

def readFraction? : List Char → Option (List Char × List Char)
  | '.' :: cs => (readDigits? cs).map fun (ds, rest) => ('.' :: ds, rest)
  | cs => some ([], cs)

def readExponent? : List Char → Option (List Char × List Char)
  | e :: cs =>
    if e = 'e' ∨ e = 'E' then
      match cs with
      | s :: ds =>
        if s = '+' ∨ s = '-' then (readDigits? ds).map fun (n, rest) => (e :: s :: n, rest)
        else (readDigits? cs).map fun (n, rest) => (e :: n, rest)
      | [] => none
    else some ([], e :: cs)
  | [] => some ([], [])

/-- A number. Zero stands alone before a point. A number that is no integer from `-2^63` to `2^64 -
1`, and a negative zero, count as real. -/
def readNumber (cs : List Char) : Option (Json × List Char) := do
  let (negative, unsigned) := match cs with
    | '-' :: rest => (true, rest)
    | _ => (false, cs)
  let (digits, rest) ← readDigits? unsigned
  if digits.head? = some '0' ∧ 1 < digits.length then none
  else
    let (fraction, rest) ← readFraction? rest
    let (exponent, rest) ← readExponent? rest
    let value := digitsValue digits
    let sign := if negative then ['-'] else []
    let small := if negative then value ≤ Nat.pow 2 63 ∧ value ≠ 0 else value < Nat.pow 2 64
    if fraction.isEmpty ∧ exponent.isEmpty ∧ small then
      some (integer (if negative then -(value : Int) else value), rest)
    else some (real (String.ofList (sign ++ digits ++ fraction ++ exponent)), rest)

def readWord? (cs : List Char) : Option (Json × List Char) :=
  match cs with
  | 'n' :: 'u' :: 'l' :: 'l' :: rest => some (null, rest)
  | 't' :: 'r' :: 'u' :: 'e' :: rest => some (bool true, rest)
  | 'f' :: 'a' :: 'l' :: 's' :: 'e' :: rest => some (bool false, rest)
  | _ => none

/-- The items of an array after the first, up to its end. `fuel` bounds their number. -/
def readItems (read : List Char → Option (Json × List Char)) :
    Nat → List Json → List Char → Option (List Json × List Char)
  | 0, _, _ => none
  | fuel + 1, acc, cs =>
    match skipBlanks cs with
    | ']' :: rest => some (acc.reverse, rest)
    | ',' :: rest =>
      match read (skipBlanks rest) with
      | some (v, rest) => readItems read fuel (v :: acc) rest
      | none => none
    | _ => none

def readMember (read : List Char → Option (Json × List Char)) (cs : List Char) :
    Option ((String × Json) × List Char) :=
  match skipBlanks cs with
  | '\x22' :: rest => do
    let (k, rest) ← readString rest []
    match skipBlanks rest with
    | ':' :: rest => do
      let (v, rest) ← read (skipBlanks rest)
      some ((k, v), rest)
    | _ => none
  | _ => none

/-- The members of an object after the first, up to its end. `fuel` bounds their number. -/
def readMembers (read : List Char → Option (Json × List Char)) :
    Nat → List (String × Json) → List Char → Option (List (String × Json) × List Char)
  | 0, _, _ => none
  | fuel + 1, acc, cs =>
    match skipBlanks cs with
    | '\x7d' :: rest => some (acc.reverse, rest)
    | ',' :: rest =>
      match readMember read rest with
      | some (m, rest) => readMembers read fuel (m :: acc) rest
      | none => none
    | _ => none

/-- A value at the beginning of a text, and what follows it. `depth` is how much deeper it may nest.
-/
def readValue : (depth : Nat) → List Char → Option (Json × List Char)
  | depth, cs =>
    match cs with
    | '\x22' :: rest => (readString rest []).map fun (s, rest) => (string s, rest)
    | '[' :: rest =>
      match depth with
      | 0 => none
      | depth + 1 =>
        match skipBlanks rest with
        | ']' :: rest => some (array [], rest)
        | rest =>
          match readValue depth rest with
          | none => none
          | some (v, rest) =>
            (readItems (readValue depth) (rest.length + 1) [v] rest).map fun (vs, rest) =>
              (array vs, rest)
    | '\x7b' :: rest =>
      match depth with
      | 0 => none
      | depth + 1 =>
        match skipBlanks rest with
        | '\x7d' :: rest => some (object [], rest)
        | rest =>
          match readMember (readValue depth) rest with
          | none => none
          | some (m, rest) =>
            (readMembers (readValue depth) (rest.length + 1) [m] rest).map fun (ms, rest) =>
              (object ms, rest)
    | c :: _ => if c = '-' ∨ c.isDigit then readNumber cs else readWord? cs
    | [] => none

def parse (text : String) : Option Json :=
  match readValue maxNesting (skipBlanks text.toList) with
  | some (v, rest) => if (skipBlanks rest).isEmpty then some v else none
  | none => none

end SafeRefactor.Json
