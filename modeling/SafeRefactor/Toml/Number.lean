import SafeRefactor.Binary64
import SafeRefactor.Text.Hexadecimal

/-!
# Numbers of a TOML text

The values of written numbers, and how they are shown: integers in base ten, other numbers by the
fewest digits that read back, without an exponent.
-/

set_option autoImplicit false

namespace SafeRefactor

namespace Binary64

def ofDecimal? (digits : Nat) (exponent : Int) : Option Binary64 :=
  let size := (Nat.toDigits 10 digits).length + exponent
  if digits = 0 ∨ size < -330 then some ⟨0, 0⟩
  else if 310 < size then none
  else
    let (a, b) := if 0 ≤ exponent then (digits * Nat.pow 10 exponent.toNat, 1)
      else (digits, Nat.pow 10 (-exponent).toNat)
    let e : Int := (a.log2 : Int) - b.log2 - 53
    let (n, d) := scale a b (-e)
    let e := max (if n / d < Nat.pow 2 53 then e else e + 1) (-1074)
    let (n, d) := scale a b (-e)
    let m := divNearest n d
    let (m, e) := if m = Nat.pow 2 53 then (Nat.pow 2 52, e + 1) else (m, e)
    if m = 0 then some ⟨0, 0⟩ else if 971 < e then none else some ⟨m, e⟩

def decimalPlace (a b : Nat) : Int :=
  let estimate : Int := ((a.log2 : Int) - b.log2) * 30103 / 100000
  let atLeast (k : Int) : Bool :=
    if 0 ≤ k then b * Nat.pow 10 k.toNat ≤ a else b ≤ a * Nat.pow 10 (-k).toNat
  ([estimate + 2, estimate + 1, estimate, estimate - 1].find? atLeast).getD (estimate - 2)

/-- The digits and the exponent of the decimal with `count` digits, next to a number, that reads
back as it. Of two the nearer one is taken. -/
def decimalOf? (x : Binary64) (count : Nat) : Option (Nat × Int) :=
  let (a, b) := x.ratio
  let k := decimalPlace a b - count + 1
  let (n, d) := if 0 ≤ k then (a, b * Nat.pow 10 k.toNat) else (a * Nat.pow 10 (-k).toNat, b)
  let low := n / d
  let near := if 2 * (n % d) ≤ d then [low, low + 1] else [low + 1, low]
  (near.find? fun c => ofDecimal? c k = some x).map fun c => (c, k)

def shortest (x : Binary64) : Nat × Int :=
  if x.mantissa = 0 then (0, 0)
  else ((List.range 17).findSome? fun n => decimalOf? x (n + 1)).getD (x.ratio.1, 0)

def toPositional (x : Binary64) : String :=
  let (digits, exponent) := shortest x
  let ds := Nat.toDigits 10 digits
  if 0 ≤ exponent then String.ofList (ds ++ List.replicate exponent.toNat '0') ++ ".0"
  else
    let places := (-exponent).toNat
    let ds := List.replicate (places + 1 - ds.length) '0' ++ ds
    let whole := ds.take (ds.length - places)
    let part := ds.drop (ds.length - places)
    String.ofList (whole ++ '.' :: part)

end Binary64

namespace Toml

def splitSign : List Char → Bool × List Char
  | '-' :: cs => (true, cs)
  | '+' :: cs => (false, cs)
  | cs => (false, cs)

def digitsValue (base : Nat) (cs : List Char) : Nat :=
  cs.foldl (fun n c => base * n + (Text.hexValue? c).getD 0) 0

def mentionInteger? (digits : List Char) (base : Nat) : Option String :=
  let (negative, ds) := splitSign digits
  let n := digitsValue base ds
  let text := "integer `" ++ (if negative ∧ n ≠ 0 then "-" else "") ++ toString n ++ "`"
  if ds.isEmpty then none
  else if n < Nat.pow 2 64 ∧ (!negative ∨ n ≤ Nat.pow 2 63) then some text
  else if n < Nat.pow 2 127 ∨ (negative ∧ n = Nat.pow 2 127) then some (text ++ " as i128")
  else if !negative ∧ n < Nat.pow 2 128 then some (text ++ " as u128")
  else none

def mentionFloat? (text : List Char) : Option String :=
  let (negative, cs) := splitSign text
  let sign := if negative then "-" else ""
  let shown : Option String :=
    if cs = "inf".toList then some (sign ++ "inf")
    else if cs = "nan".toList then some "NaN"
    else
      let whole := cs.takeWhile Char.isDigit
      let cs := cs.drop whole.length
      let part := match cs with
        | '.' :: rest => rest.takeWhile Char.isDigit
        | _ => []
      let cs := cs.dropWhile fun c => c = '.' || c.isDigit
      let (down, power) := splitSign cs.tail
      let power : Int := if down then -(digitsValue 10 power : Int) else digitsValue 10 power
      (Binary64.ofDecimal? (digitsValue 10 (whole ++ part)) (power - part.length)).map fun x =>
        sign ++ x.toPositional
  shown.map fun s => "floating point `" ++ s ++ "`"

end Toml

end SafeRefactor
