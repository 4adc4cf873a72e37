/-!
# Numbers with 53 significant bits

Durations are reported in seconds after a detour through binary floating point. This module computes
that detour exactly: the nearest number with 53 significant bits, and its nearest decimal with a
given number of places. Ties go to the even neighbour both times.
-/

set_option autoImplicit false

namespace SafeRefactor

def divNearest (a b : Nat) : Nat :=
  let q := a / b
  let r := a % b
  if b < 2 * r ∨ (2 * r = b ∧ q % 2 = 1) then q + 1 else q

structure Binary64 where
  mantissa : Nat
  exponent : Int
  deriving DecidableEq, Repr

namespace Binary64

def scale (a b : Nat) (e : Int) : Nat × Nat :=
  if 0 ≤ e then (a * Nat.pow 2 e.toNat, b) else (a, b * Nat.pow 2 (-e).toNat)

def ofRatio (a b : Nat) : Binary64 :=
  if a = 0 then ⟨0, 0⟩
  else
    let e : Int := (a.log2 : Int) - b.log2 - 53
    let (n, d) := scale a b (-e)
    let e := if n / d < Nat.pow 2 53 then e else e + 1
    let (n, d) := scale a b (-e)
    ⟨divNearest n d, e⟩

def ratio (x : Binary64) : Nat × Nat := scale x.mantissa 1 x.exponent

def add (x y : Binary64) : Binary64 :=
  let (a, b) := x.ratio
  let (c, d) := y.ratio
  ofRatio (a * d + c * b) (b * d)

def toFixed (x : Binary64) (places : Nat) : String :=
  let (a, b) := x.ratio
  let n := divNearest (a * Nat.pow 10 places) b
  let digits := toString (n % Nat.pow 10 places)
  toString (n / Nat.pow 10 places) ++ "." ++
    String.ofList (List.replicate (places - digits.length) '0') ++ digits

end Binary64

end SafeRefactor
