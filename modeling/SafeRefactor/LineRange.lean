/-!
# Ranges of lines

A range of whole source lines, one-based and inclusive. Ranges that are read from outside may be
ill-formed; `LineRange.of` only builds well-formed ones.
-/

set_option autoImplicit false

namespace SafeRefactor

structure LineRange where
  first : Nat
  last : Nat
  deriving DecidableEq, Repr

namespace LineRange

def of (first last : Nat) : LineRange := ⟨first, max last first⟩

def single (line : Nat) : LineRange := of line line

def overlaps (a b : LineRange) : Bool := a.first ≤ b.last && b.first ≤ a.last

def compare (a b : LineRange) : Ordering :=
  (Ord.compare a.first b.first).then (Ord.compare a.last b.last)

def le (a b : LineRange) : Bool := a.first < b.first || (a.first == b.first && a.last ≤ b.last)

theorem overlaps_comm (a b : LineRange) : a.overlaps b = b.overlaps a := by
  simp [overlaps, Bool.and_comm]

end LineRange

end SafeRefactor
