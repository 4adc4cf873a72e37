/-!
# Stable sorting

Insertion sort by a total preorder given as a test. Elements that the order does not tell apart keep
the order they had.
-/

set_option autoImplicit false

namespace SafeRefactor

def insertBy {α : Type} (le : α → α → Bool) (a : α) : List α → List α
  | [] => [a]
  | b :: bs => if le a b then a :: b :: bs else b :: insertBy le a bs

def sortBy {α : Type} (le : α → α → Bool) : List α → List α
  | [] => []
  | a :: as => insertBy le a (sortBy le as)

end SafeRefactor
