/-!
# JSON values

Values as they are exchanged with other programs. Only integers are told apart by value; a number
with a fraction or an exponent keeps its spelling. The members of an object keep their order.
-/

set_option autoImplicit false

namespace SafeRefactor

inductive Json where
  | null
  | bool (b : Bool)
  | integer (n : Int)
  | real (spelling : String)
  | string (s : String)
  | array (items : List Json)
  | object (members : List (String × Json))
  deriving Repr, Inhabited

namespace Json

def ofOption (s : Option String) : Json :=
  match s with
  | some s => string s
  | none => null

def nat (n : Nat) : Json := integer n

def strings (l : List String) : Json := array (l.map string)

def member? (name : String) : List (String × Json) → Option Json
  | [] => none
  | (k, v) :: rest =>
    match member? name rest with
    | some w => some w
    | none => if k = name then some v else none

def setMember (name : String) (value : Json) (members : List (String × Json)) :
    List (String × Json) :=
  if members.any fun m => m.1 = name then
    members.map fun m => if m.1 = name then (name, value) else m
  else members ++ [(name, value)]

end Json

end SafeRefactor
