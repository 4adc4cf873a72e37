import SafeRefactor.Rule

/-!
# Selecting rules

Which rules an analysis runs: all of them or a named few, less the disabled ones.
-/

set_option autoImplicit false

namespace SafeRefactor

structure Selection where
  only : Option (List Rule) := none
  disabled : List Rule := []
  deriving DecidableEq, Repr

namespace Selection

def everything : Selection := {}

def allows (s : Selection) (r : Rule) : Bool :=
  (match s.only with
    | none => true
    | some rules => rules.contains r) && !s.disabled.contains r

def without (s : Selection) (rules : List Rule) : Selection :=
  { s with disabled := s.disabled ++ rules }

def rules (s : Selection) : List Rule := Rule.all.filter s.allows

def readNames : List String → Except String (List Rule)
  | [] => .ok []
  | n :: ns =>
    match Rule.ofName? n with
    | none => .error n
    | some r =>
      match readNames ns with
      | .error e => .error e
      | .ok rs => .ok (r :: rs)

end Selection

end SafeRefactor
