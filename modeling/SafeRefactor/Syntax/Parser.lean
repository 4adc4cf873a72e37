import SafeRefactor.Syntax.CompoundStatement

/-!
# The parser

The readers of all goals, tied together. The depth of nesting is bounded by a multiple of the length
of the text, more than any text can reach.
-/

set_option autoImplicit false

namespace SafeRefactor.Syntax

def readGoal (self : Grammar) : Grammar
  | .expression k min => expression self k min
  | .iterable k => iterable self k
  | .arithmetic k min => arithmetic self k min
  | .chain k => chain self k
  | .atom k => atom self k
  | .interpolation form => interpolation self form
  | .typeHint k => typeHint self k true
  | .casePattern k => casePattern self k
  | .alternatives k => alternatives self k
  | .value => assignedValue self
  | .statement after => statement self after

def grammar : Nat → Grammar
  | 0 => fun _ _ => none
  | depth + 1 => readGoal (grammar depth)

def moduleStatements (self : Grammar) : Nat → Forest → Reader
  | 0, _, _ => none
  | fuel + 1, f, l =>
    if l.token = .eof then some ⟨f ++ l.extras, l⟩
    else do
      let s ← self (.statement .operand) l
      moduleStatements self fuel (f ++ s.forest) s.next

def parse? (cs : List Char) : Option Node :=
  let l := (Scan.ofText cs).look .operand
  match moduleStatements (grammar (10 * l.budget)) l.budget [] l with
  | none => none
  | some r =>
    let start := match r.forest with
      | p :: _ => p.start
      | [] => r.next.start
    some (.mk { kind := .named .moduleUnit, start, stop := r.next.start } r.forest.nodes)

end SafeRefactor.Syntax
