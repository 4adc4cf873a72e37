import SafeRefactor.Syntax.Target

/-!
# Parameters

The parameters of a function or of a lambda expression. Only those of a function are annotated.
-/

set_option autoImplicit false

namespace SafeRefactor.Syntax

def defaultValue (self : Grammar) (form : Form) (k : Follow) (f : Forest) : Reader := fun l => do
  let c := l.shiftSymbol "=" .operand
  let e ← self (.expression k .loosest) c.next
  some ((e.after (f ++ c.forest)).wrap form)

def typedParameter (self : Grammar) (k : Follow) (typed : Bool) (r : Parsed) : Option Parsed :=
  if typed && r.next.has ":" then do
    let c := r.next.shiftSymbol ":" .operand
    let t ← self (.typeHint k) c.next
    some ((t.withRole .typeHint |>.after (r.forest ++ c.forest)).wrap .typedParameter)
  else some r

def namedParameter (self : Grammar) (k : Follow) (typed : Bool) : Reader := fun l =>
  let a := l.shiftName k.afterOperand
  if a.next.has "=" then defaultValue self .defaultParameter k (a.forest.withRole .name) a.next
  else if typed && a.next.has ":" then do
    let c := a.next.shiftSymbol ":" .operand
    let t ← self (.typeHint k) c.next
    let hint := t.forest.withRole .typeHint
    if t.next.has "=" then
      defaultValue self .typedDefaultParameter k (a.forest.withRole .name ++ c.forest ++
        hint) t.next
    else some ⟨Forest.wrap .typedParameter (a.forest ++ c.forest ++ hint), t.next⟩
  else some a

def collectingParameter (self : Grammar) (form : Form) (k : Follow) (typed : Bool) (star : Parsed) :
    Option Parsed := do
  let r ← self (.chain k) star.next
  if r.forest.isPlace then typedParameter self k typed ((r.after star.forest).wrap form) else none

def tupleParameter (self : Grammar) (k : Follow) : Reader := fun l => do
  let r ← self (.chain k) l
  let f ← Forest.mapNode? Node.asTarget? r.forest
  if (Forest.head? f).elim false (·.has .tuplePattern) then
    if r.next.has "=" then defaultValue self .defaultParameter k (f.withRole .name) r.next
    else some ⟨f, r.next⟩
  else none

def parameter (self : Grammar) (k : Follow) (typed : Bool) : Reader := fun l =>
  match l.token with
  | .word _ => namedParameter self k typed l
  | _ =>
    if l.has "**" then
      collectingParameter self .dictionarySplatPattern k typed (l.shiftSymbol "**" .operand)
    else if l.has "*" then
      let a := l.shiftSymbol "*" k.beforeOperand
      if a.next.has "," || a.next.has ")" || a.next.has ":" then some (a.wrap .keywordSeparator)
      else collectingParameter self .listSplatPattern k typed a
    else if l.has "/" then some ((l.shiftSymbol "/" k.afterOperand).wrap .positionalSeparator)
    else if l.has "(" then tupleParameter self k l
    else none

def functionParameters (self : Grammar) : Reader :=
  commaList .close (·.has ")") (parameter self .bracket true)

def lambdaParameters (self : Grammar) : Reader :=
  commaList .nothing (·.has ":") (parameter self .nothing false)

end SafeRefactor.Syntax
