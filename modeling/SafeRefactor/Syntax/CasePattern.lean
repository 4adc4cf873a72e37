import SafeRefactor.Syntax.Quoted

/-!
# Case patterns

The patterns of a `case` clause: literals, names, classes, sequences, mappings, and alternatives of
them.
-/

set_option autoImplicit false

namespace SafeRefactor.Syntax

def dottedNames (e : Expect) : Nat → Forest → Reader
  | 0, _, _ => none
  | fuel + 1, f, l =>
    match l.token with
    | .word _ =>
      let i := l.shiftName e
      if i.next.has "." then
        let c := i.next.shiftSymbol "." .nothing
        dottedNames e fuel (f ++ i.forest ++ c.forest) c.next
      else some (i.after f)
    | _ => none

def dottedName (e : Expect) : Reader := fun l => do
  let r ← dottedNames e l.budget [] l
  some (r.wrap .dottedName)

def patternRow (self : Grammar) (closer : String) (form : Form) (k : Follow) : Nat → Forest → Reader
  | 0, _, _ => none
  | fuel + 1, f, l =>
    if l.has closer then closeWith form closer k f l
    else do
      let p ← self (.casePattern .bracket) l
      if p.next.has "," then
        let c := p.next.shiftSymbol "," .element
        patternRow self closer form k fuel (f ++ p.forest ++ c.forest) c.next
      else closeWith form closer k (f ++ p.forest) p.next

def splatPattern (k : Follow) : Reader := fun l =>
  let a := l.shiftSymbol (if l.has "**" then "**" else "*") .nothing
  match a.next.token with
  | .word w =>
    let i := if w = "_" then a.next.shiftKeyword k.afterOperand else a.next.shiftName k.afterOperand
    some ((i.after a.forest).wrap .splatPattern)
  | _ => none

def mappingRow (self : Grammar) (k : Follow) : Nat → Forest → Reader
  | 0, _, _ => none
  | fuel + 1, f, l =>
    if l.has "\x7d" then closeWith .dictPattern "\x7d" k f l
    else do
      let p ←
        if l.has "*" then splatPattern .bracket l
        else do
          let key ← self (.alternatives .nothing) l
          if key.next.has ":" then
            let c := key.next.shiftSymbol ":" .operand
            let v ← self (.casePattern .bracket) c.next
            some (v.after (key.forest ++ c.forest))
          else none
      if p.next.has "," then
        let c := p.next.shiftSymbol "," .element
        mappingRow self k fuel (f ++ p.forest ++ c.forest) c.next
      else closeWith .dictPattern "\x7d" k (f ++ p.forest) p.next

def plainNumber (k : Follow) : Reader := fun l =>
  if l.isNumber then
    match numberLength? l.scan.rest with
    | some (form, n) => some (l.shift (.named form) n k.afterOperand)
    | none => none
  else none

def numberPattern (k : Follow) : Reader := fun l => do
  let sign := if l.has "-" then l.shiftSymbol "-" .nothing else ⟨[], l⟩
  let a ← plainNumber k sign.next
  let f := sign.forest ++ a.forest
  if a.next.has "+" || a.next.has "-" then
    let o := a.next.shiftSymbol (if a.next.has "+" then "+" else "-") .nothing
    let b ← plainNumber k o.next
    some ((b.after (f ++ o.forest)).wrap .complexPattern)
  else some ⟨f, a.next⟩

def closedPattern (self : Grammar) (k : Follow) : Reader := fun l =>
  match l.token with
  | .quote => stringAtom self k l
  | .word w =>
    match literalOf? w with
    | some form => some (l.shift (.named form) l.wordLength k.afterOperand)
    | none =>
      if w = "_" then some (l.shiftKeyword k.afterOperand)
      else do
        let d ← dottedName k.afterOperand l
        if d.next.has "(" then
          let o := d.next.shiftSymbol "(" .element
          patternRow self ")" .classPattern k l.budget (d.forest ++ o.forest) o.next
        else some d
  | .symbol =>
    if l.has "*" then splatPattern k l
    else if l.has "[" then
      let o := l.shiftSymbol "[" .element
      patternRow self "]" .listPattern k l.budget o.forest o.next
    else if l.has "(" then
      let o := l.shiftSymbol "(" .element
      patternRow self ")" .tuplePattern k l.budget o.forest o.next
    else if l.has "\x7b" then
      let o := l.shiftSymbol "\x7b" .element
      mappingRow self k l.budget o.forest o.next
    else numberPattern k l
  | _ => none

def alternativeTail (self : Grammar) (k : Follow) : Nat → Forest → Reader
  | 0, _, _ => none
  | fuel + 1, f, l =>
    if l.has "|" then do
      let o := l.shiftSymbol "|" .operand
      let p ← closedPattern self k o.next
      alternativeTail self k fuel (f ++ o.forest ++ p.forest) p.next
    else some ⟨f, l⟩

def alternatives (self : Grammar) (k : Follow) : Reader := fun l => do
  let r ← closedPattern self k l
  if r.next.has "|" then
    let t ← alternativeTail self k l.budget r.forest r.next
    some (t.wrap .unionPattern)
  else some r

def aliasTail (k : Follow) : Nat → Parsed → Option Parsed
  | 0, _ => none
  | fuel + 1, r =>
    if r.next.isWord "as" then
      let a := r.next.shiftKeyword .nothing
      match a.next.token with
      | .word _ =>
        let i := a.next.shiftName k.afterOperand
        aliasTail k fuel (((i.after (r.forest ++ a.forest)).wrap .asPattern).wrap .casePattern)
      | _ => none
    else some r

def Look.beginsKeywordPattern (l : Look) (k : Follow) : Bool :=
  match l.token with
  | .word w => (literalOf? w).isNone && w != "_" && (l.shiftName k.afterOperand).next.isAssign
  | _ => false

def casePattern (self : Grammar) (k : Follow) : Reader := fun l => do
  let r ←
    if l.beginsKeywordPattern k then do
      let i := l.shiftName k.afterOperand
      let e := i.next.shiftSymbol "=" .operand
      let p ← self (.alternatives k) e.next
      some ((p.after (i.forest ++ e.forest)).wrap .keywordPattern)
    else self (.alternatives k) l
  aliasTail k l.budget (r.wrap .casePattern)

end SafeRefactor.Syntax
