import SafeRefactor.Syntax.ExpressionList
import SafeRefactor.Syntax.Literal

/-!
# String literals

A string literal is its opening, its content and its closing. Content that is plain text is one node
with the escape sequences inside it; in an interpolating literal, braced expressions stand between
such nodes.
-/

set_option autoImplicit false

namespace SafeRefactor.Syntax

def closeContent (part : Forest) : Forest :=
  if part.all Piece.isExtra then part else part.wrap .stringContent

def Look.atSymbol (s : Scan) : Look := ⟨s, [], .symbol, s.here, s⟩

/-- Reads a literal after its opening. `done` is what was read of it and `part` the content since
then. -/
def stringTail (self : Grammar) (e : Expect) : Nat → (done part : Forest) → Scan → Option Parsed
  | 0, _, _, _ => none
  | fuel + 1, done, part, s =>
    match stringPart s with
    | none => none
    | some (.extra n, t) => stringTail self e fuel done (part ++ [.extra n]) t
    | some (.shown n, t) => stringTail self e fuel done (part ++ [.node n]) t
    | some (.hidden a b, t) => stringTail self e fuel done (part ++ [.hidden a b]) t
    | some (.brace, t) =>
      match self (.interpolation .interpolation) (.atSymbol t) with
      | none => none
      | some r => stringTail self e fuel (done ++ closeContent part ++ r.forest) [] r.next.scan
    | some (.close n, t) =>
        some ⟨Forest.wrap .stringLiteral (done ++ closeContent part ++ [.node n]), t.look e⟩

def stringLiteral (self : Grammar) (e : Expect) : Reader := fun l =>
  stringTail self e l.budget (l.extras ++ [.node (.leaf (.named .stringStart) l.start l.scan.here)])
    []
    l.scan

def adjacentLiterals (self : Grammar) (e : Expect) : Nat → Forest → Reader
  | 0, _, _ => none
  | fuel + 1, f, l =>
    if l.token = .quote then do
      let r ← stringLiteral self e l
      adjacentLiterals self e fuel (f ++ r.forest) r.next
    else some ⟨f, l⟩

def stringAtom (self : Grammar) (k : Follow) : Reader := fun l => do
  let r ← stringLiteral self k.beforeOperand l
  if r.next.token = .quote then
    let t ← adjacentLiterals self k.beforeOperand l.budget r.forest r.next
    some (t.wrap .concatenatedString)
  else some r

def formatTail (self : Grammar) : Nat → Forest → Scan → Option (Forest × Scan)
  | 0, _, _ => none
  | fuel + 1, f, s =>
    let t := s.skipWhile fun c => c ≠ '\x7b' && c ≠ '\x7d' && c ≠ '\n'
    if t.here ≠ s.here then formatTail self fuel (f ++ [.hidden s.here t.here]) t
    else
      let u := s.skipWhile isSpace
      match u.peek? with
      | none => none
      | some '\x7b' =>
        match self (.interpolation .formatExpression) (.atSymbol u) with
        | none => none
        | some r => formatTail self fuel (f ++ r.forest) r.next.scan
      | some '\x7d' => some (f, u)
      | some _ => formatTail self fuel f u

def optional (present : Look → Bool) (take : Look → Parsed) (r : Parsed) : Parsed :=
  if present r.next then (take r.next).after r.forest else r

def interpolation (self : Grammar) (form : Form) : Reader := fun l => do
  let opened := l.shiftSymbol "\x7b" .operand
  let e ←
    if opened.next.isWord "yield" then yieldExpression self .bracket opened.next
    else expressionList self .bracket opened.next
  let r := e.after opened.forest
  let r := optional Look.isAssign (fun l => l.shiftSymbol "=" .close) r
  let converts (l : Look) := l.has "!" && l.secondSymbol?.elim false fun c => 'a' ≤ c && c ≤ 'z'
  let r := optional converts (fun l => l.shift (.named .typeConversion) 2 .close) r
  let r ←
    if r.next.has ":" then do
      let (colon, s) := r.next.scan.leaf (.token ":") 1
      let (f, t) ← formatTail self l.budget (r.next.extras ++ [.node colon]) s
      some (Parsed.mk (r.forest ++ Forest.wrap .formatSpecifier f) (.atSymbol t))
    else some r
  if r.next.has "\x7d" then
    let (closed, t) := r.next.scan.leaf (.token "\x7d") 1
    some ⟨Forest.wrap form (r.forest ++ r.next.extras ++ [.node closed]), .atSymbol t⟩
  else none

end SafeRefactor.Syntax
