import SafeRefactor.Syntax.Look

/-!
# Literals

The extent of numbers, of escape sequences, and of the runs of text inside a string literal.
-/

set_option autoImplicit false

namespace SafeRefactor.Syntax

def digitRun : (afterDigit : Bool) → List Char → Nat
  | _, [] => 0
  | prev, c :: cs =>
    if c.isDigit then digitRun true cs + 1
    else if c = '_' ∧ prev then digitRun false cs + 1
    else 0

def basedRun (digit : Char → Bool) : List Char → Nat
  | [] => 0
  | '_' :: c :: cs => if digit c then basedRun digit cs + 2 else 0
  | c :: cs => if digit c then basedRun digit cs + 1 else 0

def isHexDigit (c : Char) : Bool :=
  c.isDigit || ('a' ≤ c && c ≤ 'f') || ('A' ≤ c && c ≤ 'F')

def suffixLength (suffixes : List Char) (cs : List Char) : Nat :=
  match cs with
  | c :: _ => if c ∈ suffixes then 1 else 0
  | [] => 0

def exponentLength : List Char → Nat
  | e :: cs =>
    if e = 'e' ∨ e = 'E' then
      let sign := suffixLength ['+', '-'] cs
      let digits := digitRun false (cs.drop sign)
      if digits = 0 then 0 else 1 + sign + digits
    else 0
  | [] => 0

def basedLength (cs : List Char) : Nat :=
  match cs with
  | '0' :: b :: ds =>
    let run :=
      if b = 'x' ∨ b = 'X' then basedRun isHexDigit ds
      else if b = 'o' ∨ b = 'O' then basedRun (fun c => '0' ≤ c && c ≤ '7') ds
      else if b = 'b' ∨ b = 'B' then basedRun (fun c => c = '0' || c = '1') ds
      else 0
    if run = 0 then 0 else 2 + run + suffixLength ['L', 'l'] (ds.drop run)
  | _ => 0

def integerLength (cs : List Char) : Nat :=
  let digits := digitRun false cs
  let decimal := if digits = 0 then 0 else digits + suffixLength ['L', 'l', 'j', 'J']
    (cs.drop digits)
  max (basedLength cs) decimal

def floatLength (cs : List Char) : Nat :=
  let close (n : Nat) := n + suffixLength ['j', 'J'] (cs.drop n)
  let withExponent (n : Nat) := n + exponentLength (cs.drop n)
  let digits := digitRun false cs
  match cs.drop digits with
  | '.' :: ds =>
    let fraction := digitRun false ds
    if digits = 0 ∧ fraction = 0 then 0 else close (withExponent (digits + 1 + fraction))
  | ds => if digits = 0 ∨ exponentLength ds = 0 then 0 else close (withExponent digits)

def numberLength? (cs : List Char) : Option (Form × Nat) :=
  let i := integerLength cs
  let f := floatLength cs
  if i < f then some (.floatLiteral, f)
  else if 0 < i then some (.integerLiteral, i)
  else none

def startsHex (n : Nat) (cs : List Char) : Bool :=
  (cs.take n).length = n && (cs.take n).all isHexDigit

def escapeLength? : List Char → Option Nat
  | '\\' :: c :: cs =>
    if c = 'u' then if startsHex 4 cs then some 6 else none
    else if c = 'U' then if startsHex 8 cs then some 10 else none
    else if c = 'x' then if startsHex 2 cs then some 4 else none
    else if c.isDigit then some (2 + ((cs.take 2).takeWhile Char.isDigit).length)
    else if c = '\n' then some 2
    else if c = '\r' then if cs.head? = some '\n' then some 3 else none
    else if c ∈ ['\x27', '\x22', 'a', 'b', 'f', 'r', 'n', 't', 'v', '\\'] then some 2
    else if c = 'N' then
      match cs with
      | '\x7b' :: ds =>
        let name := ds.takeWhile (· ≠ '\x7d')
        if name.isEmpty ∨ ds.length = name.length then none else some (name.length + 4)
      | _ => none
    else none
  | _ => none

inductive RunEnd where
  | text (n : Nat)
  | close (n : Nat)
  | other
  | unclosed

def rawEscape (mark : Char) (cs : List Char) : Nat :=
  let n := suffixLength [mark, '\\'] cs
  match cs.drop n with
  | '\r' :: '\n' :: _ => n + 2
  | '\r' :: _ => n + 1
  | '\n' :: _ => n + 1
  | _ => n

/-- Reads a run of text inside a literal. `n` characters of it were read; `some` text was among them
if `has` holds; the next `skip` characters are taken as they are. -/
def textRun (q : Quote) : List Char → (n : Nat) → (has : Bool) → (skip : Nat) → RunEnd
  | [], _, _, _ => .unclosed
  | _ :: cs, n, has, skip + 1 => textRun q cs (n + 1) has skip
  | c :: cs, n, has, 0 =>
    if c = '\x00' then .unclosed
    else if q.interpolates && (c = '\x7b' || c = '\x7d') then if has then .text n else .other
    else if c = '\\' then
      if q.raw then textRun q cs (n + 1) has (rawEscape q.mark cs)
      else if q.bytes && (match cs with
          | d :: _ => d = 'N' || d = 'u' || d = 'U'
          | [] => false) then textRun q cs (n + 1) true 2
      else if has then .text n
      else .other
    else if c = q.mark then
      if q.triple then
        match cs with
        | a :: b :: _ =>
          if a = q.mark then
            if b = q.mark then if has then .text n else .close (n + 3)
            else .text (n + 2)
          else .text (n + 1)
        | a :: [] => if a = q.mark then .text (n + 2) else .text (n + 1)
        | [] => .text (n + 1)
      else if has then .text n
      else .close (n + 1)
    else if c = '\n' && has && !q.triple then .other
    else textRun q cs (n + 1) true 0

inductive StringPart where
  | extra (n : Node)
  | shown (n : Node)
  | hidden (start stop : Point)
  | brace
  | close (n : Node)

def otherPart (s : Scan) : Option (StringPart × Scan) :=
  let joined (t : Scan) : Option (StringPart × Scan) :=
    (continuationLength t.rest).map fun n =>
      let (node, u) := t.leaf (.named .lineContinuation) n
      (.extra node, u)
  if s.peek? = some '\\' then
    match escapeLength? s.rest with
    | some n =>
      let (node, t) := s.leaf (.named .escapeSequence) n
      some (.shown node, t)
    | none =>
      match joined s with
      | some r => some r
      | none =>
        let t := s.advance 1
        some (.hidden s.here t.here, t)
  else
    let t := s.skipWhile isSpace
    match t.peek? with
    | some '#' =>
      let u := t.skipWhile (· ≠ '\n')
      some (.extra (.leaf (.named .comment) t.here u.here), u)
    | some '\x7b' => some (.brace, t)
    | some '\\' => joined t
    | _ => none

def stringPart (s : Scan) : Option (StringPart × Scan) :=
  match s.quotes with
  | [] => none
  | q :: outer =>
    let doubled := q.interpolates && (s.ahead "\x7b\x7b" || s.ahead "\x7d\x7d")
    if doubled then
      let (node, t) := s.leaf (.named .escapeInterpolation) 2
      some (.shown node, t)
    else
      match textRun q s.rest 0 false 0 with
      | .text n =>
        let t := s.advance n
        some (.hidden s.here t.here, t)
      | .close n =>
        let (node, t) := s.leaf (.named .stringEnd) n
        some (.close node, { t with quotes := outer, inside := false })
      | .other => otherPart s
      | .unclosed => none

end SafeRefactor.Syntax
