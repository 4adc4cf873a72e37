import SafeRefactor.Files.Pattern
import SafeRefactor.Text.Blank

/-!
# Ignore files

The lines of an ignore file, each a pattern for paths below its directory. The last line that
matches decides. A pattern without a slash matches at any depth; a star does not go beyond a slash.
A line that is no pattern is passed over.
-/

set_option autoImplicit false

namespace SafeRefactor.Ignore

open Pattern (Range)

inductive Token where
  | char (c : Char)
  | any
  | star
  | above
  | below
  | between
  | set (negated : Bool) (ranges : List Range)
  deriving DecidableEq, Repr

def withinComponent : List Char → List (List Char)
  | [] => [[]]
  | c :: cs => (c :: cs) :: if c = '/' then [] else withinComponent cs

def pastSlashes : List Char → List (List Char)
  | [] => []
  | c :: cs => if c = '/' then cs :: pastSlashes cs else pastSlashes cs

def matchTokens : List Token → List Char → Bool
  | [], cs => cs.isEmpty
  | .char d :: ts, c :: cs => c = d && matchTokens ts cs
  | .any :: ts, c :: cs => c ≠ '/' && matchTokens ts cs
  | .set negated rs :: ts, c :: cs => (rs.any (·.holds c) != negated) && matchTokens ts cs
  | .star :: ts, cs => (withinComponent cs).any (matchTokens ts)
  | .above :: ts, cs => (cs :: pastSlashes cs).any (matchTokens ts)
  | .below :: ts, c :: cs => c = '/' && (Pattern.suffixes cs).any (matchTokens ts)
  | .between :: ts, c :: cs => c = '/' && (cs :: pastSlashes cs).any (matchTokens ts)
  | _ :: _, _ => false

def readRanges : (fuel : Nat) → (first : Bool) → (done : List Range) → List Char →
    Option (List Range × List Char)
  | 0, _, _, _ => none
  | _ + 1, _, _, [] => none
  | fuel + 1, first, done, c :: cs =>
    if c = ']' ∧ !first then some (done, cs)
    else match cs with
      | '-' :: d :: rest =>
        if d = ']' then readRanges fuel false (done ++ [⟨c, c⟩]) cs
        else if d < c then none
        else readRanges fuel false (done ++ [⟨c, d⟩]) rest
      | _ => readRanges fuel false (done ++ [⟨c, c⟩]) cs

/-- Patterns with alternatives between braces are read as several patterns at once: the tokens so
far of each of them, last first. `fresh` says that the branch they belong to is still empty. -/
structure Branch where
  fresh : Bool
  readings : List (List Token)

def Branch.push (b : Branch) (t : Token) : Branch := ⟨false, b.readings.map (t :: ·)⟩

def replaceLast (t : Token) : List Token → List Token
  | .above :: rest => .above :: rest
  | .below :: rest => .below :: rest
  | _ :: rest => t :: rest
  | [] => [t]

/-- Two stars after the character `previous`. The result has what is left of the text. -/
def Branch.pushStars (b : Branch) (previous : Option Char) (nested : Bool) (cs : List Char) :
    Branch × List Char :=
  let plain := ((b.push .star).push .star, cs)
  let replace (t : Token) : Branch := ⟨false, b.readings.map (replaceLast t)⟩
  if b.fresh then
    match cs with
    | [] => (b.push .above, [])
    | '/' :: rest => (b.push .above, rest)
    | _ => plain
  else if previous ≠ some '/' then plain
  else match cs with
    | [] => (replace .below, [])
    | '/' :: rest => (replace .between, rest)
    | c :: _ => if nested ∧ (c = ',' ∨ c = '\x7d') then (replace .below, cs) else plain

structure Group where
  before : List (List Token)
  finished : List (List Token)

def readTokens : (fuel : Nat) → (previous : Option Char) → List Group → Branch → List Char →
    Option (List (List Token))
  | 0, _, _, _, _ => none
  | _ + 1, _, groups, b, [] => if groups.isEmpty then some (b.readings.map List.reverse) else none
  | fuel + 1, previous, groups, b, c :: cs =>
    if c = '?' then readTokens fuel (some c) groups (b.push .any) cs
    else if c = '*' then
      match cs with
      | '*' :: rest =>
        let (b, after) := b.pushStars previous (!groups.isEmpty) rest
        let previous := if after.length < rest.length then some '/' else some '*'
        readTokens fuel previous groups b after
      | _ => readTokens fuel (some c) groups (b.push .star) cs
    else if c = '[' then
      let (negated, body) := match cs with
        | '!' :: rest | '^' :: rest => (true, rest)
        | _ => (false, cs)
      match readRanges (body.length + 1) true [] body with
      | none => none
      | some (rs, rest) => readTokens fuel (some ']') groups (b.push (.set negated rs)) rest
    else if c = '\x7b' then readTokens fuel (some c) (⟨b.readings, []⟩ :: groups) ⟨true, [[]]⟩ cs
    else if c = '\x7d' then
      match groups with
      | [] => none
      | g :: gs =>
        let inner := g.finished ++ b.readings
        readTokens fuel (some c) gs ⟨false, g.before.flatMap fun p => inner.map (· ++ p)⟩ cs
    else if c = ',' then
      match groups with
      | [] => readTokens fuel (some c) groups (b.push (.char c)) cs
      | g :: gs =>
        readTokens fuel (some c) (⟨g.before, g.finished ++ b.readings⟩ :: gs) ⟨true, [[]]⟩ cs
    else if c = '\\' then
      match cs with
      | [] => none
      | d :: rest => readTokens fuel (some d) groups (b.push (.char d)) rest
    else readTokens fuel (some c) groups (b.push (.char c)) cs

structure Rule where
  patterns : List (List Token)
  keeps : Bool
  onlyDirectories : Bool

def prepare (line : List Char) : Option (List Char × Bool × Bool) :=
  let line := if [' ', '\\'].isPrefixOf line.reverse then
    line else Text.dropEndWhile Text.isBlank line
  if line.isEmpty ∨ line.head? = some '#' then none
  else
    let (keeps, anchored, line) := match line with
      | '\\' :: '!' :: rest => (false, false, '!' :: rest)
      | '\\' :: '#' :: rest => (false, false, '#' :: rest)
      | '!' :: '/' :: rest => (true, true, rest)
      | '!' :: rest => (true, false, rest)
      | '/' :: rest => (false, true, rest)
      | _ => (false, false, line)
    let (onlyDirectories, line) := match line.reverse with
      | '/' :: '\\' :: rest => (true, rest.reverse)
      | '/' :: rest => (true, rest.reverse)
      | _ => (false, line)
    let stars := ['*', '*']
    let deep := line = stars ∨ (stars ++ ['/']).isPrefixOf line
    let line := if !anchored ∧ '/' ∉ line ∧ !deep then stars ++ '/' :: line else line
    let line := if (stars ++ ['/']).isPrefixOf line.reverse then line ++ ['/', '*'] else line
    some (line, keeps, onlyDirectories)

def complete (ts : List Token) : List Token := if ts = [.above] then [.above, .star] else ts

def Rule.read? (line : List Char) : Option Rule := do
  let (pattern, keeps, onlyDirectories) ← prepare line
  let patterns ← readTokens (pattern.length + 1) none [] ⟨true, [[]]⟩ pattern
  return ⟨patterns.map complete, keeps, onlyDirectories⟩

def rules (text : String) : List Rule :=
  let cs := match text.toList with
    | '\uFEFF' :: cs => cs
    | cs => cs
  (Text.pieces cs).filterMap fun p => Rule.read? (Text.stripTerminator p)

def verdict? (rules : List Rule) (path : String) (isDirectory : Bool) : Option Bool :=
  let cs := path.toList
  (rules.reverse.find? fun r =>
    (!r.onlyDirectories || isDirectory) && r.patterns.any (matchTokens · cs)).map (!·.keeps)

end SafeRefactor.Ignore
