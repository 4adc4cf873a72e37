import SafeRefactor.Text.Lines

/-!
# Exclusion patterns

Patterns over whole paths. A question mark stands for one character and a star for any number of
them, slashes included; two stars stand for any number of whole path components, and brackets for
one character of a set.
-/

set_option autoImplicit false

namespace SafeRefactor.Pattern

structure Range where
  first : Char
  last : Char
  deriving DecidableEq, Repr

def Range.holds (r : Range) (c : Char) : Bool := r.first ≤ c && c ≤ r.last

inductive Token where
  | char (c : Char)
  | any
  | sequence
  | components
  | within (ranges : List Range)
  | except (ranges : List Range)
  deriving DecidableEq, Repr

inductive Fault where
  | tooManyStars (place : Nat)
  | partialComponent (place : Nat)
  | openRange (place : Nat)
  deriving DecidableEq, Repr

namespace Fault

def place : Fault → Nat
  | tooManyStars n | partialComponent n | openRange n => n

def reason : Fault → String
  | tooManyStars _ => "wildcards are either regular `*` or recursive `**`"
  | partialComponent _ => "recursive wildcards must form a single path component"
  | openRange _ => "invalid range pattern"

def message (f : Fault) : String := s!"Pattern syntax error near position {f.place}: " ++ f.reason

end Fault

def ranges : List Char → List Range
  | a :: '-' :: b :: cs => ⟨a, b⟩ :: ranges cs
  | a :: cs => ⟨a, a⟩ :: ranges cs
  | [] => []

def upToBracket : List Char → Option (List Char × List Char)
  | [] => none
  | c :: cs =>
    if ']' ∈ cs then some (c :: cs.takeWhile (· ≠ ']'), (cs.dropWhile (· ≠ ']')).tail) else none

def readSet? : List Char → Option (Token × List Char)
  | '!' :: cs => (upToBracket cs).map fun (body, rest) => (.except (ranges body), rest)
  | cs => (upToBracket cs).map fun (body, rest) => (.within (ranges body), rest)

def readFrom : (fuel : Nat) → (done : List Char) → (tokens : List Token) → List Char →
    Except Fault (List Token)
  | 0, _, tokens, _ => .ok tokens.reverse
  | _ + 1, _, tokens, [] => .ok tokens.reverse
  | fuel + 1, done, tokens, c :: cs =>
    if c = '?' then readFrom fuel (c :: done) (.any :: tokens) cs
    else if c = '[' then
      match readSet? cs with
      | none => .error (.openRange done.length)
      | some (t, rest) =>
        let used := (c :: cs).take (cs.length + 1 - rest.length)
        readFrom fuel (used.reverse ++ done) (t :: tokens) rest
    else if c = '*' then
      let more := cs.takeWhile (· = '*')
      let rest := cs.drop more.length
      let past := List.replicate (more.length + 1) '*' ++ done
      match more.length with
      | 0 => readFrom fuel past (.sequence :: tokens) rest
      | 1 =>
        if done ≠ [] ∧ done.head? ≠ some '/' then .error (.partialComponent (done.length - 1))
        else
          let tokens :=
            if 1 < tokens.length ∧ tokens.head? = some .components then
              tokens else .components :: tokens
          match rest with
          | [] => .ok tokens.reverse
          | '/' :: rest => readFrom fuel ('/' :: past) tokens rest
          | _ => .error (.partialComponent past.length)
      | _ => .error (.tooManyStars (done.length + 2))
    else readFrom fuel (c :: done) (.char c :: tokens) cs

def read (text : String) : Except Fault (List Token) :=
  let cs := text.toList
  readFrom (cs.length + 1) [] [] cs

def suffixes : List Char → List (List Char)
  | [] => [[]]
  | c :: cs => (c :: cs) :: suffixes cs

def afterSlashes : List Char → List (List Char)
  | [] => [[]]
  | c :: cs => if c = '/' then cs :: afterSlashes cs else afterSlashes cs

def matchTokens : List Token → List Char → Bool
  | [], cs => cs.isEmpty
  | .char d :: ts, c :: cs => c = d && matchTokens ts cs
  | .any :: ts, _ :: cs => matchTokens ts cs
  | .within rs :: ts, c :: cs => rs.any (·.holds c) && matchTokens ts cs
  | .except rs :: ts, c :: cs => !rs.any (·.holds c) && matchTokens ts cs
  | .sequence :: ts, cs => (suffixes cs).any (matchTokens ts)
  | .components :: ts, cs => (cs :: afterSlashes cs).any (matchTokens ts)
  | _ :: _, [] => false

end SafeRefactor.Pattern
