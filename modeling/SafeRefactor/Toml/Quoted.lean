import SafeRefactor.Text.Hexadecimal
import SafeRefactor.Toml.Statement

/-!
# Strings of a TOML text

What a written string stands for. Offsets count bytes from the beginning of the string, quotation
marks included, and are turned into places of the whole text by the caller's `base`.
-/

set_option autoImplicit false

namespace SafeRefactor.Toml

def faultIn {α : Type} (base : Nat) (description : String) (expected : List Expected)
    (start stop : Nat) :
    Except Fault α :=
  .error (Fault.expecting description expected ⟨base + start, base + stop⟩)

namespace Quoting

def title : Quoting → String
  | literal => "invalid literal string"
  | basic => "invalid basic string"
  | literalLines => "invalid multi-line literal string"
  | basicLines => "invalid multi-line basic string"

def mark : Quoting → String
  | literal => "'"
  | basic => "\""
  | literalLines => "'''"
  | basicLines => "\"\"\""

def hasEscapes : Quoting → Bool
  | basic | basicLines => true
  | _ => false

def spansLines : Quoting → Bool
  | literalLines | basicLines => true
  | _ => false

def expected : Quoting → List Expected
  | literal => [.description "non-single-quote visible characters"]
  | basic => [.description "non-double-quote visible characters", .spelling "\\"]
  | literalLines => [.description "non-single-quote characters"]
  | basicLines => [.description "non-double-quote characters", .spelling "\\"]

end Quoting

def shortEscape? (c : Char) : Option Char :=
  if c = 'b' then some '\x08'
  else if c = 'e' then some '\x1b'
  else if c = 'f' then some '\x0c'
  else if c = 'n' then some '\n'
  else if c = 'r' then some '\r'
  else if c = 't' then some '\t'
  else if c = '\\' ∨ c = '\x22' then some c
  else none

def hexWidth? (c : Char) : Option Nat :=
  if c = 'x' then some 2 else if c = 'u' then some 4 else if c = 'U' then some 8 else none

def knownEscapes : List Expected :=
  ["b", "e", "f", "n", "r", "\\", "\"", "x", "u", "U"].map .spelling

def charOf? (n : Nat) : Option Char :=
  if n < 0xD800 ∨ (0xDFFF < n ∧ n < 0x110000) then some (Char.ofNat n) else none

def skipMargin : List Char → Nat × List Char
  | [] => (0, [])
  | c :: cs =>
    if c = ' ' ∨ c = '\t' ∨ c = '\n' ∨ (c = '\r' ∧ cs.head? = some '\n') then
      let (n, rest) := skipMargin cs
      (n + 1, rest)
    else (0, c :: cs)

def decodeBody (q : Quoting) (base : Nat) : (fuel : Nat) → (offset : Nat) → List Char →
    Except Fault (List Char)
  | 0, _, _ => .ok []
  | _ + 1, _, [] => .ok []
  | fuel + 1, offset, c :: cs =>
    if c = '\\' ∧ q.hasEscapes then
      let missing : Except Fault (List Char) :=
        faultIn base "missing escaped value" knownEscapes (offset + 1) (offset + 1)
      match cs with
      | [] => missing
      | d :: ds =>
        if q.spansLines ∧ (d = ' ' ∨ d = '\t' ∨ d = '\n' ∨ d = '\r') then
          let gap := (d :: ds).takeWhile fun c => c = ' ' || c = '\t'
          match (d :: ds).drop gap.length with
          | '\n' :: _ | '\r' :: '\n' :: _ =>
            let (n, rest) := skipMargin (d :: ds)
            decodeBody q base fuel (offset + 1 + n) rest
          | '\r' :: _ =>
            let place := offset + 2 + gap.length
            faultIn base "carriage return must be followed by newline" [.spelling "\n"] place place
          | _ => missing
        else match shortEscape? d, hexWidth? d with
          | some e, _ => (decodeBody q base fuel (offset + 2) ds).map (e :: ·)
          | none, some width =>
            let digits := (ds.take width).takeWhile fun c => (Text.hexValue? c).isSome
            let wanted := [Expected.description "unicode hexadecimal value"]
            if digits.length < width then
              let place := offset + 2 + digits.length
              faultIn base "too few unicode value digits" wanted place place
            else
              let n := digits.foldl (fun n c => 16 * n + (Text.hexValue? c).getD 0) 0
              match charOf? n with
              | some e => (decodeBody q base fuel (offset + 2 + width) (ds.drop width)).map (e :: ·)
              | none => faultIn base "invalid value" wanted (offset + 2) (offset + 2)
          | none, none => missing
    else if q.spansLines ∧ c = '\n' then (decodeBody q base fuel (offset + 1) cs).map (c :: ·)
    else if q.spansLines ∧ c = '\r' then
      if cs.head? = some '\n' then (decodeBody q base fuel (offset + 1) cs).map (c :: ·)
      else faultIn base "carriage return must be followed by newline" [.spelling "\n"]
        (offset + 1) (offset + 1)
    else if isPrintable c then (decodeBody q base fuel (offset + Text.byteWidth c) cs).map (c :: ·)
    else
      let width := if q.hasEscapes then (cs.takeWhile fun d => !isPrintable d).length + 1 else 0
      faultIn base q.title q.expected offset (offset + width)

def decodeQuoted (q : Quoting) (text : List Char) (base : Nat) : Except Fault String :=
  let marks := q.mark.toList
  let body := text.drop marks.length
  if marks.length ≤ body.length ∧ body.drop (body.length - marks.length) = marks then
    let body := body.take (body.length - marks.length)
    let (skipped, body) := match q.spansLines, body with
      | true, '\n' :: rest => (1, rest)
      | true, '\r' :: '\n' :: rest => (2, rest)
      | _, _ => (0, body)
    (decodeBody q base (body.length + 1) (marks.length + skipped) body).map String.ofList
  else
    let size := Text.byteLength text
    faultIn base q.title [.spelling q.mark] size size

end SafeRefactor.Toml
