import SafeRefactor.Text.Lines

/-!
# Faults of a TOML text

A fault has a description, what was expected instead, and the stretch of text it concerns, in bytes.
It is shown with the line it begins on and carets under the stretch.
-/

set_option autoImplicit false

namespace SafeRefactor.Toml

structure Span where
  start : Nat
  stop : Nat
  deriving DecidableEq, Repr, Inhabited

namespace Span

def before (s : Span) : Span := ⟨s.start, s.start⟩

def after (s : Span) : Span := ⟨s.stop, s.stop⟩

def through (a b : Span) : Span := ⟨a.start, b.stop⟩

end Span

inductive Expected where
  | spelling (text : String)
  | description (text : String)
  deriving DecidableEq, Repr

def Expected.message : Expected → String
  | spelling "\n" => "newline"
  | spelling s => "`" ++ s ++ "`"
  | description s => s

structure Fault where
  message : String
  span : Span
  deriving DecidableEq, Repr

def Fault.expecting (description : String) (expected : List Expected) (span : Span) : Fault :=
  let wanted := if expected.isEmpty then
    "nothing" else Text.join ", " (expected.map Expected.message)
  ⟨description ++ ", expected " ++ wanted, span⟩

structure Place where
  line : Nat
  column : Nat
  content : String

/-- The place before which a number of bytes stand. `done` are the characters of its line before it.
-/
def placeFrom : List Char → (bytes : Nat) → (line : Nat) → (done : List Char) → Place
  | cs, 0, line, done =>
    let wide := match cs with
      | c :: _ => c ≠ '\n' && 1 < Text.byteWidth c
      | [] => false
    let column := if wide then Text.byteLength done else done.length
    ⟨line, column, String.ofList (done.reverse ++ cs.takeWhile (· ≠ '\n'))⟩
  | [], _ + 1, line, done => ⟨line, done.length, String.ofList done.reverse⟩
  | c :: cs, n + 1, line, done =>
    match cs with
    | [] => ⟨line, done.length + 1, String.ofList (if c = '\n' then done else c :: done).reverse⟩
    | _ =>
      if c = '\n' then placeFrom cs n (line + 1) []
      else placeFrom cs (n + 1 - Text.byteWidth c) line (c :: done)

def Fault.render (f : Fault) (source : String) : String :=
  let p := placeFrom source.toList f.span.start 0 []
  let number := toString (p.line + 1)
  let gutter := String.ofList (List.replicate (number.length + 1) ' ')
  let width := min (f.span.stop - f.span.start) (Text.byteLength p.content.toList)
  s!"TOML parse error at line {number}, column {p.column + 1}\n" ++
    gutter ++ "|\n" ++ number ++ " | " ++ p.content ++ "\n" ++
    gutter ++ "|" ++ String.ofList (List.replicate (p.column + 1) ' ') ++
    String.ofList (List.replicate (max width 1) '^') ++ "\n" ++ f.message ++ "\n"

end SafeRefactor.Toml
