import SafeRefactor.Syntax.Literal
import SafeRefactor.Syntax.Recovery.Subtree

/-!
# Tokens where any may stand

Which token begins at a place depends on which tokens the parser could use there. Layout and the
inside of string literals come first; otherwise the longest token wins, and a word is a keyword only
where the keyword could be used.
-/

set_option autoImplicit false

namespace SafeRefactor.Syntax.Recovery

structure Lexeme where
  token : Nat
  start : Nat
  stop : Nat
  keyword : Bool := false
  layout : Option Layout := none

def looseTokens : List String :=
  ["end", "identifier", "escape_sequence", "_not_escape_sequence", "fmt_content", "type_conversion",
    "integer", "float", "comment", "line_continuation"] ++ layoutTokens

def spellingOf : String → String
  | "ellipsis" => "..."
  | "true" => "True"
  | "false" => "False"
  | "none" => "None"
  | name => name

def fixedTokens : List (String × Nat) :=
  (tokenNames.toList.filter fun n => !looseTokens.contains n).map fun n =>
    (spellingOf n, tokenNumber n)

def isWord (s : String) : Bool := s.toList.all fun c => c.isAlpha || c = '_'

def keywords : Std.HashMap String Nat := Std.HashMap.ofList (fixedTokens.filter fun p => isWord p.1)

def wholeKeywords : List Nat :=
  (fixedTokens.filter fun p => isWord p.1 && p.1 ≠ "except").map Prod.snd

def operators : List (List Char × Nat) :=
  (fixedTokens.filter fun p => !isWord p.1).map fun p => (p.1.toList, p.2)

namespace Token

def identifier : Nat := tokenNumber "identifier"
def newline : Nat := tokenNumber "_newline"
def indent : Nat := tokenNumber "_indent"
def dedent : Nat := tokenNumber "_dedent"
def stringStart : Nat := tokenNumber "string_start"
def stringContent : Nat := tokenNumber "_string_content"
def escapeInterpolation : Nat := tokenNumber "escape_interpolation"
def stringEnd : Nat := tokenNumber "string_end"
def closers : List Nat := [tokenNumber ")", tokenNumber "]", tokenNumber "\x7d"]
def handler : Nat := tokenNumber "except"
def escapeSequence : Nat := tokenNumber "escape_sequence"
def loneBackslash : Nat := tokenNumber "_not_escape_sequence"
def formatText : Nat := tokenNumber "fmt_content"
def continuation : Nat := tokenNumber "line_continuation"
def comment : Nat := tokenNumber "comment"
def conversion : Nat := tokenNumber "type_conversion"
def integer : Nat := tokenNumber "integer"
def float : Nat := tokenNumber "float"

end Token

def Source.scan (source : Source) (here : Nat) (m : Layout) : Scan where
  rest := source.rest here
  here := source.point here
  indents := m.indents
  quotes := m.quotes
  inside := m.inside
  budget := 0

def Layout.ofScan (s : Scan) : Layout := ⟨s.indents, s.quotes, s.inside⟩

def gapLexeme? (valid : Nat → Bool) (anything : Bool) (s : Scan) : Option Lexeme :=
  let expect : Expect :=
    { newline := valid Token.newline && !anything
      indent := valid Token.indent
      dedent := valid Token.dedent
      string := valid Token.stringStart
      closer := Token.closers.any valid
      handler := valid Token.handler }
  (s.layout? expect).map fun l =>
    let token := match l.token with
      | .newline => Token.newline
      | .indent => Token.indent
      | .dedent => Token.dedent
      | .quote => Token.stringStart
    { token, start := l.start.offset, stop := l.scan.here.offset, layout := some (.ofScan l.scan) }

def layoutLexeme? (source : Source) (valid : Nat → Bool) (m : Layout) (here : Nat) :
    Option Lexeme :=
  let s := (source.scan here m).skipMark
  let start := s.here.offset
  let anything := valid Token.stringContent && valid Token.indent
  match if anything then none else m.quotes.head? with
  | none => gapLexeme? valid anything s
  | some q =>
    let brace := s.peek? = some '\x7b' || s.peek? = some '\x7d'
    if valid Token.escapeInterpolation && q.interpolates && brace then
      if s.ahead "\x7b\x7b" || s.ahead "\x7d\x7d" then
        some { token := Token.escapeInterpolation, start, stop := start + 2, layout := some m }
      else none
    else if valid Token.stringContent then
      match textRun q s.rest 0 false 0 with
      | .text n => some { token := Token.stringContent, start, stop := start + n, layout := some m }
      | .close n =>
        some { token := Token.stringEnd, start, stop := start + n
               layout := some { m with quotes := m.quotes.tail, inside := false } }
      | .other => none
      | .unclosed =>
        if s.rest.contains '\x00' then none
        else
          let atEnd := source.scan (source.rests.size - 1) m
          (gapLexeme? valid anything atEnd).map fun l => { l with start }
    else gapLexeme? valid anything s

def longest : List (Nat × Nat) → Option (Nat × Nat)
  | [] => none
  | p :: ps =>
    match longest ps with
    | none => some p
    | some q => if p.2 < q.2 then some q else some p

def candidates (valid : Nat → Bool) (cs : List Char) : List (Nat × Nat) :=
  let comment := if cs.head? = some '#' then (cs.takeWhile (· ≠ '\n')).length else 0
  let conversion := match cs with
    | '!' :: c :: _ => if 'a' ≤ c && c ≤ 'z' then 2 else 0
    | _ => 0
  let fixed := operators.map fun (text, t) => (t, if text.isPrefixOf cs then text.length else 0)
  ((Token.comment, comment) :: (Token.conversion, conversion) ::
    (Token.integer, integerLength cs) ::
    (Token.float, floatLength cs) :: fixed).filter fun (t, n) => 0 < n && valid t

def plainLexeme? (valid : Nat → Bool) (here : Nat) (cs : List Char) : Option Lexeme :=
  let best := longest (candidates valid cs)
  let word := match cs with
    | c :: ds => if Text.startsName c then c :: ds.takeWhile Text.continuesName else []
    | [] => []
  let words := valid Token.identifier || wholeKeywords.any valid
  let handler := valid Token.handler && "except".toList.isPrefixOf word &&
    (word.length = 6 || !words)
  let best := if handler then longest ((Token.handler, 6) :: best.toList) else best
  let length := (best.map Prod.snd).getD 0
  if words && length < word.length then
    match keywords[String.ofList word]? with
    | some k =>
      if k = Token.handler then
        some { token := Token.identifier, start := here, stop := here + word.length }
      else
        some { token := if valid k then k else Token.identifier
               start := here, stop := here + word.length, keyword := true }
    | none => some { token := Token.identifier, start := here, stop := here + word.length }
  else best.map fun (t, n) => { token := t, start := here, stop := here + n }

def formatLexeme? (valid : Nat → Bool) (here : Nat) (cs : List Char) : Option Lexeme :=
  let n := (cs.takeWhile fun c => c ≠ '\x7b' && c ≠ '\x7d' && c ≠ '\n').length
  if valid Token.formatText && 0 < n then
    some { token := Token.formatText, start := here, stop := here + n }
  else none

def continuationLexeme? (valid : Nat → Bool) (here : Nat) (cs : List Char) : Option Lexeme :=
  if valid Token.continuation then
    (continuationLength cs).map fun n =>
      { token := Token.continuation, start := here, stop := here + n }
  else none

def Source.lexeme? (source : Source) (valid : Nat → Bool) (here : Nat) : Option Lexeme :=
  let s := (source.scan here {}).skipMark
  let start := s.here.offset
  let escape :=
    if valid Token.escapeSequence then
      (escapeLength? s.rest).map fun n : Nat =>
        ({ token := Token.escapeSequence, start, stop := start + n } : Lexeme)
    else none
  let lone :=
    if valid Token.loneBackslash && s.peek? = some '\\' then
      some ({ token := Token.loneBackslash, start, stop := start + 1 } : Lexeme)
    else none
  let immediate := escape <|> formatLexeme? valid start s.rest <|> continuationLexeme? valid start
    s.rest <|>
    lone
  match immediate with
  | some l => some l
  | none =>
    let t := s.skipWhile isSpace
    let start := t.here.offset
    if t.rest.isEmpty then some { token := 0, start, stop := start }
    else
      formatLexeme? valid start t.rest <|> continuationLexeme? valid start t.rest <|>
        plainLexeme? valid start t.rest

end SafeRefactor.Syntax.Recovery
