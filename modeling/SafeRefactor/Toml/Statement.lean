import SafeRefactor.Toml.Token

/-!
# Statements of a TOML text

The structure of a text: headers of tables, and keys with their values. Strings and numbers are left
as they are written; whether they can be read is a matter of the next stage, so that a fault of
structure anywhere comes before a fault inside a value.
-/

set_option autoImplicit false

namespace SafeRefactor.Toml

structure Written where
  text : List Char
  quoting : Option Quoting
  span : Span
  deriving Repr

abbrev WrittenKey := List Written

inductive WrittenValue where
  | simple (w : Written)
  | array (items : List WrittenValue) (span : Span)
  | table (pairs : List (WrittenKey × WrittenValue)) (span : Span)
  deriving Repr

inductive Statement where
  | header (key : WrittenKey) (array : Bool) (span : Span)
  | pair (key : WrittenKey) (value : WrittenValue)
  deriving Repr

structure Cursor where
  ahead : List Token
  last : Span

abbrev Read := StateT Cursor (Except Fault)

def fail {α : Type} (description : String) (expected : List Expected) (span : Span) : Read α :=
  throw (Fault.expecting description expected span)

def TokenKind.isGap : TokenKind → Bool
  | .blank | .newline | .comment | .eof => true
  | _ => false

def isPrintable (c : Char) : Bool := c = '\t' || (32 ≤ c.toNat && c.toNat ≠ 127)

def checkGap (t : Token) : Read Unit := do
  match t.kind with
  | .comment =>
    match t.text.takeWhile isPrintable with
    | good =>
      if good.length < t.text.length then
        let at_ := t.span.start + Text.byteLength good
        fail "invalid comment character" [.description "printable characters"] ⟨at_, at_⟩
  | .newline =>
    if t.text = ['\r'] then
      fail "carriage return must be followed by newline" [.spelling "\n"] t.span.after
  | _ => pure ()

def peek : Read Token := do
  let c ← get
  return c.ahead.headD ⟨.eof, [], c.last.after⟩

def next : Read Token := do
  let t ← peek
  checkGap t
  modify fun c =>
    { ahead := if t.kind = .eof then c.ahead else c.ahead.tail
      last := if t.kind.isGap then c.last else t.span }
  return t

def nextIf (kind : TokenKind) : Read (Option Token) := do
  if (← peek).kind = kind then return some (← next) else return none

def skipBlank : Read Unit := do
  let _ ← nextIf .blank

def nothingAt (span : Span) : Written := ⟨[], none, span⟩

def Token.written? (t : Token) : Option Written :=
  match t.kind with
  | .string q => some ⟨t.text, some q, t.span⟩
  | .atom => some ⟨t.text, none, t.span⟩
  | _ => none

def dottedTail : Nat → (done : WrittenKey) → Read (WrittenKey × Bool)
  | 0, done => return (done, true)
  | fuel + 1, done => do
    skipBlank
    match ← nextIf .dot with
    | none => return (done, true)
    | some _ =>
      skipBlank
      let t ← peek
      match t.written? with
      | some w =>
        let _ ← next
        dottedTail fuel (done ++ [w])
      | none =>
        let gone := done ++ [nothingAt t.span.before]
        if t.kind = .dot then dottedTail fuel gone else return (gone, false)

def readKey (fuel : Nat) : Read (WrittenKey × Bool) := do
  skipBlank
  let t ← peek
  match t.written? with
  | some w =>
    let _ ← next
    dottedTail fuel [w]
  | none =>
    if t.kind = .dot then dottedTail fuel [nothingAt t.span.before]
    else return ([nothingAt t.span.before], false)

def bareTail : Nat → Written → Read Written
  | 0, w => return w
  | fuel + 1, w => do
    let c ← get
    match c.ahead with
    | t :: u :: _ =>
      if t.kind = .dot ∨ t.kind = .atom then
        let _ ← next
        bareTail fuel { w with text := w.text ++ t.text, span := w.span.through t.span }
      else if t.kind = .blank ∧ (u.kind = .dot ∨ u.kind = .atom) then
        let _ ← next
        let _ ← next
        bareTail fuel { w with text := w.text ++ t.text ++ u.text, span := w.span.through u.span }
      else return w
    | _ => return w

inductive Waiting where
  | key
  | equals (key : WrittenKey)
  | value (key : WrittenKey)
  | comma
  deriving Repr

def Waiting.expected : Waiting → Expected
  | .key => .description "key"
  | .equals _ => .spelling "="
  | .value _ => .description "value"
  | .comma => .spelling ","

def maxNesting : Nat := 80

mutual

def readValue : (fuel depth : Nat) → Read WrittenValue
  | 0, _ => return .simple (nothingAt (← peek).span.before)
  | fuel + 1, depth => do
    let t ← peek
    match t.kind with
    | .comment | .comma | .newline | .eof | .blank => return .simple (nothingAt t.span.before)
    | .equals => fail "extra `=`" [] t.span
    | .closeTable => fail "missing inline table opening" [.spelling "\x7b"] t.span.before
    | .closeArray => fail "missing array opening" [.spelling "["] t.span.before
    | .string q =>
      let _ ← next
      return .simple ⟨t.text, some q, t.span⟩
    | .dot | .atom =>
      let _ ← next
      return .simple (← bareTail fuel ⟨t.text, none, t.span⟩)
    | .openArray =>
      let _ ← next
      if maxNesting ≤ depth then throw ⟨"cannot recurse further; max recursion depth met", t.span⟩
      readArray fuel (depth + 1) t.span [] true
    | .openTable =>
      let _ ← next
      if maxNesting ≤ depth then throw ⟨"cannot recurse further; max recursion depth met", t.span⟩
      readTable fuel (depth + 1) t.span [] .key

/-- The rest of an array. `free` says that a value may come next. -/
def readArray : (fuel depth : Nat) → (opening : Span) → (done : List WrittenValue) → (free : Bool) →
    Read WrittenValue
  | 0, _, opening, done, _ => return .array done opening
  | fuel + 1, depth, opening, done, free => do
    let t ← peek
    match t.kind with
    | .eof =>
      let last := (← get).last
      fail "unclosed array" [.spelling "]"] last.after
    | .comment | .blank | .newline =>
      let _ ← next
      readArray fuel depth opening done free
    | .comma =>
      if free then fail "extra comma in array" [.description "value"] t.span
      else
        let _ ← next
        readArray fuel depth opening done true
    | .equals => fail "unexpected `=` in array" [.description "value", .spelling "]"] t.span
    | .closeArray =>
      let _ ← next
      return .array done (opening.through t.span)
    | _ =>
      if free then
        let v ← readValue fuel depth
        readArray fuel depth opening (done ++ [v]) false
      else fail "missing comma between array elements" [.spelling ","] t.span.before

def readTable : (fuel depth : Nat) → (opening : Span) → (done : List (WrittenKey × WrittenValue)) →
    Waiting → Read WrittenValue
  | 0, _, opening, done, _ => return .table done opening
  | fuel + 1, depth, opening, done, waiting => do
    let t ← peek
    match t.kind, waiting with
    | .eof, _ =>
      let last := (← get).last
      fail "unclosed inline table" [.spelling "\x7d"] last.after
    | .comment, _ | .blank, _ | .newline, _ =>
      let _ ← next
      readTable fuel depth opening done waiting
    | .comma, .comma =>
      let _ ← next
      readTable fuel depth opening done .key
    | .comma, w => fail "extra comma in inline table" [w.expected] t.span.before
    | .equals, .key =>
      let _ ← next
      readTable fuel depth opening done (.value [nothingAt t.span.before])
    | .equals, .equals k =>
      let _ ← next
      readTable fuel depth opening done (.value k)
    | .equals, w => fail "extra assignment between key-value pairs" [w.expected] t.span.before
    | .closeTable, .equals _ =>
      fail "missing assignment between key-value pairs" [.spelling "="] t.span.before
    | .closeTable, w =>
      let done := match w with
        | .value k => done ++ [(k, .simple (nothingAt t.span.before))]
        | _ => done
      let _ ← next
      return .table done (opening.through t.span)
    | _, .value k =>
      let v ← readValue fuel depth
      readTable fuel depth opening (done ++ [(k, v)]) .comma
    | .openTable, .key | .openTable, .comma | .openArray, .key | .openArray, .comma =>
      fail "missing key for inline table element" [waiting.expected] t.span.before
    | .closeArray, w => fail "invalid inline table element" [w.expected] t.span.before
    | _, .key =>
      let (k, _) ← readKey fuel
      readTable fuel depth opening done (.equals k)
    | _, .equals _ =>
      fail "missing assignment between key-value pairs" [.spelling "="] t.span.before
    | _, .comma => fail "missing comma between key-value pairs" [.spelling ","] t.span.before

end

def endLine : Nat → Read Unit
  | 0 => return
  | fuel + 1 => do
    let t ← peek
    match t.kind with
    | .eof => return
    | .newline =>
      let _ ← next
      return
    | .comment | .blank =>
      let _ ← next
      endLine fuel
    | _ => fail "unexpected key or value" [.spelling "\n", .spelling "#"] t.span.before

def readHeader (fuel : Nat) (opening : Span) : Read Statement := do
  let array := (← nextIf .openArray).isSome
  let (key, whole) ← readKey fuel
  skipBlank
  let last := (← get).last
  match ← nextIf .closeArray with
  | some close =>
    let span ←
      if array then
        match ← nextIf .closeArray with
        | some second => pure (opening.through second.span)
        | none => fail "unclosed array table" [.spelling "]"] close.span.after
      else pure (opening.through close.span)
    endLine fuel
    return .header key array span
  | none =>
    if whole then
      if array then fail "unclosed array table" [.spelling "]]"] last.after
      else fail "unclosed table" [.spelling "]"] last.after
    else return .header key array opening

def readPair (fuel : Nat) : Read Statement := do
  let first := (← peek).kind
  let (key, _) ← readKey fuel
  skipBlank
  match ← nextIf .equals with
  | none =>
    let description := if first = .dot then "missing value for key" else "key with no value"
    fail description [.spelling "="] (← peek).span.before
  | some _ =>
    skipBlank
    let value ← readValue fuel 0
    endLine fuel
    return .pair key value

def readStatements (fuel : Nat) : Nat → List Statement → Read (List Statement)
  | 0, done => return done
  | steps + 1, done => do
    let t ← peek
    match t.kind with
    | .eof => return done
    | .blank | .newline | .comment =>
      let _ ← next
      readStatements fuel steps done
    | .openArray =>
      let _ ← next
      let s ← readHeader fuel t.span
      readStatements fuel steps (done ++ [s])
    | .closeArray => fail "missing table open" [.spelling "["] t.span.before
    | .comma | .openTable | .closeTable =>
      fail "invalid key-value pair" [.description "key"] t.span.before
    | _ =>
      let s ← readPair fuel
      readStatements fuel steps (done ++ [s])

def statements (cs : List Char) : Except Fault (List Statement) :=
  let ts := tokens cs
  let fuel := 2 * ts.length + 2
  match (readStatements fuel fuel []).run ⟨ts, ⟨0, 0⟩⟩ with
  | .ok (done, _) => .ok done
  | .error f => .error f

end SafeRefactor.Toml
