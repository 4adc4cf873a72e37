import SafeRefactor.Toml.Scalar

/-!
# Values of a TOML text

The table that a text describes. Every value and every key keeps the stretch of text it came from,
so that a reader of the table can point at what it does not like.
-/

set_option autoImplicit false

namespace SafeRefactor.Toml

inductive Style where
  | headed
  | implied
  | dotted
  | braced
  deriving DecidableEq, Repr

def Style.isMentioned : Style → Bool
  | implied | dotted => true
  | _ => false

inductive Value where
  | scalar (value : Scalar) (span : Span)
  | array (items : List Value) (growing : Bool) (span : Span)
  | table (style : Style) (entries : List (String × Span × Value)) (span : Span)
  deriving Repr

abbrev Entries := List (String × Span × Value)

structure Name where
  text : String
  span : Span
  deriving DecidableEq, Repr

namespace Value

def span : Value → Span
  | scalar _ s | array _ _ s | table _ _ s => s

def kind : Value → String
  | scalar (.string _) _ => "string"
  | scalar (.integer _ _) _ => "integer"
  | scalar (.float _) _ => "float"
  | scalar (.boolean _) _ => "boolean"
  | scalar .moment _ => "datetime"
  | array _ _ _ => "array"
  | table .braced _ _ => "inline table"
  | table _ _ _ => "table"

end Value

namespace Entries

def value? (es : Entries) (name : String) : Option Value :=
  (List.find? (fun e => e.1 = name) es).map fun e => e.2.2

def exchange (es : Entries) (name : String) (v : Value) : Entries :=
  es.map fun e => if e.1 = name then (e.1, e.2.1, v) else e

def without (es : Entries) (name : String) : Entries := es.filter fun e => e.1 ≠ name

end Entries

def duplicate {α : Type} (n : Name) : Except Fault α := .error ⟨"duplicate key", n.span⟩

def extendFault {α : Type} (n : Name) (v : Value) : Except Fault α :=
  .error ⟨"cannot extend value of type " ++ v.kind ++ " with a dotted key", n.span⟩

inductive Walker where
  | header
  | key
  | bracedKey
  deriving DecidableEq, Repr

def Walker.style : Walker → Style
  | header => .implied
  | key | bracedKey => .dotted

def reach (walker : Walker) (act : Style → Entries → Except Fault Entries) :
    List Name → Style → Entries → Except Fault Entries
  | [], style, es => act style es
  | n :: path, _, es =>
    match es.value? n.text with
    | none => do
      let inner ← reach walker act path walker.style []
      return es ++ [(n.text, n.span, .table walker.style inner n.span)]
    | some (.table style inner span) =>
      if style = .braced ∧ walker ≠ .bracedKey then extendFault n (.table style inner span)
      else if walker ≠ .header ∧ !style.isMentioned then duplicate n
      else do
        let inner ← reach walker act path style inner
        return es.exchange n.text (.table style inner span)
    | some (.array items growing span) =>
      match growing, items.getLast? with
      | true, some (.table style inner last) => do
        let inner ← reach walker act path style inner
        return es.exchange n.text (.array (items.dropLast ++ [.table style inner last])
          growing span)
      | _, _ => extendFault n (.array items growing span)
    | some v => extendFault n v

def assign (walker : Walker) (path : List Name) (n : Name) (v : Value) (es : Entries) :
    Except Fault Entries :=
  reach walker (fun style inner =>
    if (style = .dotted) ≠ (path ≠ []) then duplicate n
    else if (inner.value? n.text).isSome then duplicate n
    else .ok (inner ++ [(n.text, n.span, v)])) path .headed es

def WrittenKey.names (key : WrittenKey) : Except Fault (List Name × Name) := do
  let names ← key.mapM fun w => do
    let text ← w.name
    return (⟨text, w.span⟩ : Name)
  return (names.dropLast, names.getLastD ⟨"", ⟨0, 0⟩⟩)

mutual

def WrittenValue.value : WrittenValue → Except Fault Value
  | .simple w => do return .scalar (← w.scalar) w.span
  | .array items span => do return .array (← WrittenValue.values items) false span
  | .table pairs span => do return .table .braced (← WrittenValue.entries [] pairs) span

def WrittenValue.values : List WrittenValue → Except Fault (List Value)
  | [] => .ok []
  | w :: ws => do
    let v ← w.value
    return v :: (← WrittenValue.values ws)

def WrittenValue.entries (done : Entries) : List (WrittenKey × WrittenValue) → Except Fault Entries
  | [] => .ok done
  | (k, w) :: rest => do
    let (path, n) ← WrittenKey.names k
    let v ← w.value
    WrittenValue.entries (← assign .bracedKey path n v done) rest

end

structure Header where
  path : List Name
  name : Name
  array : Bool
  span : Span
  deriving Repr

structure Draft where
  root : Entries := []
  current : Entries := []
  header : Option Header := none
  deriving Repr

namespace Draft

def finish (d : Draft) : Except Fault Draft :=
  match d.header with
  | none => .ok { root := d.current }
  | some h => do
    let root ← reach .header (fun _ es =>
      let t := Value.table .headed d.current h.span
      if h.array then
        match es.value? h.name.text with
        | none => .ok (es ++ [(h.name.text, h.name.span, .array [t] true h.span)])
        | some (.array items true span) =>
            .ok (es.exchange h.name.text (.array (items ++ [t]) true span))
        | some _ => duplicate h.name
      else .ok (es ++ [(h.name.text, h.name.span, t)])) h.path .headed d.root
    return { root }

def start (d : Draft) (h : Header) : Except Fault Draft :=
  if h.array then .ok { d with header := some h }
  else do
    let _ ← reach .header (fun _ es => .ok es) h.path .headed d.root
    let before := ancestor h.path d.root
    match before.value? h.name.text with
    | none => return { d with header := some h }
    | some (.table .implied inner _) =>
      let root ← reach .header (fun _ es => .ok (es.without h.name.text)) h.path .headed d.root
      return { root, current := inner, header := some h }
    | some _ => duplicate h.name
where
  ancestor : List Name → Entries → Entries
    | [], es => es
    | n :: path, es =>
      match es.value? n.text with
      | some (.table _ inner _) => ancestor path inner
      | some (.array items _ _) =>
        match items.getLast? with
        | some (.table _ inner _) => ancestor path inner
        | _ => []
      | _ => []

def add (d : Draft) : Statement → Except Fault Draft
  | .header key array span => do
    let d ← d.finish
    let (path, name) ← WrittenKey.names key
    d.start ⟨path, name, array, span⟩
  | .pair key w => do
    let (path, n) ← WrittenKey.names key
    let v ← w.value
    return { d with current := ← assign .key path n v d.current }

end Draft

def parse (text : String) : Except Fault Entries := do
  let written ← statements text.toList
  let d ← written.foldlM Draft.add {}
  let d ← d.finish
  return d.root

end SafeRefactor.Toml
