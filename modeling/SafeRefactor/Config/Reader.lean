import SafeRefactor.Config.Settings
import SafeRefactor.Sort
import SafeRefactor.Text.Quoted
import SafeRefactor.Toml.Number
import SafeRefactor.Toml.Value

/-!
# Reading settings

From a TOML text to settings. Sections and keys that are not known are refused, and so are values of
the wrong type. The keys of a table are looked at in alphabetical order, so the first fault in that
order is the one that is shown. A section may also be given as an array of its values.
-/

set_option autoImplicit false

namespace SafeRefactor

open Toml (Value Fault)

namespace Settings

def oneOf (names : List String) : String :=
  let quote (s : String) : String := "`" ++ s ++ "`"
  match names with
  | [a] => quote a
  | [a, b] => quote a ++ " or " ++ quote b
  | _ => "one of " ++ Text.join ", " (names.map quote)

def mention : Value → Except Fault String
  | .scalar (.string s) _ => .ok ("string " ++ Text.quoted s)
  | .scalar (.boolean b) _ => .ok (if b then "boolean `true`" else "boolean `false`")
  | .scalar (.integer ds base) span =>
    match Toml.mentionInteger? ds base with
    | some m => .ok m
    | none => .error ⟨"integer number overflowed", span⟩
  | .scalar (.float text) span =>
    match Toml.mentionFloat? text with
    | some m => .ok m
    | none => .error ⟨"floating-point number overflowed", span⟩
  | .scalar .moment _ => .ok "map"
  | .array _ _ _ => .ok "sequence"
  | .table _ _ _ => .ok "map"

def wrongType {α : Type} (v : Value) (expected : String) : Except Fault α :=
  match mention v with
  | .ok m => .error ⟨"invalid type: " ++ m ++ ", expected " ++ expected, v.span⟩
  | .error f => .error f

def readBool : Value → Except Fault Bool
  | .scalar (.boolean b) _ => .ok b
  | v => wrongType v "a boolean"

def readString : Value → Except Fault String
  | .scalar (.string s) _ => .ok s
  | v => wrongType v "a string"

def readStrings : Value → Except Fault (List String)
  | .array items _ _ => items.mapM readString
  | v => wrongType v "a sequence"

def formatNamed (name : String) (span : Toml.Span) : Except Fault Format :=
  match Format.all.find? fun f => f.key = name with
  | some f => .ok f
  | none =>
    .error ⟨"unknown variant `" ++ name ++ "`, expected " ++
      oneOf (Format.all.map Format.key), span⟩

def readFormat : Value → Except Fault Format
  | .scalar (.string s) span => formatNamed s span
  | .table _ [] span => .error ⟨"wanted exactly 1 element, found 0 elements", span⟩
  | .table _ [(name, keySpan, v)] _ => do
    let f ← formatNamed name keySpan
    match v with
    | .array [] _ _ | .table _ [] _ => return f
    | .array _ _ span => throw ⟨"expected empty array", span⟩
    | .table _ _ span => throw ⟨"expected empty table", span⟩
    | v => throw ⟨"expected table, found " ++ v.kind, v.span⟩
  | .table _ _ span => .error ⟨"wanted exactly 1 element, more than 1 element", span⟩
  | v => .error ⟨"wanted string or table", v.span⟩

structure Field where
  name : String
  read : Settings → Value → Except Fault Settings

def unknownField {α : Type} (name : String) (fields : List Field) (span : Toml.Span) :
    Except Fault α :=
  .error ⟨"unknown field `" ++ name ++ "`, expected " ++ oneOf (fields.map Field.name), span⟩

def readEntries (fields : List Field) (s : Settings) (entries : Toml.Entries) :
    Except Fault Settings :=
  (sortBy (fun a b => a.1 < b.1 || a.1 == b.1) entries).foldlM (fun s (name, span, v) =>
    match fields.find? fun f => f.name = name with
    | some f => f.read s v
    | none => unknownField name fields span) s

def readSection (title : String) (fields : List Field) (s : Settings) : Value →
    Except Fault Settings
  | .table _ entries _ => readEntries fields s entries
  | .array items _ _ => (fields.zip items).foldlM (fun s (f, v) => f.read s v) s
  | .scalar .moment span => unknownField "$__toml_private_datetime" fields span
  | v => wrongType v ("struct " ++ title)

def ruleFields : List Field := [
  ⟨"enabled", fun s v => do return { s with enabled := some (← readStrings v) }⟩,
  ⟨"disabled", fun s v => do return { s with disabled := ← readStrings v }⟩]

def sections : List Field := [
  ⟨"rules", readSection "RulesConfig" ruleFields⟩,
  ⟨"analysis", readSection "AnalysisConfig"
    [⟨"exclude", fun s v => do return { s with exclude := ← readStrings v }⟩]⟩,
  ⟨"execution", readSection "ExecutionConfig"
    [⟨"allow_review", fun s v => do return { s with allowReview := ← readBool v }⟩]⟩,
  ⟨"output", readSection "OutputConfig"
    [⟨"default_format", fun s v => do return { s with format := ← readFormat v }⟩]⟩,
  ⟨"policy", readSection "PolicyConfig"
    [⟨"fail_on_refusal", fun s v => do return { s with failOnRefusal := ← readBool v }⟩]⟩]

def read (text : String) : Except Fault Settings := do
  let entries ← Toml.parse text
  readEntries sections {} entries

def parse (text : String) : Except String Settings :=
  (read text).mapError fun f => f.render text

end Settings

end SafeRefactor
