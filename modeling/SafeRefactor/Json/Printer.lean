import SafeRefactor.Json.Value
import SafeRefactor.Text.Hexadecimal

/-!
# Writing JSON

Values as text, on one line or indented by two blanks a level. Quotation marks, backslashes and
control characters are escaped; everything else stands for itself.
-/

set_option autoImplicit false

namespace SafeRefactor.Json

def escape (c : Char) : List Char :=
  if c = '\x22' then ['\\', '\x22']
  else if c = '\\' then ['\\', '\\']
  else if c = '\x08' then ['\\', 'b']
  else if c = '\x0c' then ['\\', 'f']
  else if c = '\n' then ['\\', 'n']
  else if c = '\r' then ['\\', 'r']
  else if c = '\t' then ['\\', 't']
  else if c.toNat < 32 then ['\\', 'u', '0', '0', Text.hexDigit (c.toNat / 16),
    Text.hexDigit (c.toNat % 16)]
  else [c]

def quote (s : String) : String := String.ofList ('\x22' :: s.toList.flatMap escape ++ ['\x22'])

def integerText (n : Int) : String :=
  match n with
  | .ofNat n => toString n
  | .negSucc n => "-" ++ toString (n + 1)

mutual

def compress : Json → String
  | null => "null"
  | bool b => if b then "true" else "false"
  | integer n => integerText n
  | real s => s
  | string s => quote s
  | array items => "[" ++ compressItems true items ++ "]"
  | object members => "\x7b" ++ compressMembers true members ++ "\x7d"

def compressItems : (first : Bool) → List Json → String
  | _, [] => ""
  | first, v :: vs => (if first then "" else ",") ++ compress v ++ compressItems false vs

def compressMembers : (first : Bool) → List (String × Json) → String
  | _, [] => ""
  | first, (k, v) :: ms =>
    (if first then "" else ",") ++ quote k ++ ":" ++ compress v ++ compressMembers false ms

end

def newLine (level : Nat) : String := "\n" ++ String.ofList (List.replicate (2 * level) ' ')

mutual

/-- A value over several lines. `level` is the indentation of the line it begins on. -/
def prettyAt (level : Nat) : Json → String
  | null => "null"
  | bool b => if b then "true" else "false"
  | integer n => integerText n
  | real s => s
  | string s => quote s
  | array items =>
    match items with
    | [] => "[]"
    | v :: vs => "[" ++ newLine (level + 1) ++ prettyAt (level + 1) v ++
        prettyItems (level + 1) vs ++
        newLine level ++ "]"
  | object members =>
    match members with
    | [] => "\x7b\x7d"
    | (k, v) :: ms => "\x7b" ++ newLine (level + 1) ++ quote k ++ ": " ++ prettyAt (level + 1) v ++
        prettyMembers (level + 1) ms ++ newLine level ++ "\x7d"

def prettyItems (level : Nat) : List Json → String
  | [] => ""
  | v :: vs => "," ++ newLine level ++ prettyAt level v ++ prettyItems level vs

def prettyMembers (level : Nat) : List (String × Json) → String
  | [] => ""
  | (k, v) :: ms => "," ++ newLine level ++ quote k ++ ": " ++ prettyAt level v ++
      prettyMembers level ms

end

def pretty (v : Json) : String := prettyAt 0 v

end SafeRefactor.Json
