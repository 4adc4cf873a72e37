import SafeRefactor.Json.Value

/-!
# Reading records

How the fields of a record are taken out of a JSON value. A record is an object with the fields as
members, in any order and possibly with others among them, or an array of the fields in order.
-/

set_option autoImplicit false

namespace SafeRefactor.Json

inductive Record where
  | named (members : List (String × Json))
  | listed (items : List Json)

def record? (fields : List String) : Json → Option Record
  | object members =>
    if fields.all fun f => (members.map Prod.fst).count f ≤ 1 then some (.named members) else none
  | array items => if items.length ≤ fields.length then some (.listed items) else none
  | _ => none

namespace Record

def field? (r : Record) (name : String) (place : Nat) : Option Json :=
  match r with
  | named members => member? name members
  | listed items => items[place]?

def required {α : Type} (r : Record) (name : String) (place : Nat) (read : Json → Option α) :
    Option α :=
  match r.field? name place with
  | some v => read v
  | none => none

def optional {α : Type} (r : Record) (name : String) (place : Nat) (read : Json → Option α) :
    Option (Option α) :=
  match r.field? name place with
  | some null => some none
  | some v => (read v).map some
  | none =>
    match r with
    | named _ => some none
    | listed _ => none

def defaulted {α : Type} (r : Record) (name : String) (place : Nat) (default : α)
    (read : Json → Option α) : Option α :=
  match r.field? name place with
  | some v => read v
  | none => some default

end Record

def text? : Json → Option String
  | string s => some s
  | _ => none

def bool? : Json → Option Bool
  | bool b => some b
  | _ => none

def below? (bound : Nat) : Json → Option Nat
  | integer (.ofNat n) => if n < bound then some n else none
  | _ => none

def nat? (v : Json) : Option Nat := below? (Nat.pow 2 64) v

def readAll {α : Type} (read : Json → Option α) : List Json → Option (List α)
  | [] => some []
  | v :: vs =>
    match read v with
    | none => none
    | some a => (readAll read vs).map (a :: ·)

def list? {α : Type} (read : Json → Option α) : Json → Option (List α)
  | array items => readAll read items
  | _ => none

def entry? {α : Type} (all : List α) (key : α → String) : Json → Option α
  | string s => all.find? fun a => key a == s
  | object [(s, null)] => all.find? fun a => key a == s
  | _ => none

end SafeRefactor.Json
