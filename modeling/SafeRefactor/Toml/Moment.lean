/-!
# Dates and times of a TOML text

Whether a piece of text is a date, a time, or a date and a time with or without an offset, and what
is wrong with it otherwise. Nothing else about it is ever used.
-/

set_option autoImplicit false

namespace SafeRefactor.Toml.Moment

inductive Piece where
  | digits (text : List Char)
  | sign (c : Char)
  deriving DecidableEq, Repr

def pieces : List Char → List Piece
  | [] => []
  | c :: cs =>
    if c.isDigit then
      match pieces cs with
      | .digits ds :: rest => .digits (c :: ds) :: rest
      | rest => .digits [c] :: rest
    else .sign c :: pieces cs

abbrev Check := StateT (List Piece) (Except String)

def complain {α : Type} (what expected : String) : Check α :=
  throw ("invalid " ++ what ++ ", expected " ++ expected)

def digits (what expected : String) : Check (List Char) := do
  match ← get with
  | .digits ds :: rest =>
    set rest
    return ds
  | _ => complain what expected

def sign (among : List Char) (what expected : String) : Check Unit := do
  match ← get with
  | .sign c :: rest => if c ∈ among then set rest else complain what expected
  | _ => complain what expected

def sign? (among : List Char) : Check Bool := do
  match ← get with
  | .sign c :: rest =>
    if c ∈ among then
      set rest
      return true
    else return false
  | _ => return false

def number (ds : List Char) : Nat := ds.foldl (fun n c => 10 * n + (c.toNat - 48)) 0

def daysOf (year month : Nat) : Nat :=
  if month = 2 then if year % 4 = 0 ∧ (year % 100 ≠ 0 ∨ year % 400 = 0) then 29 else 28
  else if month ∈ [4, 6, 9, 11] then 30
  else 31

def require (holds : Prop) [Decidable holds] (what expected : String) : Check Unit :=
  if holds then pure () else complain what expected

def date (year : List Char) : Check Unit := do
  let month ← digits "date" "month"
  sign ['-'] "date" "`-` (MM-DD)"
  let day ← digits "date" "day"
  require (year.length = 4) "date" "a four-digit year (YYYY)"
  require (month.length = 2) "date" "a two-digit month (MM)"
  require (day.length = 2) "date" "a two-digit day (DD)"
  require (1 ≤ number month ∧ number month ≤ 12) "date" "month between 01 and 12"
  let last := daysOf (number year) (number month)
  require (1 ≤ number day ∧ number day ≤ last) "date" s!"day between 01 and {last}"

def time : Check Unit := do
  let hour ← digits "time" "hour"
  sign [':'] "time" "`:` (HH:MM)"
  let minute ← digits "time" "minute"
  let second ← if ← sign? [':'] then some <$> digits "time" "second" else pure none
  if second.isSome then
    if ← sign? ['.'] then
      let _ ← digits "time" "nanosecond"
  require (hour.length = 2) "time" "a two-digit hour (HH)"
  require (minute.length = 2) "time" "a two-digit minute (MM)"
  require (∀ s ∈ second, s.length = 2) "time" "a two-digit second (SS)"
  require (number hour ≤ 23) "time" "hour between 00 and 23"
  require (number minute ≤ 59) "time" "minute between 00 and 59"
  require (∀ s ∈ second, number s ≤ 60) "time" "second between 00 and 60"

def offset : Check Unit := do
  match ← get with
  | [] => return
  | _ =>
    if ← sign? ['Z', 'z'] then return
    else if ← sign? ['+', '-'] then
      let hours ← digits "offset" "hour"
      sign [':'] "offset" "`:` (HH:MM)"
      let minutes ← digits "offset" "minute"
      require (hours.length = 2) "offset" "a two-digit hour (HH)"
      require (minutes.length = 2) "offset" "a two-digit minute (MM)"
      require (number hours ≤ 23) "offset" "hours between 00 and 23"
      require (number minutes ≤ 59) "offset" "minutes between 00 and 59"
    else complain "offset" "`Z`, +OFFSET, -OFFSET"

def whole : Check Unit := do
  let start ← get
  let first ← digits "datetime" "year or hour"
  if ← sign? ['-'] then
    date first
    if !(← get).isEmpty then
      sign ['T', 't', ' '] "date-time" "`T` between date and time"
      time
      offset
  else if ← sign? [':'] then
    set start
    time
  else complain "datetime" "`-` (YYYY-MM) or `:` (HH:MM)"
  if !(← get).isEmpty then throw "invalid datetime"

def fault? (cs : List Char) : Option String :=
  match whole.run (pieces cs) with
  | .ok _ => none
  | .error e => some e

end SafeRefactor.Toml.Moment
