import SafeRefactor.Text.Lines

/-!
# Reading arguments

A command line by level: the program's own switches, then a command's switches and operands. A
switch is recorded when it is settled, which for one that waits for its value, and for operands, is
when the next one comes or the level ends. The first thing that goes wrong in that order is the
error.
-/

set_option autoImplicit false

namespace SafeRefactor.Command

inductive UsageError where
  | help
  | version
  | nothingGiven
  | missingCommand
  | unknownCommand
  | unknownArgument
  | badValue
  | unwantedValue
  | repeated
  | missingArgument
  deriving DecidableEq, Repr

def UsageError.exitStatus : UsageError → Nat
  | help | version => 0
  | _ => 2

inductive Takes where
  | nothing
  | count
  | value
  | list
  | operands
  | stop (e : UsageError)
  deriving DecidableEq, Repr

def Takes.hasValue : Takes → Bool
  | .value | .list => true
  | _ => false

structure Switch where
  name : String
  short : Option Char := none
  takes : Takes
  accepts : String → Bool := fun _ => true

structure Layout where
  switches : List Switch
  operand : Option Switch := none
  commands : List String := []

structure Reading where
  given : List (String × List String) := []
  waiting : Option (Switch × List String) := none
  wantsValue : Bool := false
  operandsOnly : Bool := false

namespace Reading

def has (l : Reading) (name : String) : Bool := l.given.any fun g => g.1 = name

def values (l : Reading) (name : String) : List String :=
  (l.given.filter fun g => g.1 = name).flatMap (·.2)

def count (l : Reading) (name : String) : Nat := (l.given.filter fun g => g.1 = name).length

def values? (l : Reading) (name : String) : Option (List String) :=
  if l.has name then some (l.values name) else none

def value? (l : Reading) (name : String) : Option String := (l.values name).head?

def record (l : Reading) (s : Switch) (values : List String) : Except UsageError Reading :=
  let once := l.has s.name
  match s.takes with
  | .stop e => .error e
  | .nothing => if once then .error .repeated else .ok { l with given := l.given ++ [(s.name, [])] }
  | .count => .ok { l with given := l.given ++ [(s.name, [])] }
  | .value =>
    if values.isEmpty then .error .badValue
    else if once then .error .repeated
    else if values.all s.accepts then .ok { l with given := l.given ++ [(s.name, values)] }
    else .error .badValue
  | .list =>
    if values.isEmpty then .error .badValue
    else
      let parts := values.flatMap fun v => (Text.splitAt ',' v.toList).map String.ofList
      .ok { l with given := l.given ++ [(s.name, parts)] }
  | .operands =>
    if values.all s.accepts then .ok { l with given := l.given ++ [(s.name, values)] }
    else .error .badValue

def settle (l : Reading) : Except UsageError Reading :=
  match l.waiting with
  | none => .ok l
  | some (s, values) => Reading.record { l with waiting := none, wantsValue := false } s values

def give (l : Reading) (s : Switch) (values : List String) : Except UsageError Reading := do
  let l ← l.settle
  l.record s values

def await (l : Reading) (s : Switch) : Except UsageError Reading := do
  let l ← l.settle
  return { l with waiting := some (s, []), wantsValue := true }

def long (layout : Layout) (l : Reading) (name : String) (attached : Option String) :
    Except UsageError Reading :=
  match layout.switches.find? fun s => s.name = name with
  | none => .error .unknownArgument
  | some s =>
    if s.takes.hasValue then
      match attached with
      | some v => l.give s [v]
      | none => l.await s
    else if attached.isSome then .error .unwantedValue
    else l.give s []

def short (layout : Layout) (l : Reading) : List Char → Except UsageError Reading
  | [] => .ok l
  | c :: cs =>
    match layout.switches.find? fun s => s.short = some c with
    | none => .error .unknownArgument
    | some s =>
      if s.takes.hasValue then
        match cs with
        | [] => l.await s
        | '=' :: v => l.give s [String.ofList v]
        | v => l.give s [String.ofList v]
      else do
        let l ← l.give s []
        short layout l cs

def operand (layout : Layout) (l : Reading) (word : String) : Except UsageError Reading :=
  match layout.operand with
  | none =>
    if layout.commands.isEmpty ∨ (l.operandsOnly ∧ layout.commands.contains word) then
      .error .unknownArgument
    else .error .unknownCommand
  | some s =>
    match s.takes, l.waiting with
    | .operands, some (t, values) =>
      if t.name = s.name then .ok { l with waiting := some (s, values ++ [word]) }
      else do
        let l ← l.settle
        return { l with waiting := some (s, [word]) }
    | .operands, none => .ok { l with waiting := some (s, [word]) }
    | _, waiting =>
      if l.has s.name ∨ waiting.any (·.1.name = s.name) then .error .unknownArgument
      else do
        let l ← l.settle
        return { l with waiting := some (s, [word]) }

def word (layout : Layout) (l : Reading) (w : String) : Except UsageError Reading :=
  if l.operandsOnly then l.operand layout w
  else match w.toList with
    | ['-', '-'] => .ok { l with operandsOnly := true }
    | '-' :: '-' :: cs =>
      let name := cs.takeWhile (· ≠ '=')
      let attached := match cs.drop name.length with
        | _ :: v => some (String.ofList v)
        | [] => none
      l.long layout (String.ofList name) attached
    | '-' :: c :: cs => l.short layout (c :: cs)
    | _ =>
      match l.wantsValue, l.waiting with
      | true, some (s, values) =>
        .ok { l with waiting := some (s, values ++ [w]), wantsValue := false }
      | _, _ => l.operand layout w

def words (layout : Layout) : Reading → List String →
    Except UsageError (Reading × Option (String × List String))
  | l, [] => .ok (l, none)
  | l, w :: ws =>
    if !l.operandsOnly ∧ !l.wantsValue ∧ layout.commands.contains w then .ok (l, some (w, ws))
    else
      match l.word layout w with
      | .ok l => words layout l ws
      | .error e => .error e

end Reading

end SafeRefactor.Command
