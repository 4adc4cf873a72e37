import SafeRefactor.Command.Arguments
import SafeRefactor.Output

/-!
# Invocations

What a command line asks for. The number of `-v` and the configuration file can be given before the
command or behind it; behind it counts more. The configuration file can also come from the
environment, which counts least.
-/

set_option autoImplicit false

namespace SafeRefactor.Command

structure AnalyzeOptions where
  paths : List String
  format : Option Format := none
  output : Option String := none
  rules : Option (List String) := none
  disabled : Option (List String) := none
  failOnRefusal : Bool := false
  plain : Bool := false
  deriving DecidableEq, Repr

structure ApplyOptions where
  file : String
  live : Bool := false
  allowReview : Bool := false
  write : Bool := false
  format : Option Format := none
  output : Option String := none
  deriving DecidableEq, Repr

inductive Action where
  | analyze (options : AnalyzeOptions)
  | apply (options : ApplyOptions)
  | init (force : Bool)
  deriving DecidableEq, Repr

structure Invocation where
  verbosity : Nat
  config : Option String
  action : Action
  deriving DecidableEq, Repr

def maxVerbosity : Nat := 255

def isPath (s : String) : Bool := s ≠ ""

def verboseSwitch : Switch := { name := "verbose", short := some 'v', takes := .count }

def configSwitch : Switch := { name := "config", takes := .value, accepts := isPath }

def helpSwitch : Switch := { name := "help", short := some 'h', takes := .stop .help }

def sharedSwitches : List Switch := [verboseSwitch, configSwitch, helpSwitch]

def formatOf? (s : String) : Option Format := Format.all.find? fun f => f.key = s

def outputSwitches : List Switch := [
  { name := "format", short := some 'f', takes := .value,
    accepts := fun s => (formatOf? s).isSome },
  { name := "output", short := some 'o', takes := .value, accepts := isPath }]

def programLayout : Layout where
  switches := sharedSwitches ++ [{ name := "version", short := some 'V', takes := .stop .version }]
  commands := ["analyze", "apply", "init", "help"]

def analyzeLayout : Layout where
  switches := sharedSwitches ++ outputSwitches ++ [
    { name := "rules", takes := .list },
    { name := "disable", takes := .list },
    { name := "fail-on-refusal", takes := .nothing },
    { name := "plain", takes := .nothing }]
  operand := some { name := "PATHS", takes := .operands, accepts := isPath }

def applyLayout : Layout where
  switches := sharedSwitches ++ outputSwitches ++ [
    { name := "live", takes := .nothing },
    { name := "allow-review", takes := .nothing },
    { name := "write", takes := .nothing }]
  operand := some { name := "FILE", takes := .value, accepts := isPath }

def initLayout : Layout where
  switches := sharedSwitches ++ [{ name := "force", short := some 'f', takes := .nothing }]

def Reading.format? (l : Reading) : Option Format := (l.value? "format").bind formatOf?

def analyzeAction (l : Reading) : Except UsageError Action :=
  match l.values "PATHS" with
  | [] => .error .missingArgument
  | paths => .ok (.analyze {
      paths, format := l.format?, output := l.value? "output", rules := l.values? "rules",
      disabled := l.values? "disable", failOnRefusal := l.has "fail-on-refusal",
      plain := l.has "plain" })

/-- What the switches of `apply` ask for. Writing needs a live run. -/
def applyAction (l : Reading) : Except UsageError Action :=
  match l.value? "FILE" with
  | none => .error .missingArgument
  | some file =>
    if l.has "write" ∧ !l.has "live" then .error .missingArgument
    else .ok (.apply {
      file, live := l.has "live", allowReview := l.has "allow-review", write := l.has "write",
      format := l.format?, output := l.value? "output" })

def initAction (l : Reading) : Except UsageError Action := .ok (.init (l.has "force"))

def Reading.fillIn (l : Reading) (env : Option String) : Except UsageError Reading :=
  match env with
  | some path => if l.has "config" then .ok l else l.record configSwitch [path]
  | none => .ok l

def readCommand (layout : Layout) (action : Reading → Except UsageError Action)
    (env : Option String)
    (args : List String) : Except UsageError (Reading × Action) := do
  let (l, _) ← Reading.words layout {} args
  let l ← l.settle
  let _ ← l.fillIn env
  return (l, ← action l)

def helpFor : List String → UsageError
  | [] => .help
  | [name] => if programLayout.commands.contains name then .help else .unknownCommand
  | _ => .unknownCommand

/-- Reads a command line. `env` is the configuration file that the environment names. -/
def Invocation.read (env : Option String) (args : List String) : Except UsageError Invocation := do
  let (top, command) ← Reading.words programLayout {} args
  match command with
  | none =>
    let top ← top.settle
    let top ← top.fillIn env
    throw (if top.given.isEmpty then .nothingGiven else .missingCommand)
  | some (name, rest) =>
    let (inner, action) ←
      if name = "analyze" then readCommand analyzeLayout analyzeAction env rest
      else if name = "apply" then readCommand applyLayout applyAction env rest
      else if name = "init" then readCommand initLayout initAction env rest
      else throw (helpFor rest)
    let top ← top.settle
    let _ ← top.fillIn env
    let verbosity := if inner.has "verbose" then inner.count "verbose" else top.count "verbose"
    return {
      verbosity := min verbosity maxVerbosity
      config := (inner.value? "config").orElse fun _ => (top.value? "config").orElse fun _ => env
      action }

end SafeRefactor.Command
