/-!
# Diagnostics

What the advisor says about its own progress: a message, the phase it belongs to, its level, and the
source it concerns. Functions that report progress return their diagnostics beside their result.
-/

set_option autoImplicit false

namespace SafeRefactor

inductive Phase where
  | parsing
  | detection
  | planning
  | execution
  | reporting
  deriving DecidableEq, Repr

def Phase.name : Phase → String
  | parsing => "parsing"
  | detection => "detection"
  | planning => "planning"
  | execution => "execution"
  | reporting => "reporting"

inductive Level where
  | debug
  | info
  | warn
  deriving DecidableEq, Repr

namespace Level

def title : Level → String
  | debug => "Debug"
  | info => "Info"
  | warn => "Warn"

def tag : Level → String
  | debug => "DEBUG"
  | info => "INFO"
  | warn => "WARN"

def threshold : Level → Nat
  | warn => 0
  | info => 1
  | debug => 2

end Level

structure Diagnostic where
  phase : Phase
  level : Level
  sourceId : Option String
  message : String
  deriving DecidableEq, Repr

def verbosityName : Nat → String
  | 0 => "warn"
  | 1 => "info"
  | 2 => "debug"
  | _ => "trace"

end SafeRefactor
