import SafeRefactor.Config.Reader
import SafeRefactor.Files.Store

/-!
# Configuration files

Where settings come from: a file that was named, or the nearest one of the usual name in a directory
and those above it. A file that is there but cannot be read is an error, never passed over.
-/

set_option autoImplicit false

namespace SafeRefactor.Settings

def fileName : String := ".refactor-advisor.toml"

def searchDepth : Nat := 10

inductive LoadError where
  | unreadable (path : String) (cause : FileError)
  | malformed (path : String) (message : String)
  deriving DecidableEq, Repr

namespace LoadError

def message : LoadError → String
  | unreadable path cause => "Failed to read config file " ++ path ++ ": " ++ cause.message
  | malformed path text => "Failed to parse " ++ path ++ ": " ++ text

def chain : LoadError → String
  | unreadable path cause => (unreadable path cause).message ++ ": " ++ cause.message
  | e => e.message

end LoadError

def loadFile (s : Store) (cwd : Location) (path : String) : Except LoadError Settings :=
  match s.read cwd path with
  | .error e => .error (.unreadable path e)
  | .ok text => (parse text).mapError (.malformed path)

def isFile (s : Store) (cwd : Location) (path : String) : Bool :=
  match s.find? cwd path with
  | some (.file _) => true
  | _ => false

def nearest? (s : Store) (cwd : Location) (start : String) : Option String :=
  ((Path.ancestors start searchDepth).map (Path.join · fileName)).find? (isFile s cwd)

def load (s : Store) (cwd : Location) (start : String) :
    Except LoadError (Settings × Option String) :=
  match nearest? s cwd start with
  | none => .ok ({}, none)
  | some path => (loadFile s cwd path).map fun c => (c, some path)

end SafeRefactor.Settings
