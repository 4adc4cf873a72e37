import SafeRefactor.Command.Run

/-!
# The program

The command line on real files. The files that a command may look at are read first, the command
runs on that copy, and the files that it changed are written back. If that fails the command runs
once more, on the disk as it turned out to be.
-/

set_option autoImplicit false

namespace SafeRefactor.Program

open Command

def causeOf : IO.Error → FileError
  | .noFileOrDirectory _ _ _ => .notFound
  | .alreadyExists _ code text | .invalidArgument _ code text | .permissionDenied _ code text
  | .resourceExhausted _ code text | .inappropriateType _ code text | .noSuchThing _ code text
  | .interrupted _ code text | .otherError code text | .resourceBusy code text
  | .resourceVanished code text | .unsupportedOperation code text | .hardwareFault code text
  | .unsatisfiedConstraints code text | .illegalOperation code text | .protocolError code text
  | .timeExpired code text => .system text code.toNat
  | .unexpectedEof => .system "Unexpected end of file" 0
  | .userError text => .system text 0

/-- What is at a location. A file that the command only writes is not read: it may be a device. -/
def itemAt (l : Location) (read : Bool := true) : IO (Option Item) := do
  let here := (← IO.currentDir) / Store.absolutePath l
  if ← here.isDir then return some .directory
  else if ← here.pathExists then
    if !read then return some (.file (.barred (.system "not read" 0)))
    match ← (IO.FS.readBinFile here).toBaseIO with
    | .ok bytes =>
      match String.fromUTF8? bytes with
      | some s => return some (.file (.text s))
      | none => return some (.file .binary)
    | .error e => return some (.file (.barred (causeOf e)))
  else return none

def copyItem (s : Store) (l : Location) (read : Bool := true) : IO Store := do
  match ← itemAt l read with
  | some i => return s.put l i
  | none => return s

partial def copyTree (s : Store) (l : Location) : IO Store := do
  let s ← copyItem s l
  if s.item? l = some .directory then
    let here := (← IO.currentDir) / Store.absolutePath l
    (← here.readDir).foldlM (fun s e => copyTree s (l ++ [e.fileName])) s
  else return s

def keptNames : List Location :=
  [[Settings.fileName], [".ignore"], [".gitignore"], [".jj"], [".git"], [".git", "info"],
    [".git", "info", "exclude"]]

def copyWay (s : Store) (l : Location) : IO Store :=
  (List.range (l.length + 1)).foldlM (fun s n => do
    let s ← copyItem s (l.take n)
    keptNames.foldlM (fun s names => copyItem s (l.take n ++ names)) s) s

def markWay (s : Store) (l : Location) : IO Store :=
  (List.range (l.length + 1)).foldlM (fun s n => copyItem s (l.take n) false) s

def locationOf (cwd : Location) (path : String) : Location :=
  (Path.parts path).foldl (fun l p =>
    match p with
    | .root => []
    | .here => l
    | .up => l.dropLast
    | .named n => l ++ [n]) cwd

def locationsOf (cwd : Location) (path : String) : List Location :=
  (List.range (path.length + 1)).map fun n => locationOf cwd (String.ofList (path.toList.take n))

def snapshot (cwd : Location) (i : Invocation) : IO Store := do
  let (trees, files, written) := match i.action with
    | .analyze o => (o.paths, [], o.output.toList)
    | .apply o => ([], [o.file], o.output.toList)
    | .init _ => ([], [], [])
  let paths := trees ++ files ++ i.config.toList
  let s ← ((written.flatMap (locationsOf cwd)).eraseDups).foldlM markWay {}
  let s ← copyWay s cwd
  let s ← ((paths.flatMap (locationsOf cwd)).eraseDups).foldlM copyWay s
  (trees.map (locationOf cwd)).foldlM copyTree s

/-- Writes a text to a location, and says what went wrong. -/
def writeAt (l : Location) (text : String) : IO (Option WriteFault) := do
  let here := (← IO.currentDir) / Store.absolutePath l
  match ← (IO.FS.Handle.mk here .write).toBaseIO with
  | .error e => return some (.refused (causeOf e))
  | .ok file =>
    match ← (do file.putStr text; file.flush : IO Unit).toBaseIO with
    | .ok () => return none
    | .error e => return some (.short (causeOf e) (← here.metadata).byteSize.toNat)

def writeBack (before after : Store) : IO (Option (Location × WriteFault)) := do
  for (l, i) in after.items.reverse do
    if let .file (.text t) := i then
      if before.item? l ≠ some i then
        if let some fault ← writeAt l t then
          return some (l, fault)
  return none

def faultyDisk (l : Location) (fault : WriteFault) : Disk where
  fault? _ m _ := if m = l then some fault else none

def usage : String :=
  "Deterministic refactoring advisor for Python source\n\n" ++
  "Usage: refactor-advisor [-v]... [--config <CONFIG>] <COMMAND>\n\n" ++
  "Commands:\n" ++
  "  analyze  [-f text|json] [-o <OUTPUT>] [--rules <RULES>] [--disable <RULES>]\n" ++
  "           [--fail-on-refusal] [--plain] <PATHS>...\n" ++
  "  apply    [--live] [--allow-review] [--write] [-f text|json] [-o <OUTPUT>] <FILE>\n" ++
  "  init     [-f|--force]\n" ++
  "  help     [COMMAND]\n"

def version : String := "refactor-advisor 0.3.0\n"

def start (args : List String) : IO UInt32 := do
  let env ← IO.getEnv "REFACTOR_ADVISOR_CONFIG"
  match Invocation.read env args with
  | .error e =>
    match e with
    | .help => IO.print usage
    | .version => IO.print version
    | _ => IO.eprint usage
    return UInt32.ofNat e.exitStatus
  | .ok i =>
    let cwd := locationOf [] (← IO.currentDir).toString
    let before ← snapshot cwd i
    let colour := (← IO.getEnv "NO_COLOR").isNone && (← (← IO.getStdout).isTty)
    let place : Place := { store := before, cwd, envConfig := env, colour }
    let hoped := perform place i
    let seen := match ← writeBack before hoped.store with
      | none => hoped
      | some (l, fault) => perform place i (faultyDisk l fault)
    IO.print seen.out
    IO.eprint seen.err
    return UInt32.ofNat seen.exitStatus

end SafeRefactor.Program

def main (args : List String) : IO UInt32 := SafeRefactor.Program.start args
