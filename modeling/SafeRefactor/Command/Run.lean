import SafeRefactor.Command.Invocation
import SafeRefactor.Config.Template
import SafeRefactor.Files.Walk
import SafeRefactor.Session

/-!
# Running commands

What the commands do to a tree of files, what they print, and how they end. A command that fails has
a cause; what it wrote before that stays written.
-/

set_option autoImplicit false

namespace SafeRefactor.Command

inductive Failure where
  | rule (fault : RuleFault)
  | config (cause : Settings.LoadError)
  | pattern (text : String) (fault : Pattern.Fault)
  | missingPath (path : String)
  | unreadable (path : String) (cause : FileError)
  | unwritable (path : String) (cause : FileError)
  | output (cause : FileError)
  | init (cause : Settings.InitError)
  deriving DecidableEq, Repr

def Failure.message : Failure → String
  | rule fault => fault.message
  | config cause => cause.chain
  | pattern text fault => "invalid exclude pattern '" ++ text ++ "': " ++ fault.message
  | missingPath path => "path does not exist: " ++ path
  | unreadable path cause => "Failed to read " ++ path ++ ": " ++ cause.message
  | unwritable path cause => "Failed to write " ++ path ++ ": " ++ cause.message
  | output cause => cause.message
  | init cause => cause.message

inductive Remark where
  | log (level : Level) (text : String)
  | line (text : String)
  deriving DecidableEq, Repr

namespace Remark

def ofDiagnostic (d : Diagnostic) : Remark :=
  .log d.level (d.message ++ " phase=" ++ d.phase.name ++ " source=" ++ d.sourceId.getD "<unnamed>")

def shown? (verbosity : Nat) : Remark → Option String
  | .log level text =>
    if level.threshold ≤ verbosity then some (level.tag ++ " " ++ text) else none
  | .line text => some text

end Remark

structure Result where
  verdict : Except Failure Verdict
  store : Store
  printed : String := ""
  remarks : List Remark := []

structure Place where
  store : Store
  cwd : Location
  envConfig : Option String := none
  colour : Bool := false

def Result.failed (p : Place) (f : Failure) (remarks : List Remark) : Result :=
  { verdict := .error f, store := p.store, remarks }

def deliver (store : Store) (cwd : Location) (text : String) (output : Option String)
    (d : Disk := {}) : Except (Broken FileError) (Store × String) :=
  match output with
  | none => .ok (store, text)
  | some path =>
    match store.write cwd path text d with
    | .ok store => .ok (store, "")
    | .error e => .error e

def analyzeFiles (engine : Engine) (store : Store) (cwd : Location) :
    List String → List Remark × Except Failure (List UnitOutput)
  | [] => ([], .ok [])
  | path :: paths =>
    match store.read cwd path with
    | .error e => ([], .error (.unreadable path e))
    | .ok source =>
      let (plan, said) := engine.analyzeLogged ⟨source, some path⟩
      let (more, units) := analyzeFiles engine store cwd paths
      (said.map Remark.ofDiagnostic ++ more, units.map ({ plan, execution := none } :: ·))

def verdictOn (units : List UnitOutput) (failOnRefusal : Bool) : Verdict :=
  units.foldl (fun v u => v.worse (.ofPlan u.plan failOnRefusal)) .clean

def sources (p : Place) (settings : Settings) (paths : List String) : Except Failure Walk.Found :=
  match Walk.readPatterns settings.exclude with
  | .error (text, fault) => .error (.pattern text fault)
  | .ok exclude => (Walk.walk p.store p.cwd exclude paths).mapError .missingPath

def analyze (p : Place) (settings : Settings) (o : AnalyzeOptions) (d : Disk := {}) : Result :=
  match settings.resolve o.rules o.disabled with
  | .error f => .failed p (.rule f) []
  | .ok selection =>
    match sources p settings o.paths with
    | .error f => .failed p f []
    | .ok found =>
      let before :=
        found.hidden.map (fun path =>
          Remark.log .debug ("ignoring " ++ path ++ ": Ignore(IgnoreMatch(Hidden))")) ++
        (if found.files.isEmpty then [.log .warn "No Python files found"] else []) ++
        [.log .info s!"Analyzing {found.files.length} file(s)"]
      let (said, units) := analyzeFiles { selection } p.store p.cwd found.files
      match units with
      | .error f => .failed p f (before ++ said)
      | .ok units =>
        let format := o.format.getD settings.format
        match deliver p.store p.cwd (renderUnits units format) o.output d with
        | .error e =>
          { verdict := .error (.output e.cause), store := e.store, remarks := before ++ said }
        | .ok (store, printed) =>
          let plain := o.plain || !p.colour
          let summaries := if format = .text ∨ o.output.isSome then
              units.map fun u => Remark.line (summaryLine u.plan plain)
            else []
          { verdict := .ok (verdictOn units (o.failOnRefusal || settings.failOnRefusal))
            store, printed, remarks := before ++ said ++ summaries }

def newText? (e : Execution) (source : String) : Option String :=
  match e.after with
  | some text => if e.success ∧ text ≠ source then some text else none
  | none => none

def writeBack (p : Place) (o : ApplyOptions) (e : Execution) (source : String) (d : Disk := {}) :
    Except (Broken Failure) (Store × List Remark) :=
  if o.write then
    match newText? e source with
    | some text =>
      match p.store.write p.cwd o.file text d with
      | .ok store => .ok (store, [.log .info ("Wrote refactored code to " ++ o.file)])
      | .error e => .error ⟨.unwritable o.file e.cause, e.store⟩
    | none => .ok (p.store, [.log .info ("Nothing written to " ++ o.file)])
  else .ok (p.store, [])

def applyOutput (plan : Plan) (e : Execution) (format : Format) : String :=
  renderUnits [{ plan, execution := some e }] format ++
    match format, e.diff with
    | .text, some diff => "\n" ++ diff
    | _, _ => ""

def apply (p : Place) (settings : Settings) (o : ApplyOptions) (d : Disk := {}) : Result :=
  match settings.resolve none none with
  | .error f => .failed p (.rule f) []
  | .ok selection =>
    match p.store.read p.cwd o.file with
    | .error e => .failed p (.unreadable o.file e) []
    | .ok source =>
      let engine : Engine := { selection, allowReview := o.allowReview || settings.allowReview }
      let (plan, analysed) := engine.analyzeLogged ⟨source, some o.file⟩
      let (e, executed) := Execution.runLogged ⟨!o.live, engine.allowReview⟩ source plan
      let said := (analysed ++ executed).map Remark.ofDiagnostic
      match writeBack p o e source d with
      | .error f => { verdict := .error f.cause, store := f.store, remarks := said }
      | .ok (store, written) =>
        let format := o.format.getD settings.format
        match deliver store p.cwd (applyOutput plan e format) o.output d with
        | .error f =>
          { verdict := .error (.output f.cause), store := f.store, remarks := said ++ written }
        | .ok (store, printed) =>
          let verdict := if o.live ∧ !e.success then Verdict.executionFailed
            else .ofPlan plan settings.failOnRefusal
          { verdict := .ok verdict, store, printed, remarks := said ++ written }

def settingsFor (p : Place) (config : Option String) : Except Failure (Settings × Remark) :=
  let loaded (path : String) : Remark := .log .debug ("Loaded config from " ++ path)
  match config with
  | some path =>
    match Settings.loadFile p.store p.cwd path with
    | .ok s => .ok (s, loaded path)
    | .error e => .error (.config e)
  | none =>
    match Settings.load p.store p.cwd (Store.absolutePath p.cwd) with
    | .ok (s, some path) => .ok (s, loaded path)
    | .ok (s, none) =>
      .ok (s, .log .debug
        (s!"No config found after checking {Settings.searchDepth} directories. " ++
          "Using default config."))
    | .error e => .error (.config e)

def init (p : Place) (force : Bool) (d : Disk := {}) : Result :=
  match Settings.init p.store p.cwd (Store.absolutePath p.cwd) force d with
  | .error e => { verdict := .error (.init e.cause), store := e.store }
  | .ok (path, store) =>
    { verdict := .ok .clean, store, printed := "Created " ++ path ++ " configuration file\n" }

def withSettings (p : Place) (config : Option String) (act : Settings → Result) : Result :=
  match settingsFor p config with
  | .error f => .failed p f []
  | .ok (settings, remark) =>
    let r := act settings
    { r with remarks := remark :: r.remarks }

def run (p : Place) (i : Invocation) (d : Disk := {}) : Result :=
  match i.action with
  | .init force => init p force d
  | .analyze o => withSettings p i.config fun s => analyze p s o d
  | .apply o => withSettings p i.config fun s => apply p s o d

structure Seen where
  exitStatus : Nat
  out : String
  err : String
  store : Store

def perform (p : Place) (i : Invocation) (d : Disk := {}) : Seen :=
  let r := run p i d
  let lines := r.remarks.filterMap (Remark.shown? i.verbosity)
  let (status, last) := match r.verdict with
    | .ok v => (v.exitStatus, [])
    | .error f => (1, ["Error: " ++ f.message])
  { exitStatus := status, out := r.printed, err := String.join ((lines ++ last).map (· ++ "\n")),
    store := r.store }

end SafeRefactor.Command
