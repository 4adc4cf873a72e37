import SafeRefactor.Config.Search

/-!
# A configuration file to begin with

A file that shows everything that can be set, with the settings that hold without any file, and a
way to put it in a directory.
-/

set_option autoImplicit false

namespace SafeRefactor

namespace Settings

def template : String :=
  "# refactor-advisor configuration\n\n" ++
  "[rules]\n" ++
  "# Run only these rules (all registered rules when omitted):\n" ++
  "# enabled = [\n" ++
  Text.join "\n" (Rule.all.map fun r => "#   \"" ++ r.name ++ "\",") ++ "\n" ++
  "# ]\n" ++
  "disabled = []\n\n" ++
  "[analysis]\n" ++
  "# Glob patterns skipped when scanning directories.\n" ++
  "exclude = [\"**/.venv/**\", \"**/venv/**\", \"**/site-packages/**\"]\n\n" ++
  "[execution]\n" ++
  "# Allow `apply --live` on plans marked NEEDS REVIEW.\n" ++
  "allow_review = false\n\n" ++
  "[output]\n" ++
  "# \"text\" or \"json\"\n" ++
  "default_format = \"text\"\n\n" ++
  "[policy]\n" ++
  "# Exit with status 3 when any file is refused.\n" ++
  "fail_on_refusal = false\n"

inductive InitError where
  | present
  | unwritable (path : String) (cause : FileError)
  deriving DecidableEq, Repr

def InitError.message : InitError → String
  | present => "Configuration file already exists. Use --force to overwrite."
  | unwritable path cause => "Failed to write " ++ path ++ ": " ++ cause.message

def init (s : Store) (cwd : Location) (dir : String) (force : Bool) (d : Disk := {}) :
    Except (Broken InitError) (String × Store) :=
  let path := Path.join dir fileName
  if (s.find? cwd path).isSome ∧ !force then .error ⟨.present, s⟩
  else match s.write cwd path template d with
    | .ok s => .ok (path, s)
    | .error e => .error ⟨.unwritable path e.cause, e.store⟩

end Settings

def Broken.message (e : Broken Settings.InitError) : String := e.cause.message

end SafeRefactor
