import SafeRefactor.Catalog
import SafeRefactor.Output

/-!
# Analysing and executing

The advisor as a whole: which rules run, and whether plans that need review may be executed. A
`Session` keeps the source, the plan and the last result of someone who works step by step, and
collects what was said on the way.
-/

set_option autoImplicit false

namespace SafeRefactor

structure Engine where
  selection : Selection := .everything
  allowReview : Bool := false

namespace Engine

def analyzeLogged (e : Engine) (unit : SourceUnit) : Plan × List Diagnostic :=
  Plan.build unit (Syntax.Tree.parse unit.source) e.selection.detectors

def analyze (e : Engine) (unit : SourceUnit) : Plan := (e.analyzeLogged unit).1

def execute (e : Engine) (source : String) (plan : Plan) (dryRun : Bool) : Execution :=
  Execution.run ⟨dryRun, e.allowReview⟩ source plan

end Engine

structure Session where
  engine : Engine := {}
  unit : SourceUnit
  plan : Option Plan := none
  last : Option Execution := none
  events : List Diagnostic := []

namespace Session

def withSource (s : Session) (source : String) : Session :=
  { s with unit := { s.unit with source } }

def withSelection (s : Session) (selection : Selection) : Session :=
  { s with engine := { s.engine with selection } }

def withReview (s : Session) (allowReview : Bool) : Session :=
  { s with engine := { s.engine with allowReview } }

def analyze (s : Session) : Plan × Session :=
  let (plan, said) := s.engine.analyzeLogged s.unit
  (plan, { s with plan := some plan, events := s.events ++ said })

def execute (s : Session) (plan : Plan) (dryRun : Bool) : Execution × Session :=
  let (e, said) := Execution.runLogged ⟨dryRun, s.engine.allowReview⟩ s.unit.source plan
  (e, { s with last := some e, events := s.events ++ said })

def adopt (s : Session) : Bool × Session :=
  match s.last.bind (·.after) with
  | some text => (true, s.withSource text)
  | none => (false, s)

def report (s : Session) (plan : Plan) (withResult : Bool) : String × Session :=
  (Report.render plan (if withResult then s.last else none),
    { s with events := s.events ++ [⟨.reporting, .debug, plan.sourceId, "rendering report"⟩] })

def drain (s : Session) : List Diagnostic × Session := (s.events, { s with events := [] })

end Session

end SafeRefactor
