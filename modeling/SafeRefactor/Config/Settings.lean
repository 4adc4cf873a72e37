import SafeRefactor.Output
import SafeRefactor.Selection

/-!
# Settings

What can be set in a configuration file, and which rules follow from it together with what was asked
for on the command line.
-/

set_option autoImplicit false

namespace SafeRefactor

structure Settings where
  enabled : Option (List String) := none
  disabled : List String := []
  exclude : List String := []
  allowReview : Bool := false
  format : Format := .text
  failOnRefusal : Bool := false
  deriving DecidableEq, Repr

inductive RuleFault where
  | configured (name : String)
  | given (name : String)
  deriving DecidableEq, Repr

namespace RuleFault

def message : RuleFault → String
  | configured name => "Unknown rule '" ++ name ++ "' in configuration"
  | given name =>
    "valid rules: " ++ Text.join ", " (Rule.all.map Rule.name) ++ ": " ++ Rule.unknownMessage name

end RuleFault

namespace Settings

def configuredRules (names : List String) : Except RuleFault (List Rule) :=
  (Selection.readNames names).mapError .configured

def givenRules (names : List String) : Except RuleFault (List Rule) :=
  (Selection.readNames names).mapError .given

def selection (s : Settings) : Except RuleFault Selection := do
  let only ← match s.enabled with
    | some names => some <$> configuredRules names
    | none => pure none
  let disabled ← configuredRules s.disabled
  return { only, disabled }

/-- The rules that the settings and the command line select. A list of the only rules replaces the
enabled ones of the settings; what either of them disables stays disabled. -/
def resolve (s : Settings) (only disabled : Option (List String)) : Except RuleFault Selection := do
  let base ← match only with
    | some names => do
      let only ← givenRules names
      let off ← configuredRules s.disabled
      pure { only := some only, disabled := off : Selection }
    | none => s.selection
  match disabled with
  | some names => return base.without (← givenRules names)
  | none => return base

end Settings

end SafeRefactor
