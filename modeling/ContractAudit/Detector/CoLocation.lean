import ContractAudit.Detector
import ContractAudit.Text.Pattern

/-!
# Triggers without safeguards

A co-location rule flags every function that reaches a trigger without a safeguard beside it. A
trigger is a call of some name, or an entry point that is one by its own name. A safeguard is a
pattern on the identifiers of the body, on the conditions or on the modifiers.
-/

namespace ContractAudit

structure CoLocation where
  profile : DetectorProfile
  title : String
  triggerCalls : List String := []
  triggerFunctions : List String := []
  safeIdentifiers : List Text.Pattern := []
  safeChecks : List Text.Pattern := []
  safeModifiers : List Text.Pattern := []
  /-- Every safeguard has to be there, not just one. -/
  requireAll : Bool := false
  impact : String := ""
  recommendation : String := ""
  economicImpact : Option String := none
  pocCode : Option String := none

namespace CoLocation

/-- The triggers of a function, each with its line. -/
def triggers (r : CoLocation) (f : Function) : List (String × Nat) :=
  if r.triggerFunctions.contains f.name && f.isEntryPoint then [(f.name, f.line)]
  else (Token.calls r.triggerCalls f.bodyTokens).map fun t => (t.text, t.line)

/-- Which of the safeguards are there. -/
def safeguards (r : CoLocation) (f : Function) : List Bool :=
  (r.safeIdentifiers.map fun p => f.identifiers.any p.foundIn) ++
    (r.safeChecks.map fun p => f.checks.any p.foundIn) ++
    (r.safeModifiers.map fun p => f.modifiers.any p.foundIn)

def isProtected (r : CoLocation) (f : Function) : Bool :=
  let present := r.safeguards f
  ! present.isEmpty && if r.requireAll then present.all id else present.any id

def describe (r : CoLocation) (c : Contract) (f : Function) (trigger : String) : String :=
  c.name ++ "." ++ f.name ++
    (if trigger == f.name then " can be called without " else " calls " ++ trigger ++ " without ") ++
    Text.lower r.profile.description ++ "."

/-- One finding for an offending function, at its first trigger. -/
def finding? (r : CoLocation) (c : Contract) (f : Function) : Option Finding :=
  match r.triggers f with
  | [] => none
  | (name, line) :: _ =>
    if r.isProtected f then none
    else
      some { r.profile.finding c f r.title (r.describe c f name) line with
        impact := r.impact
        recommendation := r.recommendation
        evidence := [name ++ "() at line " ++ toString line]
        economicImpact := r.economicImpact
        pocCode := r.pocCode }

def detector (r : CoLocation) : Detector :=
  .ofFindings r.profile fun c => c.implemented.filterMap (r.finding? c)

end CoLocation

end ContractAudit
