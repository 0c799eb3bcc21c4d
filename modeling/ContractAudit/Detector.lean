import ContractAudit.Contract
import ContractAudit.Finding

/-!
# Detectors

A detector looks at one contract at a time and lists what it finds, or fails with a reason. Its
profile says what it looks for and stands in every finding that it makes.
-/

namespace ContractAudit

structure DetectorProfile where
  id : String
  name : String
  description : String := ""
  severity : Severity := .medium
  /-- The class of its findings. -/
  category : String := ""
  confidence : Confidence := .heuristic
  deriving DecidableEq, Repr

/-- A finding of the profile's class in a function; a line of zero stands for the function's own. -/
def DetectorProfile.finding (p : DetectorProfile) (c : Contract) (f : Function)
    (title description : String) (line : Nat) : Finding where
  title := title
  severity := p.severity
  description := description
  locations :=
    [{ contract := c.name
       function := f.name
       line := some (if line = 0 then f.line else line : Nat)
       filePath := c.sourcePath }]
  confidence := p.confidence
  vulnerabilityClass := p.category
  detectorId := p.id

structure Detector extends DetectorProfile where
  analyze : Contract → Except String (List Finding)

namespace Detector

/-- A detector that always finds out. -/
def ofFindings (p : DetectorProfile) (find : Contract → List Finding) : Detector :=
  { p with analyze := fun c => .ok (find c) }

end Detector

/-- The identifiers of `names` that are called at once, in order. -/
def Token.calls (names : List String) : List Token → List Token
  | t :: u :: rest =>
    if t.isOneOf names && u.isPunct "(" then t :: Token.calls names (u :: rest)
    else Token.calls names (u :: rest)
  | _ => []

end ContractAudit
