import ContractAudit.Batch
import ContractAudit.Detector.Registry

/-!
# Running detectors

Every detector looks at every contract and library; interfaces have no code to look at. A detector
that fails leaves a diagnostic and the others still run.
-/

namespace ContractAudit

/-- One run of a detector on a contract. -/
structure DetectorRun where
  detector : String
  contract : String
  result : Except String (List Finding)

abbrev Detection := List DetectorRun

namespace Detection

def ofContracts (detectors : List Detector) (cs : List Contract) : Detection :=
  (cs.filter (·.kind != .interface)).flatMap fun c =>
    detectors.map fun d => ⟨d.id, c.name, d.analyze c⟩

def findings (runs : Detection) : List Finding :=
  runs.flatMap fun r =>
    match r.result with
    | .ok fs => fs
    | .error _ => []

def diagnostics (runs : Detection) : List Diagnostic :=
  runs.filterMap fun r =>
    match r.result with
    | .ok _ => none
    | .error reason =>
      some { code := .detectorFailed
             message := r.detector ++ " failed: " ++ reason
             source := r.contract }

/-- What one detector finds in a text; nothing if the text has no model. -/
def inCode (d : Detector) (code : String) : List Finding :=
  match (SourceUnit.mk "inline" "" code).contracts with
  | .ok cs => findings (ofContracts [d] cs)
  | .error _ => []

end Detection

end ContractAudit
