import ContractAudit.Batch
import ContractAudit.Batch.Validation
import ContractAudit.Detection
import ContractAudit.Digest.Sha256
import ContractAudit.Report
import ContractAudit.StateFlow

/-!
# The audit of a batch

An audit checks the batch, cuts it at the file cap, models every unit, resolves the dependencies,
analyses the flows, runs the detectors and makes a report. A batch that is not well formed or empty
gives a report without findings. Nothing survives from one audit to the next.
-/

namespace ContractAudit

/-- The bytes that identify a batch: each unit's name, path and text with marks between them. -/
def SourceUnit.idBytes (units : List SourceUnit) : List UInt8 :=
  units.flatMap fun u =>
    u.name.toUTF8.toList ++ 0 :: u.path.toUTF8.toList ++ 0 :: u.text.toUTF8.toList ++ [1]

/-- The identifier of a batch: equal batches have equal identifiers. -/
def SourceUnit.runId (units : List SourceUnit) : String :=
  String.ofList ((Digest.sha256 (SourceUnit.idBytes units)).toList.take 16)

namespace Audit

/-- What was found out about the units of a batch. -/
structure Analysis where
  units : List SourceUnit
  extraction : Extraction
  graph : DependencyGraph
  stateFlow : StateFlow
  detection : Detection

def analyze (s : Settings) (units : List SourceUnit) : Analysis :=
  let extraction := Extraction.ofUnits units
  let graph := DependencyGraph.ofContracts extraction.contracts
  { units := units
    extraction := extraction
    graph := graph
    stateFlow := .ofContracts graph s.maxFlowDepth ⟨s.reentrancyGuards, s.accountingKeywords⟩
      extraction.contracts
    detection := .ofContracts Registry.standard.sorted extraction.contracts }

def unresolvedDiagnostic (u : UnresolvedReference) : Diagnostic where
  code := .unresolvedDependency
  message := u.name ++ ": type " ++ u.typeName ++ " is not part of the batch"
  source := u.contract
  confidence := .confirmed

namespace Analysis

def findings (a : Analysis) : List Finding := a.stateFlow.findings ++ a.detection.findings

def diagnostics (a : Analysis) : List Diagnostic :=
  a.extraction.warnings.map Warning.toDiagnostic ++ a.graph.unresolved.map unresolvedDiagnostic ++
    a.stateFlow.diagnostics ++ a.detection.diagnostics

def metadata (a : Analysis) : Table String Json :=
  [("units", .ofNat a.units.length), ("contracts", .ofNat a.extraction.contracts.length),
   ("dependencyEdges", .ofNat a.graph.edges.length),
   ("namingFallbackEdges",
    .ofNat (a.graph.edges.filter (·.tier == .namingConvention)).length),
   ("flows", .ofNat a.stateFlow.flows.length),
   ("invariantsChecked", .ofNat a.stateFlow.invariants.length),
   ("cycles", .arr (a.graph.cycles.map .ofStrings)),
   ("criticalContracts", .ofStrings a.graph.critical)]

end Analysis

def emptyMetadata : Table String Json := [("units", .ofNat 0), ("contracts", .ofNat 0)]

/-- What a batch comes to before any unit is looked at. -/
inductive Intake where
  | invalid (error : BatchError)
  | empty
  /-- The units within the cap, and how many there were. -/
  | accepted (units : List SourceUnit) (total : Nat)

namespace Intake

def ofBatch (s : Settings) : Except BatchError (List SourceUnit) → Intake
  | .error e => invalid e
  | .ok [] => empty
  | .ok units => accepted (units.take s.maxFiles.toNat) units.length

def capDiagnostic (beyond : Nat) (cap : Int) : Diagnostic where
  code := .fileLimitExceeded
  message := toString beyond ++ " unit(s) beyond the " ++ toString cap ++
    "-file cap were not analyzed"

/-- The diagnostic on what the cap cut off, if it cut off anything. -/
def capDiagnostics (s : Settings) (units : List SourceUnit) (total : Nat) : List Diagnostic :=
  if units.length < total then [capDiagnostic (total - units.length) s.maxFiles] else []

end Intake

/-- The report of an audit, with findings from elsewhere added to its own. -/
def report (s : Settings) (applyFilter : Bool) (batch : Except BatchError (List SourceUnit))
    (extra : List Finding) : Except ScoreError Report :=
  let policy := ReportPolicy.ofSettings s applyFilter
  match Intake.ofBatch s batch with
  | .invalid e => policy.report [] [{ code := .invalidInput, message := e.message }] emptyMetadata
  | .empty => policy.report [] [] emptyMetadata
  | .accepted units total =>
    let a := analyze s units
    policy.report (a.findings ++ extra) (Intake.capDiagnostics s units total ++ a.diagnostics)
      a.metadata

end Audit

end ContractAudit
