import ContractAudit.Audit
import ContractAudit.Log

/-!
# The log of an audit

What an audit says on its way. Every line follows from the results of the stages, so the log is
computed from them. Lines that come after the batch was accepted carry its run.
-/

namespace ContractAudit.Audit

structure LogLine where
  level : LogLevel
  logger : String
  message : String
  run : Option String := none
  deriving DecidableEq, Repr

namespace LogLine

def ofWarning (w : Warning) : LogLine :=
  { level := .warning
    logger := "xcaudit.analyzer.extractor"
    message := match w.cause with
      | .unreadable e => "Skipping " ++ w.sourceName ++ ": " ++ e.message
      | .duplicate contract keptIn _ =>
        "Duplicate declaration " ++ contract ++ " in " ++ w.sourceName ++ " (first seen in " ++
          keptIn ++ ")" }

def ofUnresolved (u : UnresolvedReference) : LogLine :=
  { level := .debug
    logger := "xcaudit.analyzer.dependency_mapper"
    message := "Unresolved type " ++ u.typeName ++ " for " ++ u.contract ++ "." ++ u.name }

def counts (parts : List (String × Nat)) : String :=
  String.intercalate ", " (parts.map fun (name, n) => toString n ++ " " ++ name)

def ofGraph (g : DependencyGraph) : LogLine :=
  { level := .info
    logger := "xcaudit.pipeline.orchestrator"
    message := "Dependency graph: " ++ counts [("contracts", g.nodes.length),
      ("edges", g.edges.length), ("unresolved", g.unresolved.length), ("cycles", g.cycles.length)] }

def boundText (maxDepth : Int) : String :=
  "flow traversal exceeded depth bound " ++ toString maxDepth

/-- The frames that a flow was refused. The entry point itself is refused when no frame is allowed. -/
def ofFlow (maxDepth : Int) (f : Flow) : List LogLine :=
  f.refused.map fun (contract, function) =>
    if maxDepth < 1 then
      { level := .warning
        logger := "xcaudit.analyzer.state_flow"
        message := "Flow from " ++ contract ++ "." ++ function ++ " degraded to partial: " ++
          boundText maxDepth }
    else
      { level := .debug
        logger := "xcaudit.analyzer.state_flow"
        message := "Flow truncated at " ++ contract ++ "." ++ function ++ ": " ++
          boundText maxDepth }

def ofStateFlow (s : StateFlow) : LogLine :=
  { level := .info
    logger := "xcaudit.analyzer.state_flow"
    message := "State flow: " ++ counts [("flows", s.flows.length), ("findings", s.findings.length),
      ("invariants checked", s.invariants.length)] }

def ofRun (r : DetectorRun) : LogLine :=
  match r.result with
  | .ok _ =>
    { level := .debug
      logger := "xcaudit.analyzer.cross_chain"
      message := "Detector " ++ r.detector ++ " ran on " ++ r.contract }
  | .error _ =>
    { level := .error
      logger := "xcaudit.analyzer.cross_chain"
      message := "Detector " ++ r.detector ++ " failed on " ++ r.contract }

end LogLine

/-- What making a report says: the findings that were filtered, then the counts. -/
def reportLines (p : ReportPolicy) (fs : List Finding) (r : Report) : List LogLine :=
  let kept := p.kept fs
  let dropped := if p.applyFilter then
    fs.filter fun f => ! Report.isWorthy p.garbageKeywords f else []
  (dropped.map fun f =>
    { level := .debug
      logger := "xcaudit.reports.generator"
      message := "Filtered low-value finding: " ++ f.title }) ++
  [{ level := .info
     logger := "xcaudit.reports.generator"
     message := "Report: " ++ toString r.findings.length ++ " findings (" ++
       toString (fs.length - kept.length) ++ " filtered, " ++
       toString (kept.length - r.findings.length) ++ " merged), risk " ++
       NumberLayout.plain.fixed 1 r.riskScore }]

def analysisLines (s : Settings) (a : Analysis) : List LogLine :=
  a.extraction.warnings.map .ofWarning ++ a.graph.unresolved.map .ofUnresolved ++
    [.ofGraph a.graph] ++ a.stateFlow.flows.flatMap (LogLine.ofFlow s.maxFlowDepth) ++
    [.ofStateFlow a.stateFlow] ++ a.detection.map .ofRun

def intakeLine (message : String) (level : LogLevel) : LogLine :=
  { level := level, logger := "xcaudit.pipeline.orchestrator", message := message }

/-- The log of an audit that ends in the report `r`. -/
def log (s : Settings) (applyFilter : Bool) (batch : Except BatchError (List SourceUnit))
    (extra : List Finding) (r : Report) : List LogLine :=
  let policy := ReportPolicy.ofSettings s applyFilter
  match Intake.ofBatch s batch with
  | .invalid e =>
    intakeLine ("Invalid input batch: " ++ e.message) .warning :: reportLines policy [] r
  | .empty => intakeLine "Empty batch, nothing to analyze" .info :: reportLines policy [] r
  | .accepted units total =>
    let a := analyze s units
    let run := SourceUnit.runId units
    let cap :=
      if units.length < total then
        [intakeLine ("Batch of " ++ toString total ++ " units exceeds file cap " ++
          toString s.maxFiles ++ "; truncating") .warning]
      else []
    let finish := intakeLine ("Pipeline finished: " ++
      LogLine.counts [("units", units.length), ("findings", r.summary.total)]) .info
    cap ++ (analysisLines s a ++ reportLines policy (a.findings ++ extra) r ++ [finish]).map
      fun l => { l with run := some run }

end ContractAudit.Audit
