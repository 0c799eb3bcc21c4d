import ContractAudit.Audit

/-!
# An audit in concurrent tasks

The units of a batch may be modelled at the same time, as many of them at once as there are workers, and
the detectors may run while the flows are analysed. A step starts or finishes one task, passes the barrier
behind the extractions or makes the report. Steps come in any order that leaves to each what it needs; the
results of the extractions are merged in the order of the batch, whichever finished first.
-/

namespace ContractAudit.Audit

inductive Task (α : Type) where
  | waiting
  | running
  | finished (result : α)

namespace Task

variable {α : Type}

def hasStarted : Task α → Bool
  | waiting => false
  | _ => true

def isRunning : Task α → Bool
  | running => true
  | _ => false

def isFinished : Task α → Bool
  | finished _ => true
  | _ => false

end Task

abbrev ExtractionTask := SourceUnit × Task (Except ParseError (List Contract))

/-- How far an audit has come. -/
structure Progress where
  extractions : List ExtractionTask
  /-- How many more extractions may run. -/
  permits : Nat
  /-- What the stages before the analyses have to say; they share this list. -/
  diagnostics : List Diagnostic
  /-- The merged batch and its dependencies, behind the barrier. -/
  resolution : Option (Extraction × DependencyGraph)
  stateFlow : Task StateFlow
  detection : Task Detection
  report : Option (Except ScoreError Report)

namespace Progress

/-- An audit of units none of which was looked at. -/
def ofUnits (units : List SourceUnit) (workers : Nat) (diagnostics : List Diagnostic) : Progress where
  extractions := units.map fun unit => (unit, .waiting)
  permits := workers
  diagnostics := diagnostics
  resolution := none
  stateFlow := .waiting
  detection := .waiting
  report := none

/-- Where an audit starts. A batch that is not well formed or empty has its report at once. -/
def start (s : Settings) (applyFilter : Bool) (batch : Except BatchError (List SourceUnit)) : Progress :=
  let policy := ReportPolicy.ofSettings s applyFilter
  let workers := s.extractionWorkers.toNat
  match Intake.ofBatch s batch with
  | .invalid e =>
    { ofUnits [] workers [] with
      report := some (policy.report [] [{ code := .invalidInput, message := e.message }] emptyMetadata) }
  | .empty => { ofUnits [] workers [] with report := some (policy.report [] [] emptyMetadata) }
  | .accepted units total => ofUnits units workers (Intake.capDiagnostics s units total)

def units (p : Progress) : List SourceUnit := p.extractions.map (·.1)

/-- How many extractions are running. -/
def inFlight (p : Progress) : Nat := p.extractions.countP (·.2.isRunning)

/-- Some stage behind the barrier has started. -/
def isPastBarrier (p : Progress) : Bool :=
  p.resolution.isSome || p.stateFlow.hasStarted || p.detection.hasStarted || p.report.isSome

/-- One step of an audit. -/
inductive Step (s : Settings) (applyFilter : Bool) (extra : List Finding) :
    Progress → Progress → Prop where
  | startExtraction (p : Progress) (before after : List ExtractionTask) (unit : SourceUnit)
      (permits : Nat) (task : p.extractions = before ++ (unit, .waiting) :: after) (free : p.permits = permits + 1) :
      Step s applyFilter extra p
        { p with extractions := before ++ (unit, .running) :: after, permits := permits }
  | finishExtraction (p : Progress) (before after : List ExtractionTask) (unit : SourceUnit)
      (task : p.extractions = before ++ (unit, .running) :: after) :
      Step s applyFilter extra p
        { p with
          extractions := before ++ (unit, .finished unit.contracts) :: after
          permits := p.permits + 1 }
  | resolve (p : Progress) (results : List (SourceUnit × Except ParseError (List Contract)))
      (all : p.extractions = results.map fun (unit, result) => (unit, .finished result))
      (resolution : p.resolution = none) (report : p.report = none) :
      Step s applyFilter extra p
        { p with
          diagnostics := p.diagnostics ++ (Extraction.merge results).warnings.map Warning.toDiagnostic ++
            (DependencyGraph.ofContracts (Extraction.merge results).contracts).unresolved.map
              unresolvedDiagnostic
          resolution := some (.merge results, .ofContracts (Extraction.merge results).contracts) }
  | startStateFlow (p : Progress) (resolution : p.resolution.isSome) (task : p.stateFlow = .waiting) :
      Step s applyFilter extra p { p with stateFlow := .running }
  | finishStateFlow (p : Progress) (e : Extraction) (g : DependencyGraph)
      (resolution : p.resolution = some (e, g)) (task : p.stateFlow = .running) :
      Step s applyFilter extra p
        { p with
          stateFlow := .finished
            (.ofContracts g s.maxFlowDepth ⟨s.reentrancyGuards, s.accountingKeywords⟩ e.contracts) }
  | startDetection (p : Progress) (resolution : p.resolution.isSome) (task : p.detection = .waiting) :
      Step s applyFilter extra p { p with detection := .running }
  | finishDetection (p : Progress) (e : Extraction) (g : DependencyGraph)
      (resolution : p.resolution = some (e, g)) (task : p.detection = .running) :
      Step s applyFilter extra p
        { p with detection := .finished (.ofContracts Registry.standard.sorted e.contracts) }
  | makeReport (p : Progress) (e : Extraction) (g : DependencyGraph) (f : StateFlow) (d : Detection)
      (resolution : p.resolution = some (e, g)) (stateFlow : p.stateFlow = .finished f)
      (detection : p.detection = .finished d) (report : p.report = none) :
      Step s applyFilter extra p
        { p with
          report := some ((ReportPolicy.ofSettings s applyFilter).report
            (f.findings ++ d.findings ++ extra) (p.diagnostics ++ f.diagnostics ++ d.diagnostics)
            (Analysis.mk p.units e g f d).metadata) }

/-- A run of so many steps. -/
inductive Run (s : Settings) (applyFilter : Bool) (extra : List Finding) :
    Progress → Nat → Progress → Prop where
  | refl (p : Progress) : Run s applyFilter extra p 0 p
  | step {p q r : Progress} {n : Nat} (head : Step s applyFilter extra p q)
      (tail : Run s applyFilter extra q n r) : Run s applyFilter extra p (n + 1) r

end Progress

end ContractAudit.Audit
