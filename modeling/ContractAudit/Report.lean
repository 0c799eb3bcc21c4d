import ContractAudit.Digest.Sha1
import ContractAudit.Finding
import ContractAudit.Json
import ContractAudit.Report.Reduction
import ContractAudit.Report.Score
import ContractAudit.Settings

/-!
# Reports

A report is made from the findings of all producers: low-value ones are dropped, those on the same
problem are merged, the rest are ranked and numbered, and the whole is scored and counted.
-/

namespace ContractAudit

/-- How many findings there are of each severity. -/
structure Summary where
  total : Nat
  bySeverity : List (Severity × Nat)
  deriving DecidableEq, Repr

def Summary.ofFindings (fs : List Finding) : Summary where
  total := fs.length
  bySeverity := Severity.all.map fun s => (s, (fs.filter (·.severity == s)).length)

structure Report where
  findings : List Finding
  riskScore : Float
  summary : Summary
  diagnostics : List Diagnostic
  metadata : Table String Json

/-- The text that a finding's id is made from. -/
def FindingKey.text (k : FindingKey) : String := k.contract ++ "|" ++ k.function ++ "|" ++ k.subject

namespace Finding

/-- The id of a finding: a mark and the first ten digits of a digest of what it is about. -/
def computedId (f : Finding) : String :=
  "XC-" ++ String.ofList
    (((Digest.sha1 f.key.text.toUTF8.toList).toList.take 10).map Char.toUpper)

def numbered (f : Finding) : Finding := { f with id := f.computedId }

end Finding

/-- How a report is made. -/
structure ReportPolicy where
  garbageKeywords : List String
  weights : Table String Float
  damping : Float
  applyFilter : Bool := true

namespace ReportPolicy

def ofSettings (s : Settings) (applyFilter : Bool) : ReportPolicy :=
  ⟨s.garbageKeywords, s.severityWeights, s.riskDamping, applyFilter⟩

/-- The findings worth reporting. -/
def kept (p : ReportPolicy) (fs : List Finding) : List Finding :=
  if p.applyFilter then Report.filterGarbage p.garbageKeywords fs else fs

/-- The findings of a report: filtered, merged, ranked and numbered. -/
def reduce (p : ReportPolicy) (fs : List Finding) : List Finding :=
  (Report.rank (Report.deduplicate (p.kept fs))).map Finding.numbered

/-- Makes a report. The counts of what was taken in and left out are put into the metadata. -/
def report (p : ReportPolicy) (fs : List Finding) (diagnostics : List Diagnostic)
    (metadata : Table String Json) : Except ScoreError Report := do
  let kept := p.kept fs
  let findings := p.reduce fs
  let score ← riskScore p.weights p.damping findings
  return {
    findings := findings
    riskScore := score
    summary := .ofFindings findings
    diagnostics := diagnostics
    metadata := metadata.putAll
      [("rawFindings", .ofNat fs.length), ("filteredOut", .ofNat (fs.length - kept.length)),
       ("duplicatesMerged", .ofNat (kept.length - findings.length))] }

end ReportPolicy

end ContractAudit
