import ContractAudit.Json.Writer
import ContractAudit.Report

/-!
# Reports as documents
-/

namespace ContractAudit

def Finding.document (f : Finding) : Json :=
  .obj <|
    [("id", .str f.id), ("title", .str f.title), ("severity", .str f.severity.word),
     ("description", .str f.description), ("impact", .str f.impact),
     ("location", .str ((f.primaryLocation?.map (·.label)).getD "")),
     ("locations", .arr (f.locations.map fun l =>
       .obj [("contract", .str l.contract), ("function", .str l.function),
         ("line", .ofOption .int l.line)])),
     ("recommendation", .str f.recommendation), ("confidence", .str f.confidence.word),
     ("category", .str f.vulnerabilityClass), ("evidence", .ofStrings f.evidence),
     ("flags", .ofStrings f.flags)] ++
    (if isGiven f.economicImpact then [("economicImpact", .ofOption .str f.economicImpact)] else []) ++
    (if isGiven f.pocCode then [("pocCode", .ofOption .str f.pocCode)] else [])

def Summary.counts (s : Summary) : Json :=
  .obj (s.bySeverity.map fun (severity, n) => (severity.word, .ofNat n))

namespace Report

/-- The fields of the public form of a report. -/
def fields (r : Report) : List (String × Json) :=
  [("findings", .arr (r.findings.map (·.document))), ("riskScore", .float r.riskScore),
   ("summary", .obj [("totalFindings", .ofNat r.summary.total), ("bySeverity", r.summary.counts)]),
   ("diagnostics", .arr (r.diagnostics.map fun d =>
     .obj [("code", .str d.code.word), ("message", .str d.message), ("source", .str d.source)]))]

def document (r : Report) : Json := .obj r.fields

/-- The report with its metadata as an indented document. -/
def text (r : Report) : String := (Json.obj (r.fields ++ [("metadata", .obj r.metadata)])).pretty

end Report

end ContractAudit
