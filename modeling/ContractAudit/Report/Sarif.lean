import ContractAudit.Json.Writer
import ContractAudit.Report

/-!
# Reports as SARIF logs

The static analysis results interchange format: one result for each finding, and one rule for each
detector, class or finding that results refer to. A rule is described by the first finding that uses
it.
-/

namespace ContractAudit.Sarif

inductive Level where
  | error
  | warning
  | note
  deriving DecidableEq, Repr

def Level.word : Level → String
  | error => "error"
  | warning => "warning"
  | note => "note"

def level : Severity → Level
  | .critical | .high => .error
  | .medium => .warning
  | .low | .informational => .note

/-- The severity in tenths of a point, up to ten points. -/
def score : Severity → Nat
  | .critical => 95
  | .high => 75
  | .medium => 55
  | .low => 35
  | .informational => 10

def scoreText (s : Severity) : String := toString (score s / 10) ++ "." ++ toString (score s % 10)

structure Rule where
  id : String
  title : String
  description : String
  severity : Severity
  category : String
  deriving DecidableEq, Repr

structure Result where
  ruleId : String
  finding : Finding
  deriving DecidableEq, Repr

/-- The rule that a finding falls under: its detector, else its class, else its own id. -/
def ruleId (f : Finding) : String :=
  if ! f.detectorId.isEmpty then f.detectorId
  else if ! f.vulnerabilityClass.isEmpty then f.vulnerabilityClass
  else f.id

def rule (f : Finding) : Rule :=
  ⟨ruleId f, f.title, f.description, f.severity, f.vulnerabilityClass⟩

/-- The rules that findings fall under, each from the first finding that does. -/
def rules (fs : List Finding) : List Rule :=
  (fs.map ruleId).eraseDups.filterMap fun id => (fs.find? (ruleId · == id)).map rule

def results (fs : List Finding) : List Result := fs.map fun f => ⟨ruleId f, f⟩

def textObject (s : String) : Json := .obj [("text", .str s)]

def Rule.document (r : Rule) : Json :=
  .obj [("id", .str r.id),
    ("name", .str (String.ofList (r.title.toList.filter (· != ' ')))),
    ("shortDescription", textObject r.title),
    ("fullDescription", textObject (String.ofList (r.description.toList.take 1000))),
    ("defaultConfiguration", .obj [("level", .str (level r.severity).word)]),
    ("properties", .obj [("security-severity", .str (scoreText r.severity)),
      ("tags", .ofStrings ("security" :: if r.category.isEmpty then [] else [r.category]))])]

def locationDocument (l : Location) : Json :=
  let line := match l.line with
    | some n => if n = 0 then 1 else n
    | none => 1
  .obj [("physicalLocation",
      .obj [("artifactLocation",
          .obj [("uri", .str (if l.filePath.isEmpty then l.contract else l.filePath))]),
        ("region", .obj [("startLine", .int line)])]),
    ("logicalLocations", .arr [.obj [("fullyQualifiedName",
      .str (if l.function.isEmpty then l.contract else l.contract ++ "." ++ l.function))]])]

def Result.document (r : Result) : Json :=
  let f := r.finding
  .obj [("ruleId", .str r.ruleId), ("message", textObject f.description),
    ("level", .str (level f.severity).word),
    ("locations", .arr (f.locations.map locationDocument)),
    ("partialFingerprints", .obj [("primaryLocationLineHash", .str f.id)]),
    ("properties", .obj [("confidence", .str f.confidence.word), ("flags", .ofStrings f.flags)]),
    ("fixes",
      .arr (if f.recommendation.isEmpty then []
        else [.obj [("description", textObject f.recommendation)]]))]

def formatSchema : String :=
  "https://raw.githubusercontent.com/oasis-tcs/sarif-spec/master/Schemata/sarif-schema-2.1.0.json"

def document (toolVersion : String) (fs : List Finding) : Json :=
  .obj [("$schema", .str formatSchema), ("version", .str "2.1.0"),
    ("runs", .arr [.obj [
      ("tool", .obj [("driver", .obj [("name", .str "xcaudit"), ("version", .str toolVersion),
        ("rules", .arr ((rules fs).map (·.document)))])]),
      ("results", .arr ((results fs).map (·.document)))]])]

/-- The findings of a report as an indented SARIF log. -/
def text (toolVersion : String) (r : Report) : String := (document toolVersion r.findings).pretty

end ContractAudit.Sarif
