import ContractAudit.Text.Blank
import ContractAudit.Text.Lower
import ContractAudit.Text.Quoted

/-!
# Findings

A finding is one security problem with its severity, the places it applies to and the evidence for
it. Two findings with the same contract, function and class, or title where there is no class, are
the same problem.
-/

namespace ContractAudit

inductive Severity where
  | critical
  | high
  | medium
  | low
  | informational
  deriving DecidableEq, Repr

namespace Severity

/-- Higher is more severe. -/
def rank : Severity → Nat
  | critical => 4
  | high => 3
  | medium => 2
  | low => 1
  | informational => 0

theorem rank_le (s : Severity) : s.rank ≤ 4 := by
  cases s <;> decide

theorem rank_inj {a b : Severity} : a.rank = b.rank ↔ a = b := by
  constructor
  · cases a <;> cases b <;> simp [rank]
  · rintro rfl
    rfl

def word : Severity → String
  | critical => "critical"
  | high => "high"
  | medium => "medium"
  | low => "low"
  | informational => "informational"

/-- Most severe first. -/
def all : List Severity := [critical, high, medium, low, informational]

def ofWord? (w : String) : Option Severity := all.find? (·.word == w)

/-- A label without blanks around it and in lower case. -/
def normalizeLabel (label : String) : String :=
  Text.lower (String.ofList (Text.trim label.toList))

/-- The severity a reader's label names; `info` is short for informational. -/
def ofLabel? (label : String) : Option Severity :=
  let w := normalizeLabel label
  ofWord? (if w == "info" then "informational" else w)

/-- What is said about a label that names no severity. -/
def unknownLabel (label : String) : String :=
  Text.quoted (normalizeLabel label) ++ " is not a valid Severity"

end Severity

inductive Confidence where
  | confirmed
  | heuristic
  deriving DecidableEq, Repr

namespace Confidence

def word : Confidence → String
  | confirmed => "confirmed"
  | heuristic => "heuristic"

def all : List Confidence := [confirmed, heuristic]

def ofWord? (w : String) : Option Confidence := all.find? (·.word == w)

end Confidence

structure Location where
  contract : String
  function : String := ""
  line : Option Int := none
  filePath : String := ""
  deriving DecidableEq, Repr

/-- The place in words; a line is named unless it is zero. -/
def Location.label (l : Location) : String :=
  l.contract ++ (if l.function.isEmpty then "" else "::" ++ l.function) ++
    match l.line with
    | some n => if n = 0 then "" else " (line " ++ toString n ++ ")"
    | none => ""

structure Finding where
  id : String := ""
  title : String
  severity : Severity
  description : String
  impact : String := ""
  locations : List Location := []
  recommendation : String := ""
  confidence : Confidence := .heuristic
  vulnerabilityClass : String := ""
  detectorId : String := ""
  evidence : List String := []
  flags : List String := []
  economicImpact : Option String := none
  pocCode : Option String := none
  deriving DecidableEq, Repr

/-- What makes two findings the same problem. -/
structure FindingKey where
  contract : String
  function : String
  subject : String
  deriving DecidableEq, Repr

/-- A text that is there and not empty. -/
def isGiven : Option String → Bool
  | some s => ! s.isEmpty
  | none => false

namespace Finding

def primaryLocation? (f : Finding) : Option Location := f.locations.head?

/-- The finding carries a proof of concept or an estimate of the damage. -/
def hasExploitContext (f : Finding) : Bool := isGiven f.pocCode || isGiven f.economicImpact

def key (f : Finding) : FindingKey where
  contract := (f.primaryLocation?.map (·.contract)).getD ""
  function := (f.primaryLocation?.map (·.function)).getD ""
  subject := if f.vulnerabilityClass.isEmpty then f.title else f.vulnerabilityClass

end Finding

inductive DiagnosticCode where
  | parseWarning
  | unresolvedDependency
  | recursionLimitExceeded
  | invalidInput
  | detectorFailed
  | fileLimitExceeded
  | duplicateContract
  deriving DecidableEq, Repr

namespace DiagnosticCode

def word : DiagnosticCode → String
  | parseWarning => "PARSE_WARNING"
  | unresolvedDependency => "UNRESOLVED_DEPENDENCY"
  | recursionLimitExceeded => "RECURSION_LIMIT_EXCEEDED"
  | invalidInput => "INVALID_INPUT"
  | detectorFailed => "DETECTOR_FAILED"
  | fileLimitExceeded => "FILE_LIMIT_EXCEEDED"
  | duplicateContract => "DUPLICATE_CONTRACT"

def all : List DiagnosticCode :=
  [parseWarning, unresolvedDependency, recursionLimitExceeded, invalidInput, detectorFailed,
   fileLimitExceeded, duplicateContract]

def ofWord? (w : String) : Option DiagnosticCode := all.find? (·.word == w)

end DiagnosticCode

/-- A problem that made the analysis less complete without stopping it. -/
structure Diagnostic where
  code : DiagnosticCode
  message : String
  source : String := ""
  confidence : Confidence := .heuristic
  deriving DecidableEq, Repr

end ContractAudit
