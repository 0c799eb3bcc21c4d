import ContractAudit.Table

/-!
# Settings
-/

namespace ContractAudit

inductive Environment where
  | development
  | staging
  | production
  deriving DecidableEq, Repr

namespace Environment

def word : Environment → String
  | development => "development"
  | staging => "staging"
  | production => "production"

def all : List Environment := [development, staging, production]

def ofWord? (w : String) : Option Environment := all.find? (·.word == w)

end Environment

structure Settings where
  appName : String := "xcaudit"
  appEnv : Environment := .development
  logLevel : String := "INFO"
  /-- The number of frames a flow may open. -/
  maxFlowDepth : Int := 8
  maxFiles : Int := 500
  extractionWorkers : Int := 4
  sourceExtensions : List String := [".sol"]
  applyPathFilter : Bool := true
  reentrancyGuards : List String :=
    ["nonReentrant", "noReentrancy", "noReentrant", "reentrancyGuard", "nonReentrantView", "lock"]
  accountingKeywords : List String := ["balance", "supply", "share"]
  /-- Words that mark a finding as unhelpful, unless it shows the damage. -/
  garbageKeywords : List String :=
    ["gas optimization", "gas optimisation", "gas saving", "save gas", "gas efficiency",
     "naming convention", "code style", "coding style", "style guide", "typo", "natspec",
     "missing comment", "formatting", "indentation"]
  severityWeights : Table String Float :=
    [("critical", 10.0), ("high", 5.0), ("medium", 2.0), ("low", 0.5), ("informational", 0.1)]
  riskDamping : Float := 25.0

end ContractAudit
