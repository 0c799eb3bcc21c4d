import ContractAudit.Json.Reader
import ContractAudit.Schema
import ContractAudit.Settings
import ContractAudit.Settings.EnvFile
import ContractAudit.Text.Lower

/-!
# Where settings come from

A setting is taken from the caller's overrides, else from the environment, else from an environment
file, else it has its default. Names of environment variables are compared in lower case. Lists and
tables are written as documents there, and a null counts as no value. Tables from several sources
are merged, a key of the stronger source winning.
-/

namespace ContractAudit

inductive SettingsError where
  /-- A list or table setting that is no document. -/
  | unreadable (field source : String)
  | invalid (faults : List FieldFault)
  deriving DecidableEq, Repr

namespace SettingsError

def message : SettingsError → String
  | unreadable field source =>
    "error parsing value for field \"" ++ field ++ "\" from source \"" ++ source ++ "\""
  | invalid _ => ""

end SettingsError

namespace Settings

open Schema

def texts : Schema (List String) := list text .notList

def positive : Schema Int := fun j => (whole j).ensure (1 ≤ ·) (.tooSmall 1)

/-- A number that is not zero or below; what is no number is not refused. -/
def positiveReal : Schema Float := fun j => (real j).ensure (fun x => ! (x ≤ 0.0)) (.notAbove 0)

/-- The names of the settings, and whether they are lists or tables. -/
def fields : List (String × Bool) :=
  [("app_name", false), ("app_env", false), ("log_level", false), ("max_flow_depth", false),
   ("max_files", false), ("extraction_workers", false), ("source_extensions", true),
   ("apply_path_filter", false), ("reentrancy_guard_markers", true), ("accounting_keywords", true),
   ("garbage_keywords", true), ("severity_weights", true), ("risk_damping", false)]

/-- Reads settings from values by name. -/
def ofValues (r : Table String Json) : Checked Settings :=
  let d : Settings := {}
  Settings.mk <$> optional "app_name" d.appName text r <*>
    optional "app_env" d.appEnv (member Environment.ofWord? .notLiteral) r <*>
    optional "log_level" d.logLevel text r <*>
    optional "max_flow_depth" d.maxFlowDepth positive r <*>
    optional "max_files" d.maxFiles positive r <*>
    optional "extraction_workers" d.extractionWorkers positive r <*>
    optional "source_extensions" d.sourceExtensions texts r <*>
    optional "apply_path_filter" d.applyPathFilter flag r <*>
    optional "reentrancy_guard_markers" d.reentrancyGuards texts r <*>
    optional "accounting_keywords" d.accountingKeywords texts r <*>
    optional "garbage_keywords" d.garbageKeywords texts r <*>
    optional "severity_weights" d.severityWeights (table real) r <*>
    optional "risk_damping" d.riskDamping positiveReal r

/-- The values by name that read back as the settings. -/
def values (s : Settings) : Table String Json :=
  [("app_name", .str s.appName), ("app_env", .str s.appEnv.word), ("log_level", .str s.logLevel),
   ("max_flow_depth", .int s.maxFlowDepth), ("max_files", .int s.maxFiles),
   ("extraction_workers", .int s.extractionWorkers),
   ("source_extensions", .ofStrings s.sourceExtensions),
   ("apply_path_filter", .bool s.applyPathFilter),
   ("reentrancy_guard_markers", .ofStrings s.reentrancyGuards),
   ("accounting_keywords", .ofStrings s.accountingKeywords),
   ("garbage_keywords", .ofStrings s.garbageKeywords),
   ("severity_weights", .obj (s.severityWeights.map fun (k, w) => (k, .float w))),
   ("risk_damping", .float s.riskDamping)]

/-- A source of settings as texts: its name in messages and its variables by lower-case name. -/
structure TextSource where
  name : String
  entries : Table String (Option String)

def TextSource.ofVariables (name : String) (vars : Table String (Option String)) : TextSource :=
  ⟨name, Table.putAll [] (vars.map fun (k, v) => (Text.lower k, v))⟩

/-- The value of a setting in a source. -/
def TextSource.value? (s : TextSource) (field : String) (isDocument : Bool) :
    Except SettingsError (Option Json) :=
  match (s.entries.get? ("xcaudit_" ++ field)).join with
  | none => .ok none
  | some text =>
    if isDocument then
      match Json.parse? text with
      | none => .error (.unreadable field s.name)
      | some .null => .ok none
      | some j => .ok (some j)
    else .ok (some (.str text))

def TextSource.valuesOf (s : TextSource) : List (String × Bool) → Except SettingsError (Table String Json)
  | [] => .ok []
  | (field, isDocument) :: rest =>
    match s.value? field isDocument with
    | .error e => .error e
    | .ok v => (s.valuesOf rest).map fun t => (v.map (field, ·)).toList ++ t

/-- Puts the values of a stronger source over those of a weaker one. -/
def override (weak strong : Table String Json) : Table String Json :=
  weak.putAll <| strong.map fun (key, value) =>
    match weak.get? key, value with
    | some (.obj weaker), .obj stronger => (key, .obj (Table.putAll weaker stronger))
    | _, _ => (key, value)

/-- Where the environment file is looked for. -/
def environmentFile : String := ".env"

/-- Settings from overrides, the environment and the text of an environment file. -/
def load (overrides : Table String Json) (env : Table String String) (envFile : Option String) :
    Except SettingsError Settings := do
  let environment ←
    (TextSource.ofVariables "EnvSettingsSource" (env.map fun (k, v) => (k, some v))).valuesOf fields
  let file ← match envFile with
    | none => .ok []
    | some text => (TextSource.ofVariables "DotEnvSettingsSource" (EnvFile.values env text)).valuesOf fields
  match ofValues (override (override file environment) overrides) with
  | .valid s => .ok s
  | .faulty fs => .error (.invalid fs)

end Settings

end ContractAudit
