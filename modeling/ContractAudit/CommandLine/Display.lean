import ContractAudit.CommandLine.Invocation
import ContractAudit.Json.Literal
import ContractAudit.Report
import ContractAudit.Settings.Sources
import ContractAudit.Text.Order

/-!
# What a terminal shows

Banner, help, the table of findings and the list of settings, with colour codes.
-/

namespace ContractAudit.CommandLine

def toolVersion : String := "0.1.0"

inductive Style where
  | bold
  | dim
  | red
  | orange
  | yellow
  | green
  | cyan
  deriving DecidableEq, Repr

def Style.code : Style → String
  | bold => "\x1b[1m"
  | dim => "\x1b[2m"
  | red => "\x1b[91m"
  | orange => "\x1b[38;5;208m"
  | yellow => "\x1b[93m"
  | green => "\x1b[92m"
  | cyan => "\x1b[96m"

def plainStyle : String := "\x1b[0m"

/-- A text in some styles. -/
def styled (styles : List Style) (s : String) : String :=
  String.join (styles.map (·.code)) ++ s ++ plainStyle

def lines (ls : List String) : String := String.join (ls.map (· ++ "\n"))

def severityStyle : Severity → Style
  | .critical => .red
  | .high => .orange
  | .medium => .yellow
  | .low => .cyan
  | .informational => .dim

def riskStyle (score : Float) : Style :=
  if score < 25.0 then .green else if score < 50.0 then .yellow else .red

def banner : String := lines
  ["",
   styled [.bold, .cyan] (String.intercalate "\n"
    ["__  _____   __ _ _   _  __| (_) |_",
     "\\ \\/ / __| / _` | | | |/ _` | | __|",
     " >  < (__ | (_| | |_| | (_| | | |_",
     "/_/\\_\\___| \\__,_|\\__,_|\\__,_|_|\\__|"]),
   "  " ++ styled [.dim] ("Cross-contract security analyzer, v" ++ toolVersion),
   ""]

def usage : Topic → String
  | .general => "usage: xcaudit [-h] [--version] [--no-banner] [--quiet] \x7bscan,config\x7d ..."
  | .scan =>
    "usage: xcaudit scan [-h] [--severity \x7bcritical,high,medium,low,info\x7d] " ++
      "[--format \x7btable,json,sarif,html\x7d] [--output OUTPUT] [--max-findings MAX_FINDINGS] " ++
      "[--max-depth MAX_DEPTH] [--max-files MAX_FILES] [--no-filter] [--quiet] [--no-banner] path"
  | .config => "usage: xcaudit config [-h]"

def helpLines : Topic → List String
  | .general =>
    ["  scan         Analyze contract files", "  config       Show current configuration",
     "  --version    Print version and exit", "  --no-banner  Suppress the startup banner",
     "  --quiet, -q  Minimal output"]
  | .scan =>
    ["  path            Path to a contract file or project directory",
     "  --severity      Minimum severity to report",
     "  --format, -f    Output format (default: table)",
     "  --output, -o    Write output to file instead of stdout",
     "  --max-findings  Limit findings shown (0=all)",
     "  --max-depth     Flow traversal depth bound",
     "  --max-files     Maximum number of files to analyze",
     "  --no-filter     Keep vendored library paths and low-value findings",
     "  --quiet, -q     Minimal output",
     "  --no-banner     Suppress the startup banner"]
  | .config => []

def help (topic : Topic) : String := lines (usage topic :: "" :: helpLines topic)

def misuse (topic : Topic) (e : UsageError) : String :=
  lines [usage topic, topic.name ++ ": error: " ++ e.message]

def failure (message : String) : String := lines [styled [.red] ("Error: " ++ message)]

/-- The longest description that is shown whole. -/
def descriptionLimit : Nat := 200

def shortened (s : String) : String :=
  if descriptionLimit < s.length then String.ofList (s.toList.take descriptionLimit) ++ "…" else s

def severityCaption (s : Severity) : String := String.ofList (s.word.toList.map Char.toUpper)

def padStart (width : Nat) (s : String) : String :=
  String.ofList (List.replicate (width - s.length) ' ') ++ s

def findingLines (quiet : Bool) (number : Nat) (f : Finding) : List String :=
  let place := match f.primaryLocation? with
    | some l => styled [.dim] ("  " ++ l.label)
    | none => ""
  ["  " ++ styled [.dim] (padStart 3 (toString number) ++ ".") ++ " " ++
     styled [severityStyle f.severity, .bold] (" " ++ severityCaption f.severity ++ " ") ++ " " ++
     styled [.bold] f.title ++ place] ++
  (if f.description.isEmpty || quiet then []
   else ["       " ++ styled [.dim] (shortened f.description)]) ++
  (if f.flags.isEmpty then []
   else ["       " ++ styled [.dim] ("Flags: " ++ String.intercalate ", " f.flags)]) ++ [""]

/-- The lines of the findings from number `n` on. -/
def findingLinesFrom (quiet : Bool) (n : Nat) : List Finding → List String
  | [] => []
  | f :: fs => findingLines quiet n f ++ findingLinesFrom quiet (n + 1) fs

/-- How many findings there are of each severity that occurs. -/
def countLine (fs : List Finding) : String :=
  "  " ++ String.intercalate " · " ((Summary.ofFindings fs).bySeverity.filterMap fun (s, n) =>
    if n = 0 then none
    else some (styled [severityStyle s] (toString n ++ " " ++ severityCaption s)))

def diagnosticLine (d : Diagnostic) : String :=
  let source := if d.source.isEmpty then "" else " " ++ d.source ++ ":"
  "    " ++ styled [.dim] ("[" ++ d.code.word ++ "]" ++ source ++ " " ++ d.message)

/-- How many diagnostics are shown. -/
def diagnosticLimit : Nat := 20

def diagnosticLines (ds : List Diagnostic) : List String :=
  if ds.isEmpty then []
  else
    ["  " ++ styled [.yellow] (toString ds.length ++ " diagnostic(s)")] ++
      (ds.take diagnosticLimit).map diagnosticLine ++ [""]

def countOf (r : Report) (key : String) : String := ((r.metadata.get? key).getD (.int 0)).shown

def overviewLines (r : Report) : List String :=
  ["", styled [.bold] "Analysis complete",
   "  Risk: " ++
     styled [riskStyle r.riskScore] (NumberLayout.plain.fixed 1 r.riskScore ++ "/100") ++
     "  |  Contracts: " ++ countOf r "contracts" ++ "  |  Files: " ++ countOf r "units",
   ""]

/-- The table of some findings of a report. -/
def table (quiet : Bool) (r : Report) (fs : List Finding) : String :=
  lines <|
    (if quiet then [] else overviewLines r) ++
    (if fs.isEmpty then [styled [.green] "  ✓ No findings at the requested severity level."]
     else [countLine fs, ""] ++ findingLinesFrom quiet 1 fs) ++
    (if quiet then [] else diagnosticLines r.diagnostics)

def settingLine (s : Settings) (name : String) : String :=
  "  " ++ styled [.dim] (name ++ ":") ++ "  " ++ ((s.values.get? name).getD .null).shown

def configuration (s : Settings) : String :=
  lines (["", styled [.bold] "xcaudit configuration", ""] ++
    (Text.sort s.values.keys).map (settingLine s) ++ [""])

end ContractAudit.CommandLine
