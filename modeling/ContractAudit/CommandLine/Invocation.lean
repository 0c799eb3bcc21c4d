import ContractAudit.CommandLine.Arguments
import ContractAudit.Finding
import ContractAudit.Text.Numeral

/-!
# Invocations

What the words of a command line ask for. The general options stand before the command, and the
command takes every word that follows it. Reading stops at the first error or request for help.
-/

namespace ContractAudit.CommandLine

def program : String := "xcaudit"

inductive Format where
  | table
  | json
  | sarif
  | html
  deriving DecidableEq, Repr

def Format.choices : List (String × Format) :=
  [("table", .table), ("json", .json), ("sarif", .sarif), ("html", .html)]

def severityChoices : List (String × Severity) :=
  [("critical", .critical), ("high", .high), ("medium", .medium), ("low", .low),
   ("info", .informational)]

structure ScanRequest where
  path : String := ""
  /-- The least severity that is shown. -/
  severity : Option Severity := none
  format : Format := .table
  output : Option String := none
  /-- How many findings are shown; all of them unless it is positive. -/
  maxFindings : Int := 0
  maxDepth : Option Int := none
  maxFiles : Option Int := none
  noFilter : Bool := false
  deriving DecidableEq, Repr

inductive Command where
  | scan (request : ScanRequest)
  | config
  deriving DecidableEq, Repr

structure Invocation where
  version : Bool := false
  noBanner : Bool := false
  quiet : Bool := false
  command : Option Command := none
  deriving DecidableEq, Repr

/-- What help is about. -/
inductive Topic where
  | general
  | scan
  | config
  deriving DecidableEq, Repr

def Topic.name : Topic → String
  | general => program
  | scan => program ++ " scan"
  | config => program ++ " config"

/-- Why there is nothing to run. -/
inductive Stop where
  | help (topic : Topic)
  | misuse (topic : Topic) (error : UsageError)
  deriving DecidableEq, Repr

inductive GeneralOption where
  | help
  | version
  | noBanner
  | quiet

def generalFlags : List (Flag GeneralOption) :=
  [⟨.help, ["-h", "--help"], false⟩, ⟨.version, ["--version"], false⟩,
   ⟨.noBanner, ["--no-banner"], false⟩, ⟨.quiet, ["--quiet", "-q"], false⟩]

inductive ScanOption where
  | help
  | severity
  | format
  | output
  | maxFindings
  | maxDepth
  | maxFiles
  | noFilter
  | quiet
  | noBanner

def scanFlags : List (Flag ScanOption) :=
  [⟨.help, ["-h", "--help"], false⟩, ⟨.severity, ["--severity"], true⟩,
   ⟨.format, ["--format", "-f"], true⟩, ⟨.output, ["--output", "-o"], true⟩,
   ⟨.maxFindings, ["--max-findings"], true⟩, ⟨.maxDepth, ["--max-depth"], true⟩,
   ⟨.maxFiles, ["--max-files"], true⟩, ⟨.noFilter, ["--no-filter"], false⟩,
   ⟨.quiet, ["--quiet", "-q"], false⟩, ⟨.noBanner, ["--no-banner"], false⟩]

def configFlags : List (Flag Unit) := [⟨(), ["-h", "--help"], false⟩]

def chosen (label : String) (choices : List (String × α)) (value : String) : Except UsageError α :=
  match choices.lookup value with
  | some a => .ok a
  | none => .error (.argument label (.notAmong value (choices.map (·.1))))

def integer (label value : String) : Except UsageError Int :=
  match Text.integer? value with
  | some n => .ok n
  | none => .error (.argument label (.notInteger value))

/-- What has been read of a scan. -/
structure ScanDraft where
  path : Option String := none
  request : ScanRequest := {}
  quiet : Bool := false
  noBanner : Bool := false

namespace ScanDraft

def set (d : ScanDraft) (label value : String) : ScanOption → Except UsageError ScanDraft
  | .severity => do
    return { d with request.severity := some (← chosen label severityChoices value) }
  | .format => do return { d with request.format := ← chosen label Format.choices value }
  | .output => .ok { d with request.output := some value }
  | .maxFindings => do return { d with request.maxFindings := ← integer label value }
  | .maxDepth => do return { d with request.maxDepth := some (← integer label value) }
  | .maxFiles => do return { d with request.maxFiles := some (← integer label value) }
  | _ => .ok d

def step (d : ScanDraft) : Event ScanOption → Except Stop ScanDraft
  | .switch .help => .error (.help .scan)
  | .switch .noFilter => .ok { d with request.noFilter := true }
  | .switch .quiet => .ok { d with quiet := true }
  | .switch .noBanner => .ok { d with noBanner := true }
  | .switch _ => .ok d
  | .setting f value => (d.set f.label value f.option).mapError (.misuse .scan)
  | .operand word => .ok { d with path := some word }
  | .extra _ => .ok d

end ScanDraft

/-- Takes the events of a reading one by one, then the error that ended it. -/
def Reading.fold (r : Reading ι) (topic : Topic) (step : σ → Event ι → Except Stop σ) (start : σ) :
    Except Stop σ := do
  let s ← r.events.foldlM step start
  match r.error with
  | some e => throw (.misuse topic e)
  | none => return s

def read (flags : List (Flag ι)) (topic : Topic) (wanted : Bool) (words : List String) :
    Except Stop (Reading ι) :=
  match markAll flags words with
  | .error e => .error (.misuse topic e)
  | .ok marked => .ok (readMarked flags wanted marked)

/-- Reads the words of a scan into an invocation, and the words that it has no use for. -/
def readScan (i : Invocation) (words : List String) : Except Stop (Invocation × List String) := do
  let r ← read scanFlags .scan true words
  let d ← r.fold .scan ScanDraft.step {}
  match d.path with
  | none => throw (.misuse .scan (.missing ["path"]))
  | some path =>
    return ({ i with
      quiet := i.quiet || d.quiet
      noBanner := i.noBanner || d.noBanner
      command := some (.scan { d.request with path := path }) }, extrasOf r.events)

def readConfig (i : Invocation) (words : List String) : Except Stop (Invocation × List String) := do
  let r ← read configFlags .config false words
  r.fold .config (fun _ e => match e with
    | .switch () => .error (.help .config)
    | _ => .ok ()) ()
  return ({ i with command := some .config }, extrasOf r.events)

def commandNames : List (String × Topic) := [("scan", .scan), ("config", .config)]

/-- Reads a command and its words. -/
def readCommand (i : Invocation) : List String → Except Stop (Invocation × List String)
  | [] => .ok (i, [])
  | ["--"] => .ok (i, ["--"])
  | name :: words =>
    match chosen "command" commandNames name with
    | .error e => .error (.misuse .general e)
    | .ok .scan => readScan i words
    | .ok .config => readConfig i words
    | .ok .general => .ok (i, words)

def Invocation.step (i : Invocation) : Event GeneralOption → Except Stop Invocation
  | .switch .help => .error (.help .general)
  | .switch .version => .ok { i with version := true }
  | .switch .noBanner => .ok { i with noBanner := true }
  | .switch .quiet => .ok { i with quiet := true }
  | _ => .ok i

/-- The word is an option or looks like one. -/
def Mark.isOption : Mark ι → Bool
  | option _ => true
  | unknown => true
  | _ => false

/-- Reads a command line. -/
def Invocation.ofWords (words : List String) : Except Stop Invocation := do
  let marked ← (markAll generalFlags words).mapError (.misuse .general)
  let r := readMarked generalFlags false (marked.takeWhile (·.2.isOption))
  let i ← r.fold .general Invocation.step {}
  let (i, extras) ← readCommand i ((marked.dropWhile (·.2.isOption)).map (·.1))
  match extrasOf r.events ++ extras with
  | [] => return i
  | extras => throw (.misuse .general (.unrecognized extras))

end ContractAudit.CommandLine
