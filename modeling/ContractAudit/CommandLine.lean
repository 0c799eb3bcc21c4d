import ContractAudit.Audit
import ContractAudit.CommandLine.Display
import ContractAudit.Crawl
import ContractAudit.Log
import ContractAudit.Report.Document
import ContractAudit.Report.Page
import ContractAudit.Report.Sarif

/-!
# The command line

A run takes the words of the command line, the environment and a file system to an exit code, two
streams of text and at most one file that is to be written.
-/

namespace ContractAudit.CommandLine

/-- What a run leaves behind. -/
structure Outcome where
  code : UInt8 := 0
  out : String := ""
  err : String := ""
  /-- A file to be written, and its text. -/
  written : Option (Path × String) := none

/-- Faults that end a run without an outcome. -/
inductive Breakdown where
  | settings (error : SettingsError)
  | logging (error : LogLevel.NotLevel)
  | score (error : ScoreError)

namespace ScanRequest

/-- The settings that a scan changes. -/
def overrides (r : ScanRequest) : Table String Json :=
  (r.maxDepth.map (("max_flow_depth", .int ·))).toList ++
    (r.maxFiles.map (("max_files", .int ·))).toList ++
    (if r.noFilter then [("apply_path_filter", .bool false)] else [])

def settings (r : ScanRequest) (s : Settings) : Checked Settings :=
  if r.overrides.isEmpty then .valid s else Settings.ofValues (s.values.putAll r.overrides)

/-- The findings that a scan shows: those of the least severity or above, up to the limit. -/
def select (r : ScanRequest) (fs : List Finding) : List Finding :=
  let kept := match r.severity with
    | some least => fs.filter (least.rank ≤ ·.severity.rank)
    | none => fs
  if 0 < r.maxFindings then kept.take r.maxFindings.toNat else kept

/-- The report as a scan shows it. -/
def view (r : ScanRequest) (report : Report) : Report :=
  let fs := r.select report.findings
  { report with findings := fs, summary := .ofFindings fs }

def projectName (path : Path) : String := if path.name.isEmpty then path.text else path.name

/-- The document that a scan gives out; a table is none. -/
def document? (r : ScanRequest) (report : Report) : Option String :=
  match r.format with
  | .table => none
  | .json => some (r.view report).text
  | .sarif => some (Sarif.text toolVersion (r.view report))
  | .html => some (Page.html (projectName (.ofString r.path)) (r.view report))

end ScanRequest

namespace Outcome

/-- Puts `err` before what is said on the error stream. -/
def afterErr (o : Outcome) (err : String) : Outcome := { o with err := err ++ o.err }

def failed (message : String) : Outcome := { code := 1, err := failure message }

/-- The file system after the run. -/
def filesAfter (o : Outcome) (files : FileSystem) : FileSystem :=
  match o.written with
  | none => files
  | some (path, text) => (files.write path text.toUTF8.toList).toOption.getD files

end Outcome

def faultMessage (f : FieldFault) : String :=
  "invalid " ++ String.intercalate "." f.path ++ ": " ++ f.problem.boundMessage

/-- Gives out a document, to a file if one is named. -/
def deliver (files : FileSystem) (quiet : Bool) (output : Option String) (text : String) : Outcome :=
  match output with
  | none | some "" => { out := lines [text] }
  | some output =>
    let path := Path.ofString output
    match files.write path text.toUTF8.toList with
    | .error e => .failed ("cannot write " ++ output ++ ": " ++ e.message path)
    | .ok _ =>
      { err := if quiet then "" else lines ["  Written to " ++ styled [.cyan] output]
        written := some (path, text) }

/-- Gives out the report of a scan. -/
def present (files : FileSystem) (quiet : Bool) (r : ScanRequest) (report : Report) : Outcome :=
  match r.document? report with
  | none => { out := table quiet report (r.select report.findings) }
  | some text => deliver files quiet r.output text

def runScan (files : FileSystem) (quiet : Bool) (s : Settings) (r : ScanRequest) :
    Except ScoreError Outcome :=
  match r.settings s with
  | .faulty faults =>
    .ok { code := 1, err := String.join (faults.map (failure <| faultMessage ·)) }
  | .valid s =>
    let path := Path.ofString r.path
    let crawl : Crawl := ⟨s.sourceExtensions, s.maxFiles, s.applyPathFilter⟩
    match crawl.run? files path with
    | none => .ok (.failed (missingPath path))
    | some [] => .ok (.failed ("no contract sources found in '" ++ path.text ++ "'."))
    | some units =>
      let notice := "  Analyzing " ++ styled [.cyan] (toString units.length) ++ " file(s) in " ++
        path.text ++ "…"
      (Audit.report s (! r.noFilter) (.ok units) []).map fun report =>
        (present files quiet r report).afterErr (if quiet then "" else lines [notice])

/-- How a run keeps its log: a quiet one keeps warnings only. -/
def logSetup (quiet : Bool) (s : Settings) : Except LogLevel.NotLevel LogSetup :=
  LogSetup.ofWords s.appEnv.word (if quiet then "WARNING" else s.logLevel)

/-- Runs a command with the settings that the environment gives. -/
def Command.run (c : Command) (files : FileSystem) (env : Table String String) (quiet : Bool) :
    Except Breakdown Outcome := do
  let s ← (Settings.load [] env (files.text? (.ofString Settings.environmentFile))).mapError .settings
  let _ ← (logSetup quiet s).mapError .logging
  match c with
  | .config => return { out := configuration s }
  | .scan r => (runScan files quiet s r).mapError .score

def Invocation.run (i : Invocation) (files : FileSystem) (env : Table String String) :
    Except Breakdown Outcome :=
  if i.version then .ok { out := lines [program ++ " " ++ toolVersion] }
  else
    Except.map (·.afterErr (if i.noBanner || i.quiet then "" else banner)) <|
      match i.command with
      | none => .ok { out := help .general }
      | some c => c.run files env i.quiet

/-- Runs a command line. -/
def run (words : List String) (files : FileSystem) (env : Table String String) :
    Except Breakdown Outcome :=
  match Invocation.ofWords words with
  | .ok i => i.run files env
  | .error (.help topic) => .ok { out := help topic }
  | .error (.misuse topic e) => .ok { code := 1, err := misuse topic e }

end ContractAudit.CommandLine
