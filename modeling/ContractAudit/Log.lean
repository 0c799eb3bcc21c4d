import ContractAudit.Json.Literal
import ContractAudit.Json.Writer
import ContractAudit.Path
import ContractAudit.Settings

/-!
# Log records

A record has a level, the name of its logger, a message, the place in the program it comes from and
further fields. It is written on one line, as a document or in colours for a terminal.
-/

namespace ContractAudit

inductive LogLevel where
  | notset
  | debug
  | info
  | warning
  | error
  | critical
  deriving DecidableEq, Repr

namespace LogLevel

def number : LogLevel → Int
  | notset => 0
  | debug => 10
  | info => 20
  | warning => 30
  | error => 40
  | critical => 50

def word : LogLevel → String
  | notset => "NOTSET"
  | debug => "DEBUG"
  | info => "INFO"
  | warning => "WARNING"
  | error => "ERROR"
  | critical => "CRITICAL"

def all : List LogLevel := [notset, debug, info, warning, error, critical]

def ofNumber? (n : Int) : Option LogLevel := all.find? (·.number == n)

/-- The name of a level number. -/
def name (n : Int) : String :=
  match ofNumber? n with
  | some l => l.word
  | none => "Level " ++ toString n

/-- A letter in upper case; the dotless i and the long s have the plain letters as capitals. -/
def upperLetter (c : Char) : Char :=
  if c = 'ı' then 'I' else if c = 'ſ' then 'S' else c.toUpper

/-- The basic layout of a line, by the fields of a record. -/
def basicFormat : String := "%(levelname)s:%(name)s:%(message)s"

/-- A word that is known in logging but names no level. -/
structure NotLevel where
  meaning : String
  deriving DecidableEq, Repr

def NotLevel.message (e : NotLevel) : String := "Unknown level: " ++ Text.quoted e.meaning

/-- The level that a word names in any case; an unknown word means `info`. The word for the basic
layout is known, and it is no level. -/
def ofWord (w : String) : Except NotLevel LogLevel :=
  match String.ofList (w.toList.map upperLetter) with
  | "WARN" => .ok warning
  | "FATAL" => .ok critical
  | "BASIC_FORMAT" => .error ⟨basicFormat⟩
  | u => .ok ((all.find? (·.word == u)).getD info)

end LogLevel

/-- A failure that a record reports. -/
structure LoggedFailure where
  kind : String
  /-- The kind with the name of its home. -/
  fullKind : String
  message : String

def LoggedFailure.text (f : LoggedFailure) : String :=
  if f.message.isEmpty then f.fullKind else f.fullKind ++ ": " ++ f.message

structure LogRecord where
  level : Int
  logger : String
  message : String
  pathname : String := ""
  function : Option String := none
  line : Int := 0
  fields : Table String Json := []
  failure : Option LoggedFailure := none

namespace LogRecord

/-- The file name of a path without its last extension. -/
def moduleName (pathname : String) : String :=
  let name := String.ofList (((Path.stretches '/' pathname.toList).getLast?).getD [])
  String.ofList (name.toList.take (name.length - (Path.extension name).length))

/-- Marks a record with a run: the fixed one, else the one that is bound, unless it has one. -/
def stamp (fixed bound : Option String) (r : LogRecord) : LogRecord :=
  let given (id : Option String) : Option String := id.filter (! ·.isEmpty)
  match (given fixed).or (given bound) with
  | none => r
  | some id =>
    if ((r.fields.get? "run_id").getD .null).isPresent then r
    else { r with fields := r.fields.put "run_id" (.str id) }

/-- The further fields that are written, in this order. -/
def fieldOrder : List String := ["run_id", "source", "contract", "detector", "duration_ms"]

def writtenFields (r : LogRecord) : List (String × Json) :=
  fieldOrder.filterMap fun key =>
    match r.fields.get? key with
    | none | some .null => none
    | some value => some (key, value)

/-- The record as a document on one line. The place is left out when there is no path. -/
def documentLine (timestamp : String) (r : LogRecord) : String :=
  Json.line <| .obj <|
    [("timestamp", .str timestamp), ("level", .str (LogLevel.name r.level)),
     ("logger", .str r.logger), ("message", .str r.message)] ++
    (if r.pathname.isEmpty then []
      else [("module", .str (moduleName r.pathname)), ("function", .ofOption .str r.function),
        ("line", .int r.line)]) ++
    (match r.failure with
      | none => []
      | some f => [("exception", .obj [("type", .str f.kind), ("message", .str f.message),
          ("traceback", .str f.text)])]) ++
    r.writtenFields

def levelColor (n : Int) : String :=
  match LogLevel.ofNumber? n with
  | some .debug => "\x1b[36m"
  | some .info => "\x1b[32m"
  | some .warning => "\x1b[33m"
  | some .error => "\x1b[31m"
  | some .critical => "\x1b[35m"
  | _ => ""

def padLeft (width : Nat) (s : String) : String :=
  String.ofList (List.replicate (width - s.length) ' ') ++ s

/-- The record names as its run something that has no beginning. -/
inductive RunFailure where
  | notSequence (kind : String)
  | notOrdered
  deriving DecidableEq, Repr

def RunFailure.message : RunFailure → String
  | notSequence kind => "'" ++ kind ++ "' object is not subscriptable"
  | notOrdered => "unhashable type: 'slice'"

/-- The first eight characters, or items, of a run. -/
def runStart : Json → Except RunFailure String
  | .str s => .ok (String.ofList (s.toList.take 8))
  | .arr items => .ok (Json.literal (.arr (items.take 8)))
  | .obj _ => .error .notOrdered
  | id => .error (.notSequence id.kindWord)

/-- The start of the run in brackets, if the record has one. -/
def runMark (r : LogRecord) : Except RunFailure String :=
  match r.fields.get? "run_id" with
  | some id => if id.isPresent then (runStart id).map fun s => "[" ++ s ++ "] " else .ok ""
  | none => .ok ""

/-- The record as a line for a terminal, with the failure on lines of its own. -/
def terminalLine (timestamp : String) (r : LogRecord) : Except RunFailure String :=
  r.runMark.map fun mark =>
    levelColor r.level ++ timestamp ++ " [" ++ padLeft 8 (LogLevel.name r.level) ++ "]\x1b[0m " ++
      r.logger ++ ": " ++ mark ++ r.message ++
      match r.failure with
      | some f => "\n" ++ f.text
      | none => ""

end LogRecord

/-- The two ways to write records. -/
inductive LogLayout where
  | document
  | terminal
  deriving DecidableEq, Repr

def LogLayout.write (layout : LogLayout) (timestamp : String) (r : LogRecord) :
    Except LogRecord.RunFailure String :=
  match layout with
  | document => .ok (r.documentLine timestamp)
  | terminal => r.terminalLine timestamp

/-- How records are kept and written: everything of a level and above, on one handler that marks
records with their run. -/
structure LogSetup where
  level : LogLevel
  layout : LogLayout
  deriving DecidableEq, Repr

/-- Deployed environments get documents, all others coloured lines. -/
def LogSetup.ofWords (environment level : String) : Except LogLevel.NotLevel LogSetup :=
  (LogLevel.ofWord level).map fun level =>
    ⟨level, if ["staging", "production"].contains environment then .document else .terminal⟩

/-! ## Bound runs -/

/-- The runs that are bound, the innermost first. -/
abbrev RunContext := List String

namespace RunContext

def current? (c : RunContext) : Option String := c.head?

def bind (c : RunContext) (id : String) : RunContext := id :: c

def leave (c : RunContext) : RunContext := c.tail

end RunContext

end ContractAudit
