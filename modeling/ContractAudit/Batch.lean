import ContractAudit.Contract.Extract
import ContractAudit.Finding
import ContractAudit.Path

/-!
# Batches of sources

A batch is a list of source units. Each unit is modelled on its own, and a unit that has no model
leaves a warning. Contract names are unique in a batch: the first declaration of a name is kept and
every later one leaves a warning that names the unit of the kept one.
-/

namespace ContractAudit

inductive WarningCause where
  | unreadable (error : ParseError)
  | duplicate (contract keptIn : String) (line : Nat)
  deriving DecidableEq, Repr

/-- What happened to a unit that is not, or not wholly, part of the model. -/
structure Warning where
  sourceName : String
  sourcePath : String
  cause : WarningCause
  deriving DecidableEq, Repr

namespace Warning

def message (w : Warning) : String :=
  match w.cause with
  | .unreadable e => e.message
  | .duplicate contract keptIn _ =>
    "duplicate declaration of " ++ contract ++ "; keeping the one from " ++ keptIn

def line? (w : Warning) : Option Nat :=
  match w.cause with
  | .unreadable e => e.line?
  | .duplicate _ _ line => some line

def code (w : Warning) : DiagnosticCode :=
  match w.cause with
  | .unreadable _ => .parseWarning
  | .duplicate .. => .duplicateContract

def ofError (unit : SourceUnit) (e : ParseError) : Warning := ⟨unit.name, unit.path, .unreadable e⟩

/-- The warning as a diagnostic; a line is named unless it is zero. -/
def toDiagnostic (w : Warning) : Diagnostic where
  code := w.code
  message := match w.line? with
    | some (n + 1) => w.message ++ " (line " ++ toString (n + 1) ++ ")"
    | _ => w.message
  source := w.sourceName

end Warning

/-- The contracts of a batch, with distinct names, and the warnings in the order they arose. -/
structure Extraction where
  contracts : List Contract
  warnings : List Warning
  deriving DecidableEq, Repr

namespace Extraction

/-- Splits a unit's declarations into those with new names and warnings on the others. `kept` holds
the contracts kept so far. -/
def keepNew (unit : SourceUnit) (kept : List Contract) : List Contract → Extraction
  | [] => ⟨[], []⟩
  | c :: cs =>
    match kept.find? (·.name == c.name) with
    | some first =>
      let r := keepNew unit kept cs
      ⟨r.contracts, ⟨unit.name, unit.path, .duplicate c.name first.sourceName c.line⟩ :: r.warnings⟩
    | none =>
      let r := keepNew unit (kept ++ [c]) cs
      ⟨c :: r.contracts, r.warnings⟩

/-- Merges the results of the units that follow those whose contracts are `kept`. -/
def mergeFrom (kept : List Contract) :
    List (SourceUnit × Except ParseError (List Contract)) → Extraction
  | [] => ⟨[], []⟩
  | (unit, .error e) :: rest =>
    let r := mergeFrom kept rest
    ⟨r.contracts, Warning.ofError unit e :: r.warnings⟩
  | (unit, .ok cs) :: rest =>
    let a := keepNew unit kept cs
    let r := mergeFrom (kept ++ a.contracts) rest
    ⟨a.contracts ++ r.contracts, a.warnings ++ r.warnings⟩

def merge (results : List (SourceUnit × Except ParseError (List Contract))) : Extraction :=
  mergeFrom [] results

/-- The model of a batch. -/
def ofUnits (units : List SourceUnit) : Extraction :=
  merge (units.map fun unit => (unit, unit.contracts))

end Extraction

/-- The contracts of all units without merging, or the first error. -/
def SourceUnit.allContracts : List SourceUnit → Except ParseError (List Contract)
  | [] => .ok []
  | unit :: rest =>
    match unit.contracts with
    | .error e => .error e
    | .ok cs =>
      match allContracts rest with
      | .error e => .error e
      | .ok ds => .ok (cs ++ ds)

/-- The main declaration of a unit: the one named after its file, else the first contract, else the
first declaration. -/
def SourceUnit.primary? (unit : SourceUnit) (cs : List Contract) : Option Contract :=
  let stem := (Path.ofString (if unit.path.isEmpty then unit.name else unit.path)).stem
  ((cs.find? (·.name == stem)).or (cs.find? (·.kind == .contract))).or cs.head?

end ContractAudit
