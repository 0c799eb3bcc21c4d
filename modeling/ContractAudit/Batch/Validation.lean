import ContractAudit.Contract
import ContractAudit.Json.Literal
import ContractAudit.Schema

/-!
# Batches from documents

A batch is a list of records with a name, an optional path and a text. The keys of an object are
taken for its items, so an object is a batch only when it is empty.
-/

namespace ContractAudit

def SourceUnit.schema : Schema SourceUnit :=
  Schema.record fun r =>
    SourceUnit.mk <$> Schema.required "name" Schema.text r <*>
      Schema.optional "path" "" Schema.text r <*> Schema.required "text" Schema.text r

inductive BatchError where
  | absent
  | notSequence
  | notUnit (position : Nat) (kind : String)
  | malformed (position faults : Nat)
  deriving DecidableEq, Repr

namespace BatchError

def message : BatchError → String
  | absent => "no source batch supplied"
  | notSequence => "source batch must be a sequence of \x7bname, path, text\x7d entries"
  | notUnit i kind => "entry " ++ toString i ++ " is a " ++ kind ++ ", not a source unit"
  | malformed i n => "entry " ++ toString i ++ " is malformed: " ++ toString n ++ " error(s)"

end BatchError

namespace Batch

def unitAt (i : Nat) (j : Json) : Except BatchError SourceUnit :=
  match j with
  | .obj _ =>
    match SourceUnit.schema j with
    | .valid u => .ok u
    | .faulty fs => .error (.malformed i fs.length)
  | _ => .error (.notUnit i j.kindWord)

/-- Reads units from the position `i` on, up to the first fault. -/
def unitsFrom (i : Nat) : List Json → Except BatchError (List SourceUnit)
  | [] => .ok []
  | j :: js =>
    match unitAt i j with
    | .error e => .error e
    | .ok u => (unitsFrom (i + 1) js).map (u :: ·)

def ofDocument : Json → Except BatchError (List SourceUnit)
  | .null => .error .absent
  | .arr items => unitsFrom 0 items
  | .obj entries => unitsFrom 0 (entries.map fun e => .str e.1)
  | _ => .error .notSequence

end Batch

end ContractAudit
