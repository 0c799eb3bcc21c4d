import ContractAudit.Finding
import ContractAudit.Flow
import ContractAudit.Table
import ContractAudit.Text.Search

/-!
# Reentrancy across contracts

A flow violates the order of checks, effects and interactions for a state variable when its entry
contract writes the variable after some external call and has read it before the write. The read may
come before the call or belong to the update itself. Entry points with a guard are safe.
-/

namespace ContractAudit

/-- The first late write of a state variable with the read and the call that make it dangerous. -/
structure Violation where
  name : String
  read : FlowStep
  call : FlowStep
  callLabel : String
  write : FlowStep
  /-- Some call between the first one and the write moves value. -/
  movesValue : Bool
  deriving DecidableEq, Repr

namespace Violation

def isReadOf (name : String) (s : FlowStep) : Bool := s.depth == 0 && s.action == .read name

def stepMovesValue (s : FlowStep) : Bool :=
  match s.action with
  | .call _ moves => moves
  | _ => false

/-- Judges a step as a late write, given the steps before it. -/
def at? (before : List FlowStep) (s : FlowStep) : Option Violation :=
  match s.action with
  | .write name =>
    if s.depth != 0 || name.isEmpty then none
    else
      let early := before.takeWhile (! ·.isCall)
      match before.dropWhile (! ·.isCall) with
      | [] => none
      | call :: late =>
        let read := (early.find? (isReadOf name)).or (late.reverse.find? (isReadOf name))
        match read, call.action with
        | some read, .call label _ =>
          some ⟨name, read, call, label, s, (call :: late).any stepMovesValue⟩
        | _, _ => none
  | _ => none

/-- The violations at the steps that follow `before`. -/
def allFrom (before : List FlowStep) : List FlowStep → List Violation
  | [] => []
  | s :: rest => (at? before s).toList ++ allFrom (before ++ [s]) rest

/-- Of the violations with one name only the first. -/
def firstOfEach : List Violation → List String → List Violation
  | [], _ => []
  | v :: vs, seen =>
    if seen.contains v.name then firstOfEach vs seen
    else v :: firstOfEach vs (v.name :: seen)

/-- The violations of a trace, at most one for each state variable. -/
def ofSteps (steps : List FlowStep) : List Violation := firstOfEach (allFrom [] steps) []

end Violation

namespace Reentrancy

structure Policy where
  /-- Modifiers that lock an entry point. -/
  guards : List String
  /-- Words in the names of variables that keep accounts. -/
  keywords : List String

def isAccounting (policy : Policy) (name : String) : Bool :=
  policy.keywords.any fun k => Text.contains (Text.lower name) (Text.lower k)

def severity (policy : Policy) (v : Violation) : Severity :=
  if isAccounting policy v.name then if v.movesValue then .critical else .high else .medium

def flagPartial : String := "partial-flow"

def flagUnresolved : String := "unresolved-dependencies"

def sequence (f : Flow) (v : Violation) : String :=
  let place := f.entryContract ++ "." ++ f.entryFunction
  let line (s : FlowStep) := " (line " ++ toString s.line ++ ")"
  if v.read.line < v.call.line then
    place ++ " reads `" ++ v.name ++ "`" ++ line v.read ++ ", calls " ++ v.callLabel ++
      line v.call ++ " and only afterwards writes `" ++ v.name ++ "`" ++ line v.write ++ "."
  else
    place ++ " calls " ++ v.callLabel ++ line v.call ++ " before updating `" ++ v.name ++
      "` from its current value" ++ line v.write ++ "."

/-- The finding on one violation. Without a graph nothing is known of unresolved references and of
the file. -/
def finding (policy : Policy) (g : Option DependencyGraph) (f : Flow) (v : Violation) : Finding where
  title := "Cross-contract reentrancy in " ++ f.entryContract ++ "." ++ f.entryFunction
  severity := severity policy v
  description := sequence f v ++ " Code reached through the external call can re-enter " ++
    f.entryContract ++ " while `" ++ v.name ++ "` still holds its stale value."
  impact :=
    if isAccounting policy v.name then
      "A re-entrant caller can act on stale accounting, e.g. withdraw the same balance repeatedly " ++
        "and drain funds."
    else "A re-entrant caller can observe and act on inconsistent state."
  locations :=
    [{ contract := f.entryContract
       function := f.entryFunction
       line := some v.call.line
       filePath := ((g.bind (·.node? f.entryContract)).map (·.sourcePath)).getD "" }]
  recommendation := "Update `" ++ v.name ++ "` before calling out (checks-effects-interactions) or " ++
    "protect the entry point with a reentrancy guard such as nonReentrant."
  confidence := if f.isTruncated then .heuristic else .confirmed
  vulnerabilityClass := "cross-contract-reentrancy"
  detectorId := "XC-STATE-REENTRANCY"
  evidence :=
    ["read " ++ v.name ++ " at line " ++ toString v.read.line,
     "external call " ++ v.callLabel ++ " at line " ++ toString v.call.line,
     "write " ++ v.name ++ " at line " ++ toString v.write.line]
  flags := (if f.isTruncated then [flagPartial] else []) ++
    (if g.any fun g => ! (g.unresolvedOf f.entryContract).isEmpty then [flagUnresolved] else [])

/-- More severe or, at equal severity, confirmed against heuristic. -/
def isStronger (a b : Finding) : Bool :=
  if a.severity == b.severity then a.confidence == .confirmed && b.confidence != .confirmed
  else decide (b.severity.rank < a.severity.rank)

abbrev Key := String × String × String

/-- The findings of each flow with what they are about, in order. -/
def hits (policy : Policy) (g : Option DependencyGraph) (flows : List Flow) : List (Key × Finding) :=
  (flows.filter fun f => ! f.entryModifiers.any policy.guards.contains).flatMap fun f =>
    (Violation.ofSteps f.steps).map fun v =>
      ((f.entryContract, f.entryFunction, v.name), finding policy g f v)

/-- Keeps a finding unless there is one at least as strong on the same variable. -/
def keep (t : Table Key Finding) (hit : Key × Finding) : Table Key Finding :=
  match t.get? hit.1 with
  | some current => if isStronger hit.2 current then t.put hit.1 hit.2 else t
  | none => t.put hit.1 hit.2

/-- The findings of some flows, one for each entry point and variable: the first of the strongest. -/
def findings (policy : Policy) (g : Option DependencyGraph) (flows : List Flow) : List Finding :=
  ((hits policy g flows).foldl keep []).values

end Reentrancy

end ContractAudit
