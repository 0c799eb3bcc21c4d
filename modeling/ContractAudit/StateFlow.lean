import ContractAudit.Invariant
import ContractAudit.Reentrancy

/-!
# State flow

The flows of a batch, the reentrancy and invariant findings, and a diagnostic for each truncated flow.
-/

namespace ContractAudit

structure StateFlow where
  flows : List Flow
  invariants : List JudgedInvariant
  findings : List Finding
  deriving Repr

namespace StateFlow

def ofContracts (g : DependencyGraph) (maxDepth : Int) (policy : Reentrancy.Policy)
    (cs : List Contract) : StateFlow :=
  let flows := Flow.all g maxDepth cs
  let invariants := Invariant.check Invariant.catalogue cs
  { flows := flows
    invariants := invariants
    findings := Reentrancy.findings policy (some g) flows ++
      Invariant.findings Invariant.catalogue (some g) invariants }

def truncation (f : Flow) : Diagnostic where
  code := .recursionLimitExceeded
  message := "flow " ++ f.entryContract ++ "." ++ f.entryFunction ++ " -> " ++ f.targetCall ++
    " was truncated"
  source := f.entryContract

def diagnostics (s : StateFlow) : List Diagnostic := (s.flows.filter (·.isTruncated)).map truncation

end StateFlow

end ContractAudit
