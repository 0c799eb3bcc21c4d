import ContractAudit.Decimal.Layout
import ContractAudit.Finding
import ContractAudit.Table

/-!
# The risk score

The weights of the findings are added up and damped: the score approaches one hundred as the sum
grows.
-/

namespace ContractAudit

inductive ScoreError where
  | zeroDamping
  | outOfRange
  deriving DecidableEq, Repr

namespace ScoreError

def message : ScoreError → String
  | zeroDamping => "float division by zero"
  | outOfRange => "math range error"

end ScoreError

def weightSum (weights : Table String Float) (fs : List Finding) : Float :=
  fs.foldl (fun sum f => sum + (weights.get? f.severity.word).getD 0.0) 0.0

/-- One hundred times one less the damped exponential of the sum of weights, to one decimal place. -/
def riskScore (weights : Table String Float) (damping : Float) (fs : List Finding) :
    Except ScoreError Float :=
  if damping == 0.0 then .error .zeroDamping
  else
    let x := -(weightSum weights fs) / damping
    let e := Float.exp x
    if e.isInf && ! x.isInf then .error .outOfRange
    else .ok (roundPlaces 1 (100.0 * (1.0 - e)))

end ContractAudit
