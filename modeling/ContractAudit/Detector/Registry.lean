import ContractAudit.Detector.Bridge
import ContractAudit.Detector.OutboundCall
import ContractAudit.Detector.Signature
import ContractAudit.Table

/-!
# The registry of detectors

Detectors by their id. Registering a second detector with an id replaces the first.
-/

namespace ContractAudit

abbrev Registry := Table String Detector

namespace Registry

def register (r : Registry) (d : Detector) : Registry := r.put d.id d

/-- The detectors that are always there. -/
def standard : Registry :=
  (Bridge.detectors ++ OutboundCall.detectors ++ Signature.detectors).foldl register []

/-- The detectors in order of their ids. -/
def sorted (r : Registry) : List Detector :=
  r.values.mergeSort fun a b => decide (a.id ≤ b.id)

def ofCategory (r : Registry) (category : String) : List Detector :=
  r.sorted.filter (·.category == category)

/-- The categories there are, sorted. -/
def categories (r : Registry) : List String :=
  Text.sortedSet ((r.values.map (·.category)).filter (! ·.isEmpty))

end Registry

end ContractAudit
