/-!
# Sorted texts

Texts are ordered by code point.
-/

namespace ContractAudit.Text

def sort (ss : List String) : List String := ss.mergeSort (fun a b => decide (a ≤ b))

/-- Sorted and without repetition. -/
def sortedSet (ss : List String) : List String := sort ss.eraseDups

end ContractAudit.Text
