import ContractAudit.Finding
import ContractAudit.Text.Search

/-!
# Filtering, merging and ranking findings
-/

namespace ContractAudit.Report

/-! ## Filter -/

/-- The title or description has one of the phrases, in any case. -/
def mentions (phrases : List String) (f : Finding) : Bool :=
  let text := Text.lower (f.title ++ " " ++ f.description)
  phrases.any fun p => Text.contains text (Text.lower p)

/-- A finding that shows the damage is kept whatever it mentions. -/
def isWorthy (phrases : List String) (f : Finding) : Bool :=
  f.hasExploitContext || ! mentions phrases f

def filterGarbage (phrases : List String) (fs : List Finding) : List Finding :=
  fs.filter (isWorthy phrases)

/-! ## Merge -/

/-- The first of the most severe findings. -/
def lead (f : Finding) : List Finding → Finding
  | [] => f
  | g :: gs => if f.severity.rank < g.severity.rank then lead g gs else lead f gs

/-- Findings on the same problem made into one, on the lead of the group: every place, piece of
evidence and flag once, confirmed if one of them is, and the first given account of the damage. A
finding that is alone stays as it is. -/
def merge (f : Finding) (gs : List Finding) : Finding :=
  let group := f :: gs
  if gs.isEmpty then f
  else
    { lead f gs with
      locations := (group.flatMap (·.locations)).eraseDups
      evidence := (group.flatMap (·.evidence)).eraseDups
      flags := (group.flatMap (·.flags)).eraseDups
      confidence := if group.any (·.confidence == .confirmed) then .confirmed else .heuristic
      economicImpact := (group.map (·.economicImpact)).findSome? fun e => if isGiven e then e else none
      pocCode := (group.map (·.pocCode)).findSome? fun e => if isGiven e then e else none }

/-- One finding for each key, in the order in which the keys come. -/
def deduplicate (fs : List Finding) : List Finding :=
  (fs.map (·.key)).eraseDups.filterMap fun k =>
    match fs.filter (·.key == k) with
    | [] => none
    | f :: gs => some (merge f gs)

/-! ## Rank -/

/-- What a finding is ranked by, the most important first; smaller comes first. -/
structure RankKey where
  severity : Nat
  exploit : Nat
  confidence : Nat
  contract : String
  function : String
  line : Int
  vulnerabilityClass : String
  title : String
  deriving DecidableEq, Repr

def rankKey (f : Finding) : RankKey where
  severity := 4 - f.severity.rank
  exploit := if f.hasExploitContext then 0 else 1
  confidence := if f.confidence == .confirmed then 0 else 1
  contract := (f.primaryLocation?.map (·.contract)).getD ""
  function := (f.primaryLocation?.map (·.function)).getD ""
  line := (f.primaryLocation?.bind (·.line)).getD 0
  vulnerabilityClass := f.vulnerabilityClass
  title := f.title

def RankKey.compare (a b : RankKey) : Ordering :=
  (Ord.compare a.severity b.severity).then <| (Ord.compare a.exploit b.exploit).then <|
    (Ord.compare a.confidence b.confidence).then <| (Ord.compare a.contract b.contract).then <|
    (Ord.compare a.function b.function).then <| (Ord.compare a.line b.line).then <|
    (Ord.compare a.vulnerabilityClass b.vulnerabilityClass).then <| Ord.compare a.title b.title

def rank (fs : List Finding) : List Finding :=
  fs.mergeSort fun a b => ((rankKey a).compare (rankKey b)).isLE

end ContractAudit.Report
