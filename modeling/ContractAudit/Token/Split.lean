import ContractAudit.Token.Bracket

/-!
# Splitting at separators

A run is cut at the separators that stand outside all brackets. Brackets of all kinds count
together, and a run with more closing than opening brackets is outside no more.
-/

namespace ContractAudit.Token

/-- How a token changes the number of open brackets. -/
def nesting (t : Token) : Int :=
  if t.opener?.isSome then 1 else if t.closer?.isSome then -1 else 0

def isBracket (t : Token) : Bool := t.opener?.isSome || t.closer?.isSome

def consFirst (t : Token) : List (List Token) → List (List Token)
  | [] => [[t]]
  | part :: parts => (t :: part) :: parts

/-- The parts of a run that starts inside `depth` brackets, empty ones included. -/
def partsFrom (separator : String) (depth : Int) : List Token → List (List Token)
  | [] => [[]]
  | t :: ts =>
    if t.isPunct separator && ! t.isBracket && depth == 0 then [] :: partsFrom separator depth ts
    else consFirst t (partsFrom separator (depth + t.nesting) ts)

/-- The parts of a run between separators outside brackets; empty parts are dropped. -/
def split (separator : String) (ts : List Token) : List (List Token) :=
  (partsFrom separator 0 ts).filter (! ·.isEmpty)

/-- The parts of an argument or parameter list. -/
def splitCommas (ts : List Token) : List (List Token) := split "," ts

end ContractAudit.Token
