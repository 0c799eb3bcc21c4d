/-!
# Data documents

A document is a tree of scalars, arrays and objects. Objects keep their fields in order. Whole
numbers and floating-point numbers are told apart, since they are written differently.
-/

namespace ContractAudit

inductive Json where
  | null
  | bool (b : Bool)
  | int (n : Int)
  | float (x : Float)
  | str (s : String)
  | arr (items : List Json)
  | obj (fields : List (String × Json))
  deriving Inhabited, Repr

namespace Json

def ofStrings (ss : List String) : Json := arr (ss.map str)

def ofNat (n : Nat) : Json := int n

def ofOption (f : α → Json) : Option α → Json
  | some a => f a
  | none => null

/-- The value of the field `key` of an object. -/
def field? (key : String) : Json → Option Json
  | obj fields => (fields.find? (·.1 == key)).map (·.2)
  | _ => none

end Json

end ContractAudit
