/-!
# Names in text

A name begins with a character of one class and goes on with characters of a second, larger one.
-/

namespace ContractAudit.Text

def isNameStart (c : Char) : Bool := c.isAlpha || c == '_' || c == '$'

def isAsciiNamePart (c : Char) : Bool := isNameStart c || c.isDigit

/-- The names in a text, in order, when `current` holds the characters of a name that was begun. -/
def namesFrom (isPart : Char → Bool) (current : List Char) : List Char → List String
  | [] => if current.isEmpty then [] else [String.ofList current]
  | c :: cs =>
    if current.isEmpty then namesFrom isPart (if isNameStart c then [c] else []) cs
    else if isPart c then namesFrom isPart (current ++ [c]) cs
    else String.ofList current :: namesFrom isPart (if isNameStart c then [c] else []) cs

/-- The names in a text, in order. -/
def names (isPart : Char → Bool) (text : String) : List String := namesFrom isPart [] text.toList

end ContractAudit.Text
