import ContractAudit.Token

/-!
# Printing tokens

Tokens are printed on one line with one space between them, except where source is usually written
tight: before a closing bracket, a dot, a comma or a semicolon; after an opening bracket or a dot;
between a name and its bracket; after a negation; before an increment or decrement.
-/

namespace ContractAudit.Token

/-- A space stands between `prev` and the token `t` that follows it. -/
def spaced (prev t : Token) : Bool :=
  ! (t.isPunctIn [")", ".", "]", ",", ";"] ||
    prev.isPunctIn ["(", "[", "."] ||
    (t.isPunctIn ["(", "["] && prev.isIdent) ||
    prev.isOperatorIn ["!", "~"] ||
    t.isOperatorIn ["++", "--"])

/-- The text that follows `prev`. -/
def renderAfter (prev : Token) : List Token → String
  | [] => ""
  | t :: ts => (if spaced prev t then " " ++ t.text else t.text) ++ renderAfter t ts

def render : List Token → String
  | [] => ""
  | t :: ts => t.text ++ renderAfter t ts

end ContractAudit.Token
