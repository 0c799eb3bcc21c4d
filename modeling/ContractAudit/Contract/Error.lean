import ContractAudit.Contract

/-!
# Sources that cannot be modelled
-/

namespace ContractAudit

/-- Why a source text has no model. -/
inductive ParseError where
  | emptySource
  | noDeclaration
  | unbalancedBraces (line : Nat)
  | noBody (kind : ContractKind) (name : String) (line : Nat)
  | unbalancedContract (kind : ContractKind) (name : String) (line : Nat)
  | unbalancedType (keyword name : String) (line : Nat)
  | unbalancedParameters (function : String) (line : Nat)
  | unbalancedSpecifiers (function : String) (line : Nat)
  | unterminated (function : String) (line : Nat)
  | unbalancedBody (function : String) (line : Nat)
  deriving DecidableEq, Repr

namespace ParseError

def message : ParseError → String
  | emptySource => "source text is empty"
  | noDeclaration => "no contract, interface or library declaration found"
  | unbalancedBraces _ => "unbalanced braces"
  | noBody kind name _ => kind.word ++ " " ++ name ++ " has no body"
  | unbalancedContract kind name _ => "unbalanced braces in " ++ kind.word ++ " " ++ name
  | unbalancedType keyword name _ => "unbalanced " ++ keyword ++ " " ++ name
  | unbalancedParameters function _ => "unbalanced parameter list in " ++ function
  | unbalancedSpecifiers function _ => "unbalanced specifiers in " ++ function
  | unterminated function _ => "function " ++ function ++ " is not terminated"
  | unbalancedBody function _ => "unbalanced body in " ++ function

def line? : ParseError → Option Nat
  | emptySource | noDeclaration => none
  | unbalancedBraces l | noBody _ _ l | unbalancedContract _ _ l | unbalancedType _ _ l
  | unbalancedParameters _ l | unbalancedSpecifiers _ l | unterminated _ l
  | unbalancedBody _ l => some l

end ParseError

end ContractAudit
