import ContractAudit.Token
import ContractAudit.Token.Render

/-!
# The model of a contract

What is known about one declaration of a source: its state variables, its functions and, for each
function body, the calls out of the contract and the ordered effects. An effect is one observable
step of a body; an external call refers to its call site by position.
-/

namespace ContractAudit

inductive Visibility where
  | pub
  | external
  | internal
  | priv
  deriving DecidableEq, Repr

namespace Visibility

def word : Visibility → String
  | pub => "public"
  | external => "external"
  | internal => "internal"
  | priv => "private"

def all : List Visibility := [pub, external, internal, priv]

def ofWord? (w : String) : Option Visibility := all.find? (·.word == w)

end Visibility

inductive Mutability where
  | unmarked
  | view
  | pure
  | payable
  deriving DecidableEq, Repr

namespace Mutability

def word : Mutability → String
  | unmarked => ""
  | view => "view"
  | pure => "pure"
  | payable => "payable"

/-- The mutability a specifier states; `constant` is an old word for `view`. -/
def ofWord? : String → Option Mutability
  | "view" => some view
  | "pure" => some pure
  | "payable" => some payable
  | "constant" => some view
  | _ => none

end Mutability

structure StateVariable where
  name : String
  declaredType : String
  visibility : Visibility
  isConstant : Bool
  isImmutable : Bool
  initialValue : String
  line : Nat
  deriving DecidableEq, Repr

def StateVariable.isMapping (v : StateVariable) : Bool :=
  "mapping".toList.isPrefixOf v.declaredType.toList

structure Parameter where
  name : String
  typeName : String
  deriving DecidableEq, Repr

inductive CallKind where
  | highLevel
  | lowLevel
  | delegateCall
  | staticCall
  deriving DecidableEq, Repr

/-- A call that leaves the contract. -/
structure CallSite where
  callee : String
  member : String
  kind : CallKind
  receiver : String
  /-- The contract type the receiver is known to have. -/
  resolvedType : Option String
  /-- The state variable the receiver is read from. -/
  targetVariable : Option String
  sendsValue : Bool
  line : Nat
  deriving DecidableEq, Repr

/-- Members that move tokens or ether by their name alone. -/
def CallSite.valueMovers : List String :=
  ["transfer", "transferFrom", "safeTransfer", "safeTransferFrom", "safeTransferETH", "send",
   "sendValue", "functionCallWithValue"]

def CallSite.movesValue (s : CallSite) : Bool := s.sendsValue || valueMovers.contains s.member

inductive Effect where
  | read (name : String) (line : Nat)
  | write (name : String) (line : Nat)
  | internalCall (callee : String) (line : Nat)
  | externalCall (site : Nat) (line : Nat)
  deriving DecidableEq, Repr

def Effect.line : Effect → Nat
  | read _ l | write _ l | internalCall _ l | externalCall _ l => l

structure Function where
  name : String
  visibility : Visibility
  mutability : Mutability
  /-- Applied modifiers, sorted and without repetition. -/
  modifiers : List String
  parameters : List Parameter
  callSites : List CallSite
  effects : List Effect
  /-- The conditions of `require`, `assert` and `if`, in source order. -/
  checks : List String
  body : Option (List Token)
  line : Nat
  endLine : Nat
  deriving DecidableEq, Repr

namespace Function

def hasBody (f : Function) : Bool := f.body.isSome

def bodyTokens (f : Function) : List Token := f.body.getD []

/-- Implemented and callable from outside. -/
def isEntryPoint (f : Function) : Bool :=
  f.hasBody && (f.visibility == .pub || f.visibility == .external) && f.name != "constructor"

def isMutating (f : Function) : Bool := f.mutability != .view && f.mutability != .pure

/-- The identifiers of the body, in order of appearance. -/
def identifiers (f : Function) : List String := Token.identifiers f.bodyTokens

end Function

inductive ContractKind where
  | contract
  | interface
  | library
  deriving DecidableEq, Repr

namespace ContractKind

def word : ContractKind → String
  | contract => "contract"
  | interface => "interface"
  | library => "library"

def all : List ContractKind := [contract, interface, library]

def ofWord? (w : String) : Option ContractKind := all.find? (·.word == w)

end ContractKind

structure Contract where
  name : String
  kind : ContractKind
  sourceName : String
  sourcePath : String
  bases : List String
  stateVariables : List StateVariable
  functions : List Function
  modifierNames : List String
  /-- Structs, enums and value types declared inside. -/
  typeNames : List String
  line : Nat
  deriving DecidableEq, Repr

namespace Contract

/-- The last state variable of a name. -/
def findVariable? (c : Contract) (name : String) : Option StateVariable :=
  c.stateVariables.reverse.find? (·.name == name)

/-- The implemented overload of a name if there is one, else the first. -/
def function? (c : Contract) (name : String) : Option Function :=
  (c.functions.find? fun f => f.name == name && f.hasBody).or
    (c.functions.find? (·.name == name))

def implemented (c : Contract) : List Function := c.functions.filter (·.hasBody)

end Contract

/-- One named source text. -/
structure SourceUnit where
  name : String
  path : String
  text : String
  deriving DecidableEq, Repr, Inhabited

end ContractAudit
