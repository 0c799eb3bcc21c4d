import ContractAudit.Contract.Extract
import ContractAudit.Proofs.Token.Nested

/-!
# Contracts as written

A declaration as a tree over its own tokens: members with their types, words, names, parameter lists and
bodies. The trees carry their well-formedness, so a tree that can be built is a well-formed declaration.
`tokens` gives the run that a tree stands for, and beside it stands what the tree declares.
-/

namespace ContractAudit.Syntax

/-! ## Words, marks and groups -/

abbrev Identifier := { t : Token // t.isIdent = true ∧ t.text ≠ "" }

abbrev Keyword (word : String) := { t : Token // t.isName word = true }

abbrev Mark (text : String) := { t : Token // t.isPunct text = true }

/-- A properly nested run in brackets of one kind. -/
structure Group (b : Bracket) where
  opening : Token
  inner : List Token
  closing : Token
  opens : opening.opens b = true
  closes : closing.closes b = true
  nested : Nested (fun _ => true) inner

def Group.tokens {b : Bracket} (g : Group b) : List Token := g.opening :: (g.inner ++ [g.closing])

/-- An equals sign stands somewhere in the run, in brackets or not. -/
def HasEquals (ts : List Token) : Prop := ∃ t ∈ ts, t.isOperator "=" = true

/-- A properly nested run without a semicolon outside brackets. -/
abbrev Clause := { ts : List Token // Nested (! ·.isPunct ";") ts }

/-! ## State variables -/

inductive TypeBase where
  /-- A name, possibly qualified. -/
  | name (root : Identifier) (path : List (Mark "." × Identifier)) (notMapping : root.1.text ≠ "mapping")
  | payable (root : Keyword "address") (mark : Keyword "payable")
  | mapping (keyword : Keyword "mapping") (arguments : Group .paren)

def TypeBase.first : TypeBase → Token
  | name root _ _ => root.1
  | payable root _ => root.1
  | mapping keyword _ => keyword.1

/-- The tokens after the first. -/
def TypeBase.tail : TypeBase → List Token
  | name _ path _ => path.flatMap fun q => [q.1.1, q.2.1]
  | payable _ mark => [mark.1]
  | mapping _ arguments => arguments.tokens

structure TypeExpression where
  base : TypeBase
  subscripts : List (Group .square)

namespace TypeExpression

def first (T : TypeExpression) : Token := T.base.first

def tail (T : TypeExpression) : List Token := T.base.tail ++ T.subscripts.flatMap (·.tokens)

def tokens (T : TypeExpression) : List Token := T.first :: T.tail

end TypeExpression

/-- A word between the type and the name of a state variable. -/
inductive VariableWord where
  | plain (t : Token) (h : t.isOneOf variableSpecifiers = true)
  | override (keyword : Keyword "override") (bases : Group .paren)

namespace VariableWord

def token : VariableWord → Token
  | plain t _ => t
  | override keyword _ => keyword.1

def tokens : VariableWord → List Token
  | plain t _ => [t]
  | override keyword bases => keyword.1 :: bases.tokens

end VariableWord

/-- The words that open a member other than a state variable. -/
def memberKeywords : List String :=
  ["function", "modifier", "constructor", "fallback", "receive", "struct", "enum", "type", "event",
   "error", "using"]

structure Initialiser where
  equals : Token
  value : Clause
  isEquals : equals.isOperator "=" = true

structure VariableMember where
  type : TypeExpression
  words : List VariableWord
  name : Identifier
  initialiser : Option Initialiser
  semicolon : Mark ";"
  notKeyword : type.first.isOneOf memberKeywords = false
  notWord : name.1.text ∉ "payable" :: variableSpecifiers

namespace VariableMember

/-- The words and the name. -/
def named (v : VariableMember) : List Token := v.words.flatMap (·.tokens) ++ [v.name.1]

/-- The tokens before the initialiser, less the first. -/
def tail (v : VariableMember) : List Token := v.type.tail ++ v.named

def initialiserTokens (v : VariableMember) : List Token :=
  match v.initialiser with
  | some i => i.equals :: i.value.1
  | none => []

/-- An equals sign only introduces the value: none stands in the type or in a list of bases. -/
def IsPlain (v : VariableMember) : Prop :=
  ¬ HasEquals (v.type.tokens ++ v.words.flatMap (·.tokens))

instance : DecidablePred IsPlain := fun v =>
  inferInstanceAs (Decidable
    (¬ ∃ t ∈ v.type.tokens ++ v.words.flatMap (·.tokens), t.isOperator "=" = true))

/-- What the member declares. -/
def declared (v : VariableMember) : StateVariable where
  name := v.name.1.text
  declaredType := Token.render v.type.tokens
  visibility := (v.words.findSome? fun w => Visibility.ofWord? w.token.text).getD .internal
  isConstant := v.words.any (·.token.text == "constant")
  isImmutable := v.words.any (·.token.text == "immutable")
  initialValue := (v.initialiser.map fun i => Token.render i.value.1).getD ""
  line := v.type.first.line

end VariableMember

/-! ## Functions and modifiers -/

/-- A properly nested run without a brace or a semicolon outside parentheses. -/
inductive Specifying : List Token → Prop where
  | nil : Specifying []
  | token {t : Token} {ts : List Token} (hb : t.isBracket = false) (hs : t.isPunct ";" = false)
      (h : Specifying ts) : Specifying (t :: ts)
  | parens {opening closing : Token} {inner rest : List Token} (ho : opening.opens .paren = true)
      (hc : closing.closes .paren = true) (hi : Nested (fun _ => true) inner) (h : Specifying rest) :
      Specifying (opening :: (inner ++ closing :: rest))
  | squares {opening closing : Token} {inner rest : List Token} (ho : opening.opens .square = true)
      (hc : closing.closes .square = true) (hi : Specifying inner) (h : Specifying rest) :
      Specifying (opening :: (inner ++ closing :: rest))

inductive FunctionHead where
  | function (keyword : Keyword "function") (name : Identifier) (parameters : Group .paren)
  /-- A constructor, fallback or receive function. -/
  | special (keyword : Token) (parameters : Group .paren)
      (h : keyword.isOneOf ["constructor", "fallback", "receive"] = true)
  | modifier (keyword : Keyword "modifier") (name : Identifier) (parameters : Option (Group .paren))

namespace FunctionHead

def keyword : FunctionHead → Token
  | function keyword _ _ => keyword.1
  | special keyword _ _ => keyword
  | modifier keyword _ _ => keyword.1

def name : FunctionHead → String
  | function _ name _ => name.1.text
  | special keyword _ _ => keyword.text
  | modifier _ name _ => name.1.text

def parameters? : FunctionHead → Option (Group .paren)
  | function _ _ parameters => some parameters
  | special _ parameters _ => some parameters
  | modifier _ _ parameters => parameters

/-- The name, where it is a token of its own. -/
def nameTokens : FunctionHead → List Token
  | function _ name _ => [name.1]
  | special _ _ _ => []
  | modifier _ name _ => [name.1]

def isModifier : FunctionHead → Bool
  | modifier .. => true
  | _ => false

end FunctionHead

/-- How a function ends: with a semicolon or with a body. -/
inductive Ending where
  | semicolon (mark : Mark ";")
  | body (braces : Group .brace)

namespace Ending

def tokens : Ending → List Token
  | semicolon mark => [mark.1]
  | body braces => braces.tokens

def body? : Ending → Option (List Token)
  | semicolon _ => none
  | body braces => some braces.inner

def line : Ending → Nat
  | semicolon mark => mark.1.line
  | body braces => braces.closing.line

end Ending

structure FunctionMember where
  head : FunctionHead
  specifiers : List Token
  ending : Ending
  specifying : Specifying specifiers
  /-- The parenthesis after a name opens the parameter list. -/
  listed : head.parameters? = none → ∀ t ∈ specifiers.head?, t.opens .paren = false

namespace FunctionMember

def parameterTokens (f : FunctionMember) : List Token :=
  match f.head.parameters? with
  | some g => g.tokens
  | none => []

/-- The tokens after the keyword. -/
def tail (f : FunctionMember) : List Token :=
  f.head.nameTokens ++ (f.parameterTokens ++ (f.specifiers ++ f.ending.tokens))

def raw (f : FunctionMember) : RawFunction where
  name := f.head.name
  parameters := (f.head.parameters?.map fun g => Parameter.ofTokens g.inner).getD []
  specifiers := f.specifiers
  body := f.ending.body?
  line := f.head.keyword.line
  endLine := f.ending.line

end FunctionMember

/-! ## Members -/

inductive MemberSyntax where
  | stateVariable (v : VariableMember)
  | function (f : FunctionMember)
  /-- A struct or an enum. -/
  | compound (keyword : Token) (name : Identifier) (fields : Group .brace)
      (h : keyword.isOneOf ["struct", "enum"] = true)
  | valueType (keyword : Keyword "type") (name : Identifier) (definition : Clause) (semicolon : Mark ";")
  /-- An event, an error or a using directive. -/
  | directive (keyword : Token) (content : Clause) (semicolon : Mark ";")
      (h : keyword.isOneOf ["event", "error", "using"] = true)

namespace MemberSyntax

def first : MemberSyntax → Token
  | stateVariable v => v.type.first
  | function f => f.head.keyword
  | compound keyword _ _ _ => keyword
  | valueType keyword _ _ _ => keyword.1
  | directive keyword _ _ _ => keyword

/-- The tokens after the first. -/
def tail : MemberSyntax → List Token
  | stateVariable v => v.tail ++ (v.initialiserTokens ++ [v.semicolon.1])
  | function f => f.tail
  | compound _ name fields _ => name.1 :: fields.tokens
  | valueType _ name definition semicolon => name.1 :: (definition.1 ++ [semicolon.1])
  | directive _ content semicolon _ => content.1 ++ [semicolon.1]

def tokens (m : MemberSyntax) : List Token := m.first :: m.tail

/-- An equals sign in a state variable only introduces its value. -/
def IsPlain : MemberSyntax → Prop
  | stateVariable v => v.IsPlain
  | _ => True

instance : DecidablePred IsPlain
  | .stateVariable v => inferInstanceAs (Decidable v.IsPlain)
  | .function _ | .compound .. | .valueType .. | .directive .. => isTrue trivial

def declaredVariable? : MemberSyntax → Option StateVariable
  | stateVariable v => some v.declared
  | _ => none

/-- The name of a function and its body, if it has one. -/
def function? : MemberSyntax → Option (String × Option (List Token))
  | function f => if f.head.isModifier then none else some (f.head.name, f.ending.body?)
  | _ => none

def modifierName? : MemberSyntax → Option String
  | function f => if f.head.isModifier then some f.head.name else none
  | _ => none

def typeName? : MemberSyntax → Option String
  | compound _ name _ _ => some name.1.text
  | valueType _ name _ _ => some name.1.text
  | _ => none

end MemberSyntax

/-- A declaration without bases. -/
structure ContractSyntax where
  kind : ContractKind
  keyword : Keyword kind.word
  name : Identifier
  opening : Token
  members : List MemberSyntax
  closing : Token
  opens : opening.opens .brace = true
  closes : closing.closes .brace = true

namespace ContractSyntax

def body (d : ContractSyntax) : List Token := d.members.flatMap (·.tokens)

def tokens (d : ContractSyntax) : List Token :=
  d.keyword.1 :: d.name.1 :: d.opening :: (d.body ++ [d.closing])

/-- The declaration without the state variables that are not plain. -/
def plain (d : ContractSyntax) : ContractSyntax :=
  { d with members := d.members.filter fun m => decide m.IsPlain }

end ContractSyntax

/-- The model of a contract has what the declaration is written with, in order. -/
structure ContractSyntax.Declares (d : ContractSyntax) (c : Contract) : Prop where
  kind : c.kind = d.kind
  name : c.name = d.name.1.text
  stateVariables : c.stateVariables = d.members.filterMap (·.declaredVariable?)
  functions : c.functions.map (fun f => (f.name, f.body)) = d.members.filterMap (·.function?)
  modifierNames : c.modifierNames = d.members.filterMap (·.modifierName?)
  typeNames : c.typeNames = d.members.filterMap (·.typeName?)

end ContractAudit.Syntax
