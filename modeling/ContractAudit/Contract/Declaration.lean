import ContractAudit.Contract
import ContractAudit.Token.Split

/-!
# Declarations

Reading typed names, state variables and parameters from runs of tokens. A typed name is a type
expression followed by words, the last of which that is no specifier is the name. Type expressions
are names, possibly qualified, `address payable` and mappings, with any number of subscripts.
-/

namespace ContractAudit

/-! ## Type expressions -/

/-- Splits off the subscripts at the start of a run; an unclosed one makes the run no type. -/
def splitSubscripts : List Token → Option (List Token × List Token)
  | [] => some ([], [])
  | t :: ts =>
    if t.opens .square then
      match _h : Bracket.square.enclosed? ts with
      | none => none
      | some e => (splitSubscripts e.rest).map fun (taken, rest) =>
        (t :: e.inner ++ e.close :: taken, rest)
    else some ([], t :: ts)
termination_by ts => ts.length
decreasing_by have := Bracket.enclosed?_length _h; simp; omega

/-- Splits off the `.name` parts at the start of a run. -/
def splitQualifiers : List Token → List Token × List Token
  | dot :: name :: ts =>
    if dot.isPunct "." && name.isIdent then
      let (taken, rest) := splitQualifiers ts
      (dot :: name :: taken, rest)
    else ([], dot :: name :: ts)
  | ts => ([], ts)

/-- Splits off the word `payable`, if the run starts with it. -/
def splitPayable : List Token → List Token × List Token
  | t :: ts => if t.isName "payable" then ([t], ts) else ([], t :: ts)
  | [] => ([], [])

/-- Splits off the type expression at the start of a run. -/
def splitType? : List Token → Option (List Token × List Token)
  | [] => none
  | t :: ts =>
    if ! t.isIdent then none
    else if t.text == "mapping" then
      match ts with
      | [] => none
      | p :: ts =>
        if p.opens .paren then do
          let e ← Bracket.paren.enclosed? ts
          let (subscripts, rest) ← splitSubscripts e.rest
          return (t :: p :: e.inner ++ e.close :: subscripts, rest)
        else none
    else do
      let (qualifiers, ts) := splitQualifiers ts
      let (payable, ts) := if t.text == "address" then splitPayable ts else ([], ts)
      let (subscripts, rest) ← splitSubscripts ts
      return (t :: qualifiers ++ payable ++ subscripts, rest)

/-! ## Typed names -/

structure TypedName where
  type : String
  /-- Empty when every word is a specifier. -/
  name : String
  words : List String
  deriving DecidableEq, Repr

/-- The identifiers of a run outside parentheses. -/
def topWords (depth : Int) : List Token → List String
  | [] => []
  | t :: ts =>
    if t.opens .paren then topWords (depth + 1) ts
    else if t.closes .paren then topWords (depth - 1) ts
    else if depth == 0 && t.isIdent then t.text :: topWords depth ts
    else topWords depth ts

/-- Reads a type and a name; `specifiers` are the words that are no names. -/
def TypedName.ofTokens? (specifiers : List String) (ts : List Token) : Option TypedName := do
  let (type, rest) ← splitType? ts
  let words := topWords 0 rest
  let names := words.filter (! specifiers.contains ·)
  return ⟨Token.render type, names.getLast?.getD "", words⟩

/-- Words that may follow a parameter's or a local variable's type. -/
def locationWords : List String := ["memory", "storage", "calldata", "indexed", "payable"]

def variableSpecifiers : List String :=
  ["public", "external", "internal", "private", "constant", "immutable", "override", "transient"]

/-- The parameters of a list without its parentheses; parts that start with no type are skipped. -/
def Parameter.ofTokens (ts : List Token) : List Parameter :=
  (Token.splitCommas ts).filterMap fun part =>
    (TypedName.ofTokens? locationWords part).map fun p => ⟨p.name, p.type⟩

/-- The state variable a statement without its semicolon declares. -/
def StateVariable.ofTokens? (statement : List Token) : Option StateVariable := do
  let first ← statement.head?
  let typed ← TypedName.ofTokens? variableSpecifiers (statement.takeWhile (! ·.isOperator "="))
  if typed.name.isEmpty then none
  else return {
    name := typed.name
    declaredType := typed.type
    visibility := (typed.words.findSome? Visibility.ofWord?).getD .internal
    isConstant := typed.words.contains "constant"
    isImmutable := typed.words.contains "immutable"
    initialValue := Token.render ((statement.dropWhile (! ·.isOperator "=")).drop 1)
    line := first.line }

/-! ## Statements -/

/-- Where the statement at the start of a run ends: at its semicolon or at a closing bracket that it
does not open. -/
def statementEnd? (depth : Nat) : List Token → Option Nat
  | [] => none
  | t :: ts =>
    if t.opener?.isSome then (statementEnd? (depth + 1) ts).map (· + 1)
    else if t.closer?.isSome then
      match depth with
      | 0 => some 0
      | d + 1 => (statementEnd? d ts).map (· + 1)
    else if t.isPunct ";" && depth == 0 then some 0
    else (statementEnd? depth ts).map (· + 1)

/-- The end of the statement at the start of a run; a statement that does not end is taken to end at
the last token. -/
def statementEnd (ts : List Token) : Nat := (statementEnd? 0 ts).getD (ts.length - 1)

end ContractAudit
