import ContractAudit.Contract.Declaration
import ContractAudit.TypeText

/-!
# Function bodies

One pass over a body finds its events: state accesses, calls of the contract's own functions and
calls that leave the contract. An event takes place at a position of the body: a read where it is
written, a write at the end of its statement, a call at the parenthesis that closes its arguments.
Events in the order of their positions, with the calls out numbered, are the effects of the body.
-/

namespace ContractAudit

/-- What a body can see: the declarations of its contract and its own locals, latest first. -/
structure Scope where
  contract : String
  stateVariables : List StateVariable
  functionNames : List String
  typeNames : List String
  locals : List (String × String)

namespace Scope

def findVariable? (s : Scope) (name : String) : Option StateVariable :=
  s.stateVariables.reverse.find? (·.name == name)

def isLocal (s : Scope) (name : String) : Bool := s.locals.any (·.1 == name)

/-- A state variable that no local hides. -/
def seesVariable (s : Scope) (name : String) : Bool :=
  s.stateVariables.any (·.name == name) && ! s.isLocal name

end Scope

/-! ## Local variables -/

/-- Words that open a statement but no declaration. -/
def statementKeywords : List String :=
  ["return", "emit", "delete", "revert", "else", "new", "throw", "assembly", "unchecked", "try",
   "catch", "do", "if", "while", "for", "require", "assert", "break", "continue", "returns"]

/-- The name and type a declaration at this token gives to a local. -/
def Focus.local? (f : Focus) : Option (String × String) :=
  if ! f.token.isIdent || statementKeywords.contains f.token.text then none
  else if (f.prev?.map fun p => ! p.isPunctIn ["\x7b", "\x7d", ";", "(", ","]).getD false then none
  else do
    let (type, rest) ← splitType? (f.token :: f.after)
    match rest.dropWhile (·.isOneOf locationWords) with
    | name :: after :: _ =>
      if name.isIdent && (after.isOperator "=" || after.isPunctIn [";", ",", ")"]) then
        return (name.text, Token.render type)
      else none
    | _ => none

/-- The locals of a body, latest first. -/
def localsOf (parameters : List Parameter) (body : List Token) : List (String × String) :=
  ((Focus.all body).filterMap (·.local?)).reverse ++
    ((parameters.filter (! ·.name.isEmpty)).map fun p => (p.name, p.typeName)).reverse

/-! ## Calls out of the contract -/

/-- Members of an address that call it directly. -/
def lowLevelKind? : String → Option CallKind
  | "call" | "send" | "transfer" | "sendValue" | "functionCall" | "functionCallWithValue" =>
    some .lowLevel
  | "delegatecall" | "functionDelegateCall" => some .delegateCall
  | "staticcall" | "functionStaticCall" => some .staticCall
  | _ => none

/-- Roots whose members are built in. -/
def builtinRoots : List String :=
  ["abi", "block", "tx", "super", "type", "msg", "bytes", "string"]

/-- Libraries whose functions make the call themselves. -/
def transferLibraries : List String :=
  ["SafeERC20", "Address", "SafeTransferLib", "TransferHelper"]

/-- How a call is made and, where it is known, of what and through which state variable. -/
structure CallClass where
  kind : CallKind
  resolvedType : Option String
  targetVariable : Option String
  deriving DecidableEq, Repr

namespace CallClass

def unknown : CallClass := ⟨.highLevel, none, none⟩

/-- A call on an address: only the direct members leave the contract. -/
def ofAddress? (member : String) : Option CallClass :=
  (lowLevelKind? member).map fun kind => ⟨kind, none, none⟩

end CallClass

def startsUpper (name : String) : Bool := (name.toList.head?.map Char.isUpper).getD false

/-- `name(…)` and nothing after it. -/
def isCast (receiver : List Token) : Bool :=
  match receiver with
  | _ :: p :: rest =>
    p.opens .paren && ((Bracket.paren.enclosed? rest).map (·.rest.isEmpty)).getD false
  | _ => false

/-- The class of a call on a variable of the declared type. -/
def classifyDeclared (s : Scope) (receiver : List Token) (member declared : String)
    (target : Option String) : Option CallClass :=
  if receiver.any (·.isPunct ".") then some .unknown
  else
    let element := if receiver.length == 1 then declared else TypeText.valueType declared
    if TypeText.isAddress element then CallClass.ofAddress? member
    else
      match TypeText.referencedName? element with
      | none => none
      | some base => if s.typeNames.contains base then none else some ⟨.highLevel, some base, target⟩

/-- The class of a call of `member` on a receiver, or nothing if it does not leave the contract. -/
def classifyCall (s : Scope) (receiver : List Token) (member : String) : Option CallClass :=
  match receiver with
  | [] => none
  | root :: _ =>
    let name := root.text
    if ! root.isIdent then some .unknown
    else if name == "msg" then
      if Token.render receiver == "msg.sender" then CallClass.ofAddress? member else none
    else if builtinRoots.contains name then none
    else if name == "this" then some ⟨.highLevel, some s.contract, none⟩
    else if isCast receiver then
      if name == "address" || name == "payable" then CallClass.ofAddress? member
      else if TypeText.isElementary name then none
      else if startsUpper name then some ⟨.highLevel, some name, none⟩
      else some .unknown
    else
      match s.locals.lookup name, s.findVariable? name with
      | some declared, _ => classifyDeclared s receiver member declared none
      | none, some v => classifyDeclared s receiver member v.declaredType (some name)
      | none, none =>
        if startsUpper name && ! transferLibraries.contains name then none else some .unknown

/-- How many of the tokens before a dot, nearest first, make up the receiver. -/
def receiverLength : List Token → Option Nat
  | [] => none
  | t :: ts =>
    match (if t.closes .paren then some Bracket.paren
           else if t.closes .square then some Bracket.square else none) with
    | some b =>
      match _h : b.enclosedBack? ts with
      | none => none
      | some e =>
        match e.rest with
        | name :: more =>
          if name.isIdent then (receiverLength e.rest).map (· + (e.inner.length + 2))
          else some (e.inner.length + 2)
        | [] => some (e.inner.length + 2)
    | none =>
      if t.isIdent then
        match ts with
        | dot :: x :: more =>
          if dot.isPunct "." then (receiverLength (x :: more)).map (· + 2) else some 1
        | _ => some 1
      else none
termination_by ts => ts.length
decreasing_by
  · have := Bracket.enclosedBack?_length _h; simp; omega
  · simp

/-! ## Events -/

inductive Event where
  | read (name : String) (line : Nat)
  | write (name : String) (line : Nat)
  | internalCall (callee : String) (line : Nat)
  | externalCall (site : CallSite)
  deriving DecidableEq, Repr

/-- An event and the position at which it takes place. -/
abbrev Positioned := Nat × Event

/-- The call options in braces at the start of a run and the tokens after them. -/
def splitCallOptions? : List Token → Option (List Token × List Token)
  | [] => none
  | t :: ts =>
    if t.opens .brace then do
      let e ← Bracket.brace.enclosed? ts
      return (t :: e.inner ++ [e.close], e.rest)
    else some ([], t :: ts)

/-- The call at a dot, if it leaves the contract. -/
def Focus.memberCall? (s : Scope) (f : Focus) : Option Positioned := do
  match f.after with
  | member :: x :: ts =>
    if ! member.isIdent then none
    else do
      let (options, rest) ← splitCallOptions? (x :: ts)
      match rest with
      | [] => none
      | p :: rest =>
        if ! p.opens .paren then none
        else do
          let arguments ← Bracket.paren.enclosed? rest
          let n ← receiverLength f.before
          let receiver := (f.before.take n).reverse
          let c ← classifyCall s receiver member.text
          let pays := c.kind == .lowLevel &&
            ["send", "transfer", "sendValue", "functionCallWithValue"].contains member.text
          let site : CallSite := {
            callee := Token.render (receiver ++ f.token :: member :: options)
            member := member.text
            kind := c.kind
            receiver := Token.render receiver
            resolvedType := c.resolvedType
            targetVariable := c.targetVariable
            sendsValue := pays || options.any (·.isName "value")
            line := member.line }
          return (f.index + options.length + arguments.inner.length + 3, .externalCall site)
  | _ => none

/-- The number of tokens of the subscripts and members that follow a variable. -/
def accessLength : List Token → Nat
  | [] => 0
  | t :: ts =>
    if t.opens .square then
      match _h : Bracket.square.enclosed? ts with
      | none => 0
      | some e => accessLength e.rest + (e.inner.length + 2)
    else if t.isPunct "." then
      match ts with
      | name :: x :: more =>
        if name.isIdent && ! x.opens .paren then accessLength (x :: more) + 2 else 0
      | _ => 0
    else 0
termination_by ts => ts.length
decreasing_by
  · have := Bracket.enclosed?_length _h; simp; omega
  · simp

/-- Where the call in parentheses at the start of a run closes, counted from the run's start. -/
def callEnd? : List Token → Option Nat
  | [] => none
  | p :: ts =>
    if p.opens .paren then (Bracket.paren.enclosed? ts).map (·.inner.length + 1) else none

/-- The events of an access to the state variable at this token. -/
def Focus.stateAccess (f : Focus) : List Positioned :=
  let k := f.index
  let name := f.token.text
  let line := f.token.line
  let length := accessLength f.after
  let rest := f.after.drop length
  let isStep (t : Token) := t.text == "++" || t.text == "--"
  if (rest.head?.map Token.isAssignment).getD false then
    (if (rest.head?.map (·.text == "=")).getD false then [] else [(k, .read name line)]) ++
      [(k + statementEnd (f.token :: f.after), .write name line)]
  else if (rest.head?.map isStep).getD false || (f.prev?.map isStep).getD false then
    [(k, .read name line), (k, .write name line)]
  else if (f.prev?.map (·.isName "delete")).getD false then [(k, .write name line)]
  else
    match rest with
    | dot :: member :: call =>
      if dot.isPunct "." && member.isOneOf ["push", "pop"] &&
          (call.head?.map (·.opens .paren)).getD false then
        match callEnd? call with
        | some n => [(k + length + 3 + n, .write name line)]
        | none => [(k, .write name line)]
      else [(k, .read name line)]
    | _ => [(k, .read name line)]

/-- The events at one token of a body. -/
def Focus.events (s : Scope) (f : Focus) : List Positioned :=
  if f.token.isPunct "." then (f.memberCall? s).toList
  else if ! f.token.isIdent || (f.prev?.map (·.isPunct ".")).getD false then []
  else if (f.next?.map (·.opens .paren)).getD false &&
      s.functionNames.contains f.token.text then
    if (f.prev?.map (·.isOneOf ["function", "new", "emit"])).getD false then []
    else
      let position := match callEnd? f.after with
        | some n => f.index + 1 + n
        | none => f.index
      [(position, .internalCall f.token.text f.token.line)]
  else if s.seesVariable f.token.text then f.stateAccess
  else []

/-- The condition tested at this token, as written. -/
def Focus.check? (f : Focus) : Option String :=
  if f.token.isOneOf ["require", "assert", "if"] then
    match f.after with
    | p :: ts =>
      if p.opens .paren then do
        let e ← Bracket.paren.enclosed? ts
        let first ← (Token.splitCommas e.inner).head?
        return Token.render first
      else none
    | [] => none
  else none

/-! ## Effects -/

def callSitesOf (events : List Positioned) : List CallSite :=
  events.filterMap fun e =>
    match e.2 with
    | .externalCall site => some site
    | _ => none

/-- Events as effects: calls out are numbered from `next` on. -/
def numberEvents (next : Nat) : List Positioned → List (Nat × Effect)
  | [] => []
  | (position, event) :: rest =>
    match event with
    | .read name line => (position, .read name line) :: numberEvents next rest
    | .write name line => (position, .write name line) :: numberEvents next rest
    | .internalCall callee line => (position, .internalCall callee line) :: numberEvents next rest
    | .externalCall site => (position, .externalCall next site.line) :: numberEvents (next + 1) rest

/-- Accesses of the same kind to the same variable. -/
def Effect.repeats : Effect → Effect → Bool
  | .read a _, .read b _ => a == b
  | .write a _, .write b _ => a == b
  | _, _ => false

/-- Drops effects that repeat the one kept before them. -/
def collapseAfter (last : Effect) : List Effect → List Effect
  | [] => []
  | e :: es => if last.repeats e then collapseAfter last es else e :: collapseAfter e es

def collapse : List Effect → List Effect
  | [] => []
  | e :: es => e :: collapseAfter e es

/-- Puts an effect in front of the first one that is not before its position. -/
def insertByPosition (e : Nat × Effect) : List (Nat × Effect) → List (Nat × Effect)
  | [] => [e]
  | d :: ds => if e.1 ≤ d.1 then e :: d :: ds else d :: insertByPosition e ds

/-- Effects in the order of their positions; effects at one position keep their order. -/
def sortByPosition (es : List (Nat × Effect)) : List (Nat × Effect) :=
  es.foldr insertByPosition []

/-- The effects of a body's events, in the order of their positions. -/
def effectsOf (events : List Positioned) : List Effect :=
  collapse ((sortByPosition (numberEvents 0 events)).map (·.2))

def eventsOf (s : Scope) (body : List Token) : List Positioned :=
  (Focus.all body).flatMap (·.events s)

def checksOf (body : List Token) : List String := (Focus.all body).filterMap (·.check?)

end ContractAudit
