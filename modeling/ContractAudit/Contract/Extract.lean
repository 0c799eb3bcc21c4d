import ContractAudit.Contract.Body
import ContractAudit.Contract.Member
import ContractAudit.Text.Order
import ContractAudit.Token.Lexer

/-!
# Extraction

From a source text to the models of its contracts, interfaces and libraries, in source order. No
other source is consulted. Braces outside declarations are skipped as a whole.
-/

namespace ContractAudit

/-- What the specifiers of a function say. -/
structure Specifiers where
  visibility : Visibility
  mutability : Mutability
  modifiers : List String
  deriving DecidableEq, Repr

namespace Specifiers

/-- Takes in one specifier; a later visibility or mutability replaces an earlier one. -/
def add (s : Specifiers) (t : Token) : Specifiers :=
  if ! t.isIdent then s
  else
    match Visibility.ofWord? t.text, Mutability.ofWord? t.text with
    | some v, _ => { s with visibility := v }
    | none, some m => { s with mutability := m }
    | none, none =>
      if ["virtual", "override", "returns"].contains t.text then s
      else { s with modifiers := s.modifiers ++ [t.text] }

/-- Reads specifiers; the arguments after one are skipped. -/
def read (s : Specifiers) : List Token → Specifiers
  | [] => s
  | [t] => s.add t
  | t :: p :: ts =>
    if p.opens .paren then
      match _h : Bracket.paren.enclosed? ts with
      | none => s.add t
      | some e => read (s.add t) e.rest
    else read (s.add t) (p :: ts)
termination_by ts => ts.length
decreasing_by
  · have := Bracket.enclosed?_length _h; simp; omega
  · simp

end Specifiers

/-- The visibility of a function that states none. -/
def defaultVisibility (kind : ContractKind) (name : String) : Visibility :=
  if name == "fallback" || name == "receive" || kind == .interface then .external else .pub

/-- The model of a function in a scope without locals. -/
def Function.ofRaw (kind : ContractKind) (s : Scope) (raw : RawFunction) : Function :=
  let specifiers :=
    Specifiers.read ⟨defaultVisibility kind raw.name, .unmarked, []⟩ raw.specifiers
  let events := match raw.body with
    | some body => eventsOf { s with locals := localsOf raw.parameters body } body
    | none => []
  { name := raw.name
    visibility := specifiers.visibility
    mutability := if raw.name == "receive" then .payable else specifiers.mutability
    modifiers := Text.sortedSet specifiers.modifiers
    parameters := raw.parameters
    callSites := callSitesOf events
    effects := effectsOf events
    checks := checksOf (raw.body.getD [])
    body := raw.body
    line := raw.line
    endLine := raw.endLine }

/-- The names after `is` in the header of a contract. -/
def basesOf : List Token → List String
  | [] => []
  | t :: ts =>
    if t.isName "is" then
      (Token.splitCommas ts).map fun part => Token.render (part.takeWhile (! ·.opens .paren))
    else []

namespace Contract

def ofMembers (unit : SourceUnit) (kind : ContractKind) (name : Token) (header : List Token)
    (members : List Member) : Contract :=
  let scope : Scope := {
    contract := name.text
    stateVariables := Member.stateVariables members
    functionNames := (Member.functions members).map (·.name)
    typeNames := Member.typeNames members
    locals := [] }
  { name := name.text
    kind := kind
    sourceName := unit.name
    sourcePath := unit.path
    bases := basesOf header
    stateVariables := Member.stateVariables members
    functions := (Member.functions members).map (Function.ofRaw kind scope)
    modifierNames := (Member.modifiers members).map (·.name)
    typeNames := Member.typeNames members
    line := name.line }

/-- A token of the header of a declaration. -/
def inHeader (t : Token) : Bool := ! (t.opens .brace || t.isPunct ";")

/-- Reads a declaration after its keyword and name; the result holds the tokens after it. -/
def ofTokens (unit : SourceUnit) (kind : ContractKind) (name : Token) (ts : List Token) :
    Except ParseError (Contract × List Token) :=
  match ts.dropWhile inHeader with
  | [] => .error (.noBody kind name.text name.line)
  | t :: after =>
    if t.opens .brace then
      match Bracket.brace.enclosed? after with
      | none => .error (.unbalancedContract kind name.text name.line)
      | some e =>
        match Member.ofTokens e.inner with
        | .error err => .error err
        | .ok members => .ok (ofMembers unit kind name (ts.takeWhile inHeader) members, e.rest)
    else .error (.noBody kind name.text name.line)

theorem length_ofTokens {unit : SourceUnit} {kind : ContractKind} {name : Token}
    {ts rest : List Token} {c : Contract} (h : ofTokens unit kind name ts = .ok (c, rest)) :
    rest.length < ts.length := by
  unfold ofTokens at h
  split at h
  · cases h
  · rename_i t after hs
    have h1 := (List.dropWhile_sublist (l := ts) inHeader).length_le
    rw [hs, List.length_cons] at h1
    split at h
    · split at h
      · cases h
      · rename_i e he
        split at h
        · cases h
        · simp only [Except.ok.injEq, Prod.mk.injEq] at h
          have := Bracket.enclosed?_length he
          rw [← h.2]; omega
    · cases h

/-- The kind and name of a declaration that starts at `t`, with the tokens after them: a keyword
that is no member access, followed by a name. -/
def headAt? (prev : Option Token) (t : Token) (ts : List Token) :
    Option (ContractKind × Token × List Token) :=
  match ts with
  | [] => none
  | name :: rest =>
    if t.isIdent && name.isIdent && ! (prev.map (·.isPunct ".")).getD false then
      (ContractKind.ofWord? t.text).map fun kind => (kind, name, rest)
    else none

theorem length_headAt? {prev : Option Token} {t name : Token} {ts rest : List Token}
    {kind : ContractKind} (h : headAt? prev t ts = some (kind, name, rest)) :
    rest.length < ts.length := by
  unfold headAt? at h
  split at h
  · cases h
  · split at h
    · obtain ⟨k, _, heq⟩ := Option.map_eq_some_iff.mp h
      simp only [Prod.mk.injEq] at heq
      simp [heq.2.2]
    · cases h

/-- The declarations of a run of tokens that follows `prev`. -/
def allFrom (unit : SourceUnit) (prev : Option Token) :
    List Token → Except ParseError (List Contract)
  | [] => .ok []
  | t :: ts =>
    match _hh : headAt? prev t ts with
    | some (kind, name, rest) =>
      match _h : ofTokens unit kind name rest with
      | .error e => .error e
      | .ok (c, rest') =>
        match allFrom unit none rest' with
        | .error e => .error e
        | .ok cs => .ok (c :: cs)
    | none =>
      if t.opens .brace then
        match _h : Bracket.brace.enclosed? ts with
        | none => .error (.unbalancedBraces t.line)
        | some e => allFrom unit none e.rest
      else allFrom unit (some t) ts
termination_by ts => ts.length
decreasing_by
  · have := length_ofTokens _h; have := length_headAt? _hh; simp; omega
  · have := Bracket.enclosed?_length _h; simp; omega
  · simp

end Contract

/-- The models of every contract, interface and library of a source, at least one. -/
def SourceUnit.contracts (unit : SourceUnit) : Except ParseError (List Contract) :=
  if (Text.trim unit.text.toList).isEmpty then .error .emptySource
  else
    match Contract.allFrom unit none (tokenize unit.text) with
    | .error e => .error e
    | .ok [] => .error .noDeclaration
    | .ok cs => .ok cs

end ContractAudit
