import ContractAudit.Contract.Declaration
import ContractAudit.Contract.Error

/-!
# Members of a contract

The tokens between the braces of a contract are read member by member. A function keeps its
specifiers and its body as tokens; events, errors and `using` directives leave nothing. Each step
takes at least one token, and so reading ends.
-/

namespace ContractAudit

/-- A function or modifier whose specifiers and body are still tokens. -/
structure RawFunction where
  name : String
  parameters : List Parameter
  specifiers : List Token
  body : Option (List Token)
  line : Nat
  endLine : Nat
  deriving DecidableEq, Repr

inductive Member where
  | stateVariable (v : StateVariable)
  | function (f : RawFunction)
  | modifier (f : RawFunction)
  | typeName (name : String)
  deriving DecidableEq, Repr

namespace RawFunction

/-- Splits a run at the brace or semicolon that ends its specifiers. The end is missing when the run
has none; the result is `none` when a parenthesis is not closed. -/
def splitSpecifiers : List Token → Option (List Token × Option (Token × List Token))
  | [] => some ([], none)
  | t :: ts =>
    if t.isPunct "\x7b" || t.isPunct ";" then some ([], some (t, ts))
    else if t.opens .paren then
      match _h : Bracket.paren.enclosed? ts with
      | none => none
      | some e => (splitSpecifiers e.rest).map fun (taken, tail) =>
        (t :: e.inner ++ e.close :: taken, tail)
    else (splitSpecifiers ts).map fun (taken, tail) => (t :: taken, tail)
termination_by ts => ts.length
decreasing_by
  · have := Bracket.enclosed?_length _h; simp; omega
  · simp

theorem length_splitSpecifiers {ts taken rest : List Token} {t : Token}
    (h : splitSpecifiers ts = some (taken, some (t, rest))) : rest.length < ts.length := by
  fun_induction splitSpecifiers ts generalizing taken with
  | case1 => simp at h
  | case2 t' ts' _ =>
    simp only [Option.some.injEq, Prod.mk.injEq] at h
    obtain ⟨_, rfl, rfl⟩ := h
    simp
  | case3 => simp at h
  | case4 t' ts' _ _ e he ih =>
    obtain ⟨⟨taken', tail⟩, h', heq⟩ := Option.map_eq_some_iff.mp h
    simp only [Prod.mk.injEq] at heq
    obtain ⟨_, rfl⟩ := heq
    have h1 := ih h'
    have h2 := Bracket.enclosed?_length he
    simp; omega
  | case5 t' ts' _ _ ih =>
    obtain ⟨⟨taken', tail⟩, h', heq⟩ := Option.map_eq_some_iff.mp h
    simp only [Prod.mk.injEq] at heq
    obtain ⟨_, rfl⟩ := heq
    have := ih h'
    simp; omega

/-- The name a function has and the tokens after it. -/
def splitName (keyword : Token) (ts : List Token) : String × List Token :=
  match keyword.isOneOf ["function", "modifier"], ts with
  | true, t :: rest =>
    if t.isIdent then (t.text, rest)
    else (if keyword.text == "function" then "fallback" else keyword.text, ts)
  | _, _ => (if keyword.text == "function" then "fallback" else keyword.text, ts)

theorem length_splitName (keyword : Token) (ts : List Token) :
    (splitName keyword ts).2.length ≤ ts.length := by
  unfold splitName
  split
  · split <;> simp
  · simp

/-- The parameters of a function and the tokens after their list. -/
def splitParameters (name : String) (line : Nat) (ts : List Token) :
    Except ParseError (List Parameter × List Token) :=
  match ts with
  | [] => .ok ([], [])
  | t :: rest =>
    if t.opens .paren then
      match Bracket.paren.enclosed? rest with
      | none => .error (.unbalancedParameters name line)
      | some e => .ok (Parameter.ofTokens e.inner, e.rest)
    else .ok ([], ts)

theorem length_splitParameters {name : String} {line : Nat} {ts rest : List Token}
    {ps : List Parameter} (h : splitParameters name line ts = .ok (ps, rest)) :
    rest.length ≤ ts.length := by
  unfold splitParameters at h
  split at h
  · simp only [Except.ok.injEq, Prod.mk.injEq] at h; simp [← h.2]
  · split at h
    · split at h
      · cases h
      · rename_i e he
        simp only [Except.ok.injEq, Prod.mk.injEq] at h
        have := Bracket.enclosed?_length he
        simp [← h.2]; omega
    · simp only [Except.ok.injEq, Prod.mk.injEq] at h; simp [← h.2]

/-- Reads what follows the parameters of a function: specifiers and, after a brace, a body. -/
def ofSpecifiers (name : String) (line : Nat) (parameters : List Parameter) (ts : List Token) :
    Except ParseError (RawFunction × List Token) :=
  match splitSpecifiers ts with
  | none => .error (.unbalancedSpecifiers name line)
  | some (_, none) => .error (.unterminated name line)
  | some (specifiers, some (t, rest)) =>
    if t.isPunct "\x7b" then
      match Bracket.brace.enclosed? rest with
      | none => .error (.unbalancedBody name line)
      | some e => .ok (⟨name, parameters, specifiers, some e.inner, line, e.close.line⟩, e.rest)
    else .ok (⟨name, parameters, specifiers, none, line, t.line⟩, rest)

theorem length_ofSpecifiers {name : String} {line : Nat} {ps : List Parameter}
    {ts rest : List Token} {f : RawFunction} (h : ofSpecifiers name line ps ts = .ok (f, rest)) :
    rest.length < ts.length := by
  unfold ofSpecifiers at h
  split at h
  · cases h
  · cases h
  · rename_i hs
    have h1 := length_splitSpecifiers hs
    split at h
    · split at h
      · cases h
      · rename_i e he
        simp only [Except.ok.injEq, Prod.mk.injEq] at h
        have := Bracket.enclosed?_length he
        rw [← h.2]; omega
    · simp only [Except.ok.injEq, Prod.mk.injEq] at h
      rw [← h.2]; exact h1

/-- Reads a function or modifier after its keyword. -/
def ofTokens (keyword : Token) (ts : List Token) : Except ParseError (RawFunction × List Token) :=
  match splitParameters (splitName keyword ts).1 keyword.line (splitName keyword ts).2 with
  | .error e => .error e
  | .ok (parameters, rest) =>
    ofSpecifiers (splitName keyword ts).1 keyword.line parameters rest

theorem length_ofTokens {keyword : Token} {ts rest : List Token} {f : RawFunction}
    (h : ofTokens keyword ts = .ok (f, rest)) : rest.length < ts.length := by
  unfold ofTokens at h
  have h1 := length_splitName keyword ts
  split at h
  · cases h
  · rename_i hp
    have h2 := length_splitParameters hp
    have h3 := length_ofSpecifiers h
    omega

end RawFunction

namespace Member

/-- Whether `t`, followed by `ts`, starts a function or modifier. -/
def startsFunction (t : Token) (ts : List Token) : Bool :=
  t.isOneOf ["function", "modifier"] ||
  (t.isOneOf ["constructor", "fallback", "receive"] &&
    (ts.head?.map (·.opens .paren)).getD false)

/-- The name after a keyword, if an identifier follows. -/
def nameAfter? (ts : List Token) : Option String :=
  match ts with
  | t :: _ => if t.isIdent then some t.text else none
  | [] => none

/-- The member a statement without its semicolon holds, `keyword` being its first token. -/
def ofStatement? (keyword : Token) (ts statement : List Token) : Option Member :=
  if keyword.isOneOf ["type", "struct", "enum"] && (nameAfter? ts).isSome then
    (nameAfter? ts).map typeName
  else if keyword.isOneOf ["event", "error", "struct", "enum", "using"] then none
  else (StateVariable.ofTokens? statement).map stateVariable

/-- Reads one member at the start of a run. -/
def next (t : Token) (ts : List Token) : Except ParseError (Option Member × List Token) :=
  if startsFunction t ts then
    match RawFunction.ofTokens t ts with
    | .error e => .error e
    | .ok (f, rest) => .ok (some (if t.text == "modifier" then modifier f else function f), rest)
  else
    match t.isOneOf ["struct", "enum"], ts with
    | true, name :: p :: rest =>
      if name.isIdent && p.opens .brace then
        match Bracket.brace.enclosed? rest with
        | none => .error (.unbalancedType t.text name.text t.line)
        | some e => .ok (some (typeName name.text), e.rest)
      else statement
    | _, _ => statement
where
  statement : Except ParseError (Option Member × List Token) :=
    let n := statementEnd (t :: ts)
    .ok (ofStatement? t ts ((t :: ts).take n), ts.drop n)

theorem length_next {t : Token} {ts rest : List Token} {m : Option Member}
    (h : next t ts = .ok (m, rest)) : rest.length ≤ ts.length := by
  have hs : ∀ {m rest}, next.statement t ts = .ok (m, rest) → rest.length ≤ ts.length := by
    intro m rest h
    simp only [next.statement, Except.ok.injEq, Prod.mk.injEq] at h
    rw [← h.2]; simp
  unfold next at h
  split at h
  · split at h
    · cases h
    · rename_i f r hf
      simp only [Except.ok.injEq, Prod.mk.injEq] at h
      have := RawFunction.length_ofTokens hf
      rw [← h.2]; omega
  · split at h
    · split at h
      · split at h
        · cases h
        · rename_i e he
          simp only [Except.ok.injEq, Prod.mk.injEq] at h
          have := Bracket.enclosed?_length he
          rw [← h.2]; simp; omega
      · exact hs h
    · exact hs h

/-- The members of a run, in order. -/
def ofTokens : List Token → Except ParseError (List Member)
  | [] => .ok []
  | t :: ts =>
    match _h : next t ts with
    | .error e => .error e
    | .ok (m, rest) =>
      match ofTokens rest with
      | .error e => .error e
      | .ok ms => .ok (m.toList ++ ms)
termination_by ts => ts.length
decreasing_by have := length_next _h; simp; omega

def stateVariables (ms : List Member) : List StateVariable :=
  ms.filterMap fun
    | stateVariable v => some v
    | _ => none

def functions (ms : List Member) : List RawFunction :=
  ms.filterMap fun
    | function f => some f
    | _ => none

def modifiers (ms : List Member) : List RawFunction :=
  ms.filterMap fun
    | modifier f => some f
    | _ => none

def typeNames (ms : List Member) : List String :=
  ms.filterMap fun
    | typeName n => some n
    | _ => none

end Member

end ContractAudit
