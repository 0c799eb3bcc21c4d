import ContractAudit.Proofs.Batch
import ContractAudit.Proofs.Token.Layout

/-!
# Extraction does not see layout

The model of a source without its places (`Contract.unplaced`: every line set to zero, and every token of a
body without line and offset) is the model read from the tokens without places. So two sources whose tokens
agree in kind and text, that is, which differ in blanks, line ends and comments only, have the same models
up to lines and offsets, or none of them has a model.
-/

namespace ContractAudit

/-! ## Models without places -/

def CallSite.unplaced (s : CallSite) : CallSite := { s with line := 0 }

def Effect.unplaced : Effect → Effect
  | read name _ => .read name 0
  | write name _ => .write name 0
  | internalCall callee _ => .internalCall callee 0
  | externalCall site _ => .externalCall site 0

def Function.unplaced (f : Function) : Function :=
  { f with
    callSites := f.callSites.map CallSite.unplaced
    effects := f.effects.map Effect.unplaced
    body := f.body.map (List.map Token.unplaced)
    line := 0
    endLine := 0 }

def Contract.unplaced (c : Contract) : Contract :=
  { c with
    stateVariables := c.stateVariables.map StateVariable.unplaced
    functions := c.functions.map Function.unplaced
    line := 0 }

def ParseError.unplaced : ParseError → ParseError
  | emptySource => .emptySource
  | noDeclaration => .noDeclaration
  | unbalancedBraces _ => .unbalancedBraces 0
  | noBody kind name _ => .noBody kind name 0
  | unbalancedContract kind name _ => .unbalancedContract kind name 0
  | unbalancedType keyword name _ => .unbalancedType keyword name 0
  | unbalancedParameters function _ => .unbalancedParameters function 0
  | unbalancedSpecifiers function _ => .unbalancedSpecifiers function 0
  | unterminated function _ => .unterminated function 0
  | unbalancedBody function _ => .unbalancedBody function 0

/-- A result without places: `f` takes them from what was read. -/
def unplacedResult {α β : Type} (f : α → β) : Except ParseError α → Except ParseError β
  | .error e => .error e.unplaced
  | .ok a => .ok (f a)

/-! ## Members -/

namespace RawFunction

def unplaced (f : RawFunction) : RawFunction :=
  { f with
    specifiers := f.specifiers.map Token.unplaced
    body := f.body.map (List.map Token.unplaced)
    line := 0
    endLine := 0 }

theorem splitSpecifiers_unplaced (ts : List Token) :
    splitSpecifiers (ts.map Token.unplaced) = (splitSpecifiers ts).map fun p =>
      (p.1.map Token.unplaced, p.2.map fun q => (q.1.unplaced, q.2.map Token.unplaced)) := by
  fun_induction splitSpecifiers ts with
  | case1 => simp [splitSpecifiers]
  | case2 t ts h => simp [splitSpecifiers_cons, h]
  | case3 t ts h ho he => simp [splitSpecifiers_cons, h, ho, he]
  | case4 t ts h ho e he ih =>
    simp only [List.map_cons, splitSpecifiers_cons, Token.isPunct_unplaced, h, Bool.false_eq_true, ↓reduceIte,
      Token.opens_unplaced, ho, Bracket.enclosed?_unplaced, he, Option.map_some, Option.bind_some,
      Enclosed.unplaced, ih, Option.map_map]
    congr 1
    funext p
    simp
  | case5 t ts h ho ih =>
    simp only [List.map_cons, splitSpecifiers_cons, Token.isPunct_unplaced, h, Bool.false_eq_true, ↓reduceIte,
      Token.opens_unplaced, ho, ih, Option.map_map]
    rfl

theorem splitName_unplaced (keyword : Token) (ts : List Token) :
    splitName keyword.unplaced (ts.map Token.unplaced) =
      ((splitName keyword ts).1, (splitName keyword ts).2.map Token.unplaced) := by
  cases ts with
  | nil => cases h : keyword.isOneOf ["function", "modifier"] <;> simp [splitName, h]
  | cons t ts =>
    cases h : keyword.isOneOf ["function", "modifier"] with
    | false => simp [splitName, h]
    | true => cases hi : t.isIdent <;> simp [splitName, h, hi]

theorem splitParameters_unplaced (name : String) (line : Nat) (ts : List Token) :
    splitParameters name 0 (ts.map Token.unplaced) =
      unplacedResult (fun p => (p.1, p.2.map Token.unplaced)) (splitParameters name line ts) := by
  cases ts with
  | nil => rfl
  | cons t ts =>
    simp only [List.map_cons, splitParameters, Token.opens_unplaced, Bracket.enclosed?_unplaced]
    split
    · cases Bracket.paren.enclosed? ts with
      | none => rfl
      | some e => simp [Enclosed.unplaced, unplacedResult]
    · rfl

/-- A function and the tokens after it, without places. -/
def unplacedRead (p : RawFunction × List Token) : RawFunction × List Token :=
  (p.1.unplaced, p.2.map Token.unplaced)

theorem ofSpecifiers_unplaced (name : String) (line : Nat) (parameters : List Parameter)
    (ts : List Token) :
    ofSpecifiers name 0 parameters (ts.map Token.unplaced) =
      unplacedResult unplacedRead (ofSpecifiers name line parameters ts) := by
  rw [ofSpecifiers, splitSpecifiers_unplaced, ofSpecifiers]
  cases splitSpecifiers ts with
  | none => rfl
  | some p =>
    obtain ⟨specifiers, _ | ⟨t, rest⟩⟩ := p
    · rfl
    · simp only [Option.map_some, Token.isPunct_unplaced, Bracket.enclosed?_unplaced]
      split
      · cases Bracket.brace.enclosed? rest <;> rfl
      · rfl

theorem ofTokens_unplaced (keyword : Token) (ts : List Token) :
    ofTokens keyword.unplaced (ts.map Token.unplaced) =
      unplacedResult unplacedRead (ofTokens keyword ts) := by
  have hline : keyword.unplaced.line = 0 := rfl
  rw [ofTokens, splitName_unplaced, hline, splitParameters_unplaced _ keyword.line, ofTokens]
  cases splitParameters (splitName keyword ts).1 keyword.line (splitName keyword ts).2 with
  | error e => rfl
  | ok p => exact ofSpecifiers_unplaced _ keyword.line p.1 p.2

end RawFunction

namespace Member

def unplaced : Member → Member
  | stateVariable v => .stateVariable v.unplaced
  | function f => .function f.unplaced
  | modifier f => .modifier f.unplaced
  | typeName name => .typeName name

theorem startsFunction_unplaced (t : Token) (ts : List Token) :
    startsFunction t.unplaced (ts.map Token.unplaced) = startsFunction t ts := by
  cases ts <;> rfl

theorem nameAfter?_unplaced (ts : List Token) : nameAfter? (ts.map Token.unplaced) = nameAfter? ts := by
  cases ts <;> rfl

theorem ofStatement?_unplaced (keyword : Token) (ts statement : List Token) :
    ofStatement? keyword.unplaced (ts.map Token.unplaced) (statement.map Token.unplaced) =
      (ofStatement? keyword ts statement).map unplaced := by
  simp only [ofStatement?, Token.isOneOf_unplaced, nameAfter?_unplaced, StateVariable.ofTokens?_unplaced]
  split
  · cases nameAfter? ts <;> rfl
  · split
    · rfl
    · cases StateVariable.ofTokens? statement <;> rfl

/-- A member and the tokens after it, without places. -/
def unplacedRead (p : Option Member × List Token) : Option Member × List Token :=
  (p.1.map unplaced, p.2.map Token.unplaced)

theorem statement_unplaced (t : Token) (ts : List Token) :
    next.statement t.unplaced (ts.map Token.unplaced) =
      unplacedResult unplacedRead (next.statement t ts) := by
  simp only [next.statement, ← List.map_cons, statementEnd_unplaced, ← List.map_take,
    ofStatement?_unplaced, ← List.map_drop]
  rfl

theorem next_unplaced (t : Token) (ts : List Token) :
    next t.unplaced (ts.map Token.unplaced) = unplacedResult unplacedRead (next t ts) := by
  simp only [next, startsFunction_unplaced, RawFunction.ofTokens_unplaced]
  split
  · cases RawFunction.ofTokens t ts with
    | error e => rfl
    | ok p =>
      simp only [unplacedResult, RawFunction.unplacedRead, Token.text_unplaced, unplacedRead]
      by_cases hm : (t.text == "modifier") = true <;> simp [hm, unplaced]
  · match ts with
    | [] => cases h : t.isOneOf ["struct", "enum"] <;> simpa [h] using statement_unplaced t []
    | [a] => cases h : t.isOneOf ["struct", "enum"] <;> simpa [h] using statement_unplaced t [a]
    | name :: p :: rest =>
      cases h : t.isOneOf ["struct", "enum"] with
      | false => simpa [h] using statement_unplaced t (name :: p :: rest)
      | true =>
        simp only [List.map_cons, Token.isOneOf_unplaced, h, Token.isIdent_unplaced, Token.opens_unplaced,
          Bracket.enclosed?_unplaced]
        split
        · cases Bracket.brace.enclosed? rest <;> rfl
        · exact statement_unplaced t (name :: p :: rest)

theorem ofTokens_unplaced (ts : List Token) :
    ofTokens (ts.map Token.unplaced) = unplacedResult (List.map unplaced) (ofTokens ts) := by
  fun_induction ofTokens ts with
  | case1 => simp [ofTokens, unplacedResult]
  | case2 t ts e he => rw [List.map_cons, ofTokens_cons, next_unplaced, he]; rfl
  | case3 t ts m rest hn e he ih =>
    simp only [List.map_cons, ofTokens_cons, next_unplaced, hn, unplacedResult, unplacedRead, ih, he]
  | case4 t ts m rest hn ms hms ih =>
    simp only [List.map_cons, ofTokens_cons, next_unplaced, hn, unplacedResult, unplacedRead, ih, hms]
    cases m <;> simp

theorem stateVariables_unplaced (ms : List Member) :
    stateVariables (ms.map unplaced) = (stateVariables ms).map StateVariable.unplaced := by
  simp only [stateVariables, List.filterMap_map, List.map_filterMap]
  congr 1
  funext m
  cases m <;> rfl

theorem functions_unplaced (ms : List Member) :
    functions (ms.map unplaced) = (functions ms).map RawFunction.unplaced := by
  simp only [functions, List.filterMap_map, List.map_filterMap]
  congr 1
  funext m
  cases m <;> rfl

theorem modifiers_unplaced (ms : List Member) :
    modifiers (ms.map unplaced) = (modifiers ms).map RawFunction.unplaced := by
  simp only [modifiers, List.filterMap_map, List.map_filterMap]
  congr 1
  funext m
  cases m <;> rfl

theorem typeNames_unplaced (ms : List Member) : typeNames (ms.map unplaced) = typeNames ms := by
  simp only [typeNames, List.filterMap_map]
  congr 1
  funext m
  cases m <;> rfl

end Member

/-! ## Bodies -/

def Focus.unplaced (f : Focus) : Focus :=
  ⟨f.before.map Token.unplaced, f.token.unplaced, f.after.map Token.unplaced⟩

theorem Focus.focusesFrom_unplaced (before ts : List Token) :
    focusesFrom (before.map Token.unplaced) (ts.map Token.unplaced) =
      (focusesFrom before ts).map unplaced := by
  induction ts generalizing before with
  | nil => rfl
  | cons t ts ih => exact congrArg _ (ih (t :: before))

theorem Focus.all_unplaced (ts : List Token) : all (ts.map Token.unplaced) = (all ts).map unplaced :=
  focusesFrom_unplaced [] ts

section

variable (f : Focus)

@[simp] theorem Focus.token_unplaced : f.unplaced.token = f.token.unplaced := rfl

@[simp] theorem Focus.before_unplaced : f.unplaced.before = f.before.map Token.unplaced := rfl

@[simp] theorem Focus.after_unplaced : f.unplaced.after = f.after.map Token.unplaced := rfl

@[simp] theorem Focus.index_unplaced : f.unplaced.index = f.index := List.length_map _

@[simp] theorem Focus.prev?_unplaced : f.unplaced.prev? = f.prev?.map Token.unplaced := List.head?_map

@[simp] theorem Focus.next?_unplaced : f.unplaced.next? = f.next?.map Token.unplaced := List.head?_map

theorem Focus.local?_unplaced : f.unplaced.local? = f.local? := by
  have hwords : (fun t : Token => t.isOneOf locationWords) ∘ Token.unplaced = (·.isOneOf locationWords) :=
    rfl
  simp only [local?, token_unplaced, after_unplaced, prev?_unplaced, ← List.map_cons, splitType?_unplaced,
    Token.isIdent_unplaced, Token.text_unplaced, Option.map_map, Function.comp_def,
    Token.isPunctIn_unplaced]
  cases splitType? (f.token :: f.after) with
  | none => rfl
  | some p =>
    simp only [Option.map_some, unplacedCut, Option.bind_eq_bind, Option.bind_some, List.dropWhile_map,
      hwords, Token.render_unplaced]
    generalize p.2.dropWhile (·.isOneOf locationWords) = rest
    rcases rest with _ | ⟨_, _ | ⟨_, _⟩⟩ <;> rfl

theorem localsOf_unplaced (parameters : List Parameter) (body : List Token) :
    localsOf parameters (body.map Token.unplaced) = localsOf parameters body := by
  simp only [localsOf, Focus.all_unplaced, List.filterMap_map, Function.comp_def, Focus.local?_unplaced]

theorem Focus.check?_unplaced : f.unplaced.check? = f.check? := by
  simp only [check?, token_unplaced, after_unplaced, Token.isOneOf_unplaced]
  cases f.after with
  | nil => rfl
  | cons p ts =>
    simp only [List.map_cons, Token.opens_unplaced, Bracket.enclosed?_unplaced]
    cases Bracket.paren.enclosed? ts with
    | none => rfl
    | some e =>
      simp only [Option.map_some, Option.bind_eq_bind, Option.bind_some, Enclosed.unplaced,
        Token.splitCommas_unplaced, List.head?_map]
      cases (Token.splitCommas e.inner).head? with
      | none => rfl
      | some first => simp only [Option.map_some, Option.bind_some, Token.render_unplaced]

end

theorem checksOf_unplaced (body : List Token) :
    checksOf (body.map Token.unplaced) = checksOf body := by
  simp only [checksOf, Focus.all_unplaced, List.filterMap_map, Function.comp_def, Focus.check?_unplaced]

/-! ## Calls -/

def Scope.unplaced (s : Scope) : Scope :=
  { s with stateVariables := s.stateVariables.map StateVariable.unplaced }

theorem Scope.findVariable?_unplaced (s : Scope) (name : String) :
    s.unplaced.findVariable? name = (s.findVariable? name).map StateVariable.unplaced := by
  simp only [findVariable?, unplaced, ← List.map_reverse, List.find?_map]
  rfl

theorem Scope.seesVariable_unplaced (s : Scope) (name : String) :
    s.unplaced.seesVariable name = s.seesVariable name := by
  simp only [seesVariable, unplaced, List.any_map]
  rfl

theorem isCast_unplaced (receiver : List Token) : isCast (receiver.map Token.unplaced) = isCast receiver := by
  rcases receiver with _ | ⟨_, _ | ⟨p, rest⟩⟩
  · rfl
  · rfl
  · simp only [List.map_cons, isCast, Token.opens_unplaced, Bracket.enclosed?_unplaced, Option.map_map]
    congr 2
    cases Bracket.paren.enclosed? rest with
    | none => rfl
    | some e => simp [Enclosed.unplaced]

theorem classifyDeclared_unplaced (s : Scope) (receiver : List Token) (member declared : String)
    (target : Option String) :
    classifyDeclared s.unplaced (receiver.map Token.unplaced) member declared target =
      classifyDeclared s receiver member declared target := by
  have hdot : (receiver.map Token.unplaced).any (·.isPunct ".") = receiver.any (·.isPunct ".") :=
    List.any_map
  simp only [classifyDeclared, hdot, List.length_map]
  rfl

theorem classifyCall_unplaced (s : Scope) (receiver : List Token) (member : String) :
    classifyCall s.unplaced (receiver.map Token.unplaced) member = classifyCall s receiver member := by
  cases receiver with
  | nil => rfl
  | cons root rest =>
    have hcast := isCast_unplaced (root :: rest)
    have hdeclared := classifyDeclared_unplaced s (root :: rest)
    have hrender := Token.render_unplaced (root :: rest)
    rw [List.map_cons] at hcast hdeclared hrender
    simp only [List.map_cons, classifyCall, Token.isIdent_unplaced, Token.text_unplaced, hcast, hrender,
      Scope.findVariable?_unplaced]
    have hlocals : s.unplaced.locals = s.locals := rfl
    rw [hlocals]
    cases s.locals.lookup root.text with
    | some declared => simp only [hdeclared]; rfl
    | none =>
      cases s.findVariable? root.text with
      | some v => simp only [Option.map_some, hdeclared]; rfl
      | none => rfl

theorem receiverLength_unplaced (ts : List Token) :
    receiverLength (ts.map Token.unplaced) = receiverLength ts := by
  induction hn : ts.length using Nat.strongRecOn generalizing ts with
  | _ n ih =>
  subst hn
  cases ts with
  | nil => rfl
  | cons t ts =>
    rw [List.map_cons, receiverLength_cons, receiverLength_cons, Token.receiverEnd?_unplaced,
      Token.isIdent_unplaced]
    cases t.receiverEnd? with
    | some b =>
      simp only [Bracket.enclosedBack?_unplaced]
      cases he : b.enclosedBack? ts with
      | none => rfl
      | some e =>
        have hlen := Bracket.enclosedBack?_length he
        simp only [Option.map_some, Option.bind_some, Enclosed.unplaced, List.head?_map, List.length_map,
          ih e.rest.length (by simp only [List.length_cons]; omega) e.rest rfl, Option.map_map]
        rfl
    | none =>
      rcases ts with _ | ⟨dot, _ | ⟨x, more⟩⟩
      · rfl
      · rfl
      · have hmore := ih (x :: more).length (by simp) (x :: more) rfl
        rw [List.map_cons] at hmore
        simp only [List.map_cons, Token.isPunct_unplaced, hmore]

theorem splitCallOptions?_unplaced (ts : List Token) :
    splitCallOptions? (ts.map Token.unplaced) = (splitCallOptions? ts).map unplacedCut := by
  cases ts with
  | nil => rfl
  | cons t ts =>
    simp only [List.map_cons, splitCallOptions?, Token.opens_unplaced, Bracket.enclosed?_unplaced]
    split
    · cases Bracket.brace.enclosed? ts with
      | none => rfl
      | some e => simp [Enclosed.unplaced, unplacedCut]
    · rfl

theorem callEnd?_unplaced (ts : List Token) : callEnd? (ts.map Token.unplaced) = callEnd? ts := by
  cases ts with
  | nil => rfl
  | cons p ts =>
    simp only [List.map_cons, callEnd?, Token.opens_unplaced, Bracket.enclosed?_unplaced, Option.map_map]
    split
    · cases Bracket.paren.enclosed? ts <;> simp [Enclosed.unplaced]
    · rfl

theorem accessLength_unplaced (ts : List Token) :
    accessLength (ts.map Token.unplaced) = accessLength ts := by
  induction hn : ts.length using Nat.strongRecOn generalizing ts with
  | _ n ih =>
  subst hn
  cases ts with
  | nil => simp [accessLength]
  | cons t ts =>
    rw [List.map_cons, accessLength_cons, accessLength_cons, Token.opens_unplaced, Token.isPunct_unplaced,
      Bracket.enclosed?_unplaced]
    split
    · cases he : Bracket.square.enclosed? ts with
      | none => rfl
      | some e =>
        have hlen := Bracket.enclosed?_length he
        simp only [Option.map_some, Enclosed.unplaced, List.length_map,
          ih e.rest.length (by simp only [List.length_cons]; omega) e.rest rfl]
    · split
      · rcases ts with _ | ⟨name, _ | ⟨x, more⟩⟩
        · rfl
        · rfl
        · have hmore := ih (x :: more).length (by simp) (x :: more) rfl
          rw [List.map_cons] at hmore
          simp only [List.map_cons, Token.isIdent_unplaced, Token.opens_unplaced, hmore]
      · rfl

/-! ## Events and effects -/

def Event.unplaced : Event → Event
  | read name _ => .read name 0
  | write name _ => .write name 0
  | internalCall callee _ => .internalCall callee 0
  | externalCall site => .externalCall site.unplaced

/-- An event at the same position of the body, without its line. -/
def unplacedEvent (p : Positioned) : Positioned := (p.1, p.2.unplaced)

theorem Focus.memberCall?_unplaced (s : Scope) (f : Focus) :
    f.unplaced.memberCall? s.unplaced = (f.memberCall? s).map unplacedEvent := by
  simp only [memberCall?, token_unplaced, before_unplaced, after_unplaced, index_unplaced]
  generalize f.after = after
  rcases after with _ | ⟨member, _ | ⟨x, ts⟩⟩
  · rfl
  · rfl
  · simp only [List.map_cons, Token.isIdent_unplaced, Token.text_unplaced]
    by_cases hm : (! member.isIdent) = true
    · rw [if_pos hm, if_pos hm]
      rfl
    · rw [if_neg hm, if_neg hm, ← List.map_cons, splitCallOptions?_unplaced]
      cases splitCallOptions? (x :: ts) with
      | none => rfl
      | some p =>
        obtain ⟨options, rest⟩ := p
        cases rest with
        | nil => rfl
        | cons p rest =>
          simp only [Option.map_some, unplacedCut, Option.bind_eq_bind, Option.bind_some, List.map_cons,
            Token.opens_unplaced, Bracket.enclosed?_unplaced, receiverLength_unplaced]
          by_cases hp : (! p.opens .paren) = true
          · rw [if_pos hp, if_pos hp]
            rfl
          · rw [if_neg hp, if_neg hp]
            cases Bracket.paren.enclosed? rest with
            | none => rfl
            | some arguments =>
              cases receiverLength f.before with
              | none => rfl
              | some n =>
                have hreceiver : ((f.before.map Token.unplaced).take n).reverse =
                    (f.before.take n).reverse.map Token.unplaced := by
                  rw [← List.map_take, List.map_reverse]
                have hcallee : (f.before.take n).reverse.map Token.unplaced ++
                      f.token.unplaced :: member.unplaced :: options.map Token.unplaced =
                    ((f.before.take n).reverse ++ f.token :: member :: options).map Token.unplaced := by
                  simp
                have hvalue : (options.map Token.unplaced).any (·.isName "value") =
                    options.any (·.isName "value") := List.any_map
                simp only [Option.map_some, Option.bind_some, Enclosed.unplaced, hreceiver,
                  classifyCall_unplaced, hcallee, Token.render_unplaced, hvalue, List.length_map]
                cases classifyCall s (f.before.take n).reverse member.text <;> rfl

theorem Focus.stateAccess_unplaced (f : Focus) :
    f.unplaced.stateAccess = f.stateAccess.map unplacedEvent := by
  have hend : statementEnd (f.token.unplaced :: f.after.map Token.unplaced) =
      statementEnd (f.token :: f.after) := statementEnd_unplaced (f.token :: f.after)
  simp only [stateAccess, token_unplaced, after_unplaced, index_unplaced, accessLength_unplaced, prev?_unplaced,
    ← List.map_drop, List.head?_map, Option.map_map, Function.comp_def, Token.isAssignment_unplaced,
    Token.text_unplaced, Token.isName_unplaced, hend]
  generalize f.after.drop (accessLength f.after) = rest
  cases (rest.head?.map Token.isAssignment).getD false with
  | true => cases (rest.head?.map (·.text == "=")).getD false <;> rfl
  | false =>
    cases (rest.head?.map fun t => t.text == "++" || t.text == "--").getD false ||
      (f.prev?.map fun t => t.text == "++" || t.text == "--").getD false with
    | true => rfl
    | false =>
      cases (f.prev?.map (·.isName "delete")).getD false with
      | true => rfl
      | false =>
        rcases rest with _ | ⟨dot, _ | ⟨member, call⟩⟩
        · rfl
        · rfl
        · simp only [List.map_cons, Token.isPunct_unplaced, Token.isOneOf_unplaced, List.head?_map,
            Option.map_map, Function.comp_def, Token.opens_unplaced, callEnd?_unplaced]
          cases dot.isPunct "." && member.isOneOf ["push", "pop"] &&
            (call.head?.map (·.opens .paren)).getD false with
          | false => rfl
          | true => cases callEnd? call <;> rfl

theorem Focus.events_unplaced (s : Scope) (f : Focus) :
    f.unplaced.events s.unplaced = (f.events s).map unplacedEvent := by
  simp only [events, token_unplaced, after_unplaced, Token.isPunct_unplaced, Token.isIdent_unplaced,
    prev?_unplaced, next?_unplaced, Option.map_map, Function.comp_def, Token.opens_unplaced,
    Token.isOneOf_unplaced, Token.text_unplaced, Scope.seesVariable_unplaced, memberCall?_unplaced,
    stateAccess_unplaced, callEnd?_unplaced, index_unplaced]
  have hnames : s.unplaced.functionNames = s.functionNames := rfl
  rw [hnames]
  split
  · cases f.memberCall? s <;> rfl
  · split
    · rfl
    · split
      · split <;> rfl
      · split <;> rfl

theorem eventsOf_unplaced (s : Scope) (body : List Token) :
    eventsOf s.unplaced (body.map Token.unplaced) = (eventsOf s body).map unplacedEvent := by
  simp only [eventsOf, Focus.all_unplaced, List.flatMap_map, Focus.events_unplaced, List.map_flatMap]

theorem callSitesOf_unplaced (events : List Positioned) :
    callSitesOf (events.map unplacedEvent) = (callSitesOf events).map CallSite.unplaced := by
  simp only [callSitesOf, List.filterMap_map, List.map_filterMap]
  congr 1
  funext p
  obtain ⟨position, event⟩ := p
  cases event <;> rfl

/-- An effect at the same position, without its line. -/
def unplacedEffect (p : Nat × Effect) : Nat × Effect := (p.1, p.2.unplaced)

theorem numberEvents_unplaced (first : Nat) (events : List Positioned) :
    numberEvents first (events.map unplacedEvent) = (numberEvents first events).map unplacedEffect := by
  induction events generalizing first with
  | nil => rfl
  | cons p events ih =>
    obtain ⟨position, event⟩ := p
    cases event with
    | read name line => exact congrArg _ (ih first)
    | write name line => exact congrArg _ (ih first)
    | internalCall callee line => exact congrArg _ (ih first)
    | externalCall site => exact congrArg _ (ih (first + 1))

theorem insertByPosition_unplaced (e : Nat × Effect) (es : List (Nat × Effect)) :
    insertByPosition (unplacedEffect e) (es.map unplacedEffect) =
      (insertByPosition e es).map unplacedEffect := by
  induction es with
  | nil => rfl
  | cons d es ih =>
    simp only [List.map_cons, insertByPosition, ih]
    have hle : (unplacedEffect e).1 ≤ (unplacedEffect d).1 ↔ e.1 ≤ d.1 := Iff.rfl
    simp only [hle]
    split <;> rfl

theorem sortByPosition_unplaced (es : List (Nat × Effect)) :
    sortByPosition (es.map unplacedEffect) = (sortByPosition es).map unplacedEffect := by
  induction es with
  | nil => rfl
  | cons e es ih =>
    simp only [sortByPosition, List.map_cons, List.foldr_cons] at ih ⊢
    rw [ih, insertByPosition_unplaced]

theorem Effect.repeats_unplaced (a b : Effect) : a.unplaced.repeats b.unplaced = a.repeats b := by
  cases a <;> cases b <;> rfl

theorem collapseAfter_unplaced (last : Effect) (es : List Effect) :
    collapseAfter last.unplaced (es.map Effect.unplaced) =
      (collapseAfter last es).map Effect.unplaced := by
  induction es generalizing last with
  | nil => rfl
  | cons e es ih =>
    simp only [List.map_cons, collapseAfter, Effect.repeats_unplaced, ih]
    split <;> rfl

theorem collapse_unplaced (es : List Effect) :
    collapse (es.map Effect.unplaced) = (collapse es).map Effect.unplaced := by
  cases es with
  | nil => rfl
  | cons e es => exact congrArg _ (collapseAfter_unplaced e es)

theorem effectsOf_unplaced (events : List Positioned) :
    effectsOf (events.map unplacedEvent) = (effectsOf events).map Effect.unplaced := by
  rw [effectsOf, numberEvents_unplaced, sortByPosition_unplaced, List.map_map, effectsOf,
    ← collapse_unplaced, List.map_map]
  rfl

/-! ## Contracts -/

theorem Specifiers.add_unplaced (s : Specifiers) (t : Token) : s.add t.unplaced = s.add t := rfl

theorem Specifiers.read_unplaced (s : Specifiers) (ts : List Token) :
    s.read (ts.map Token.unplaced) = s.read ts := by
  fun_induction read s ts with
  | case1 s => simp [read]
  | case2 s t => simp [read, add_unplaced]
  | case3 s t p ts hp he =>
    simp [read_cons_cons, hp, he, add_unplaced]
  | case4 s t p ts hp e he ih =>
    simp [read_cons_cons, hp, he, add_unplaced, Enclosed.unplaced, ih]
  | case5 s t p ts hp ih =>
    rw [List.map_cons] at ih
    simp [read_cons_cons, hp, add_unplaced, ih]

theorem Function.ofRaw_unplaced (kind : ContractKind) (s : Scope) (raw : RawFunction) :
    ofRaw kind s.unplaced raw.unplaced = (ofRaw kind s raw).unplaced := by
  simp only [ofRaw, RawFunction.unplaced, Specifiers.read_unplaced]
  cases raw.body with
  | none => rfl
  | some body =>
    have hevents : eventsOf { s.unplaced with locals := localsOf raw.parameters body }
          (body.map Token.unplaced) =
        (eventsOf { s with locals := localsOf raw.parameters body } body).map unplacedEvent :=
      eventsOf_unplaced { s with locals := localsOf raw.parameters body } body
    simp only [Option.map_some, localsOf_unplaced, hevents, callSitesOf_unplaced, effectsOf_unplaced,
      Option.getD_some, checksOf_unplaced]
    rfl

theorem basesOf_unplaced (header : List Token) : basesOf (header.map Token.unplaced) = basesOf header := by
  cases header with
  | nil => rfl
  | cons t ts =>
    simp only [List.map_cons, basesOf, Token.isName_unplaced, Token.splitCommas_unplaced, List.map_map,
      Function.comp_def, List.takeWhile_map, Token.render_unplaced]
    rfl

namespace Contract

/-- Of a unit only the name and the path are part of the model. -/
theorem ofMembers_unplaced {unit unit' : SourceUnit} (hn : unit.name = unit'.name)
    (hp : unit.path = unit'.path) (kind : ContractKind) (name : Token) (header : List Token)
    (members : List Member) :
    ofMembers unit' kind name.unplaced (header.map Token.unplaced) (members.map Member.unplaced) =
      (ofMembers unit kind name header members).unplaced := by
  have hfunctions (s : Scope) : (Function.ofRaw kind s.unplaced) ∘ RawFunction.unplaced =
      Function.unplaced ∘ Function.ofRaw kind s := funext (Function.ofRaw_unplaced kind s)
  have hscope (contract : String) (vs : List StateVariable) (functions types : List String) :
      Scope.mk contract (vs.map StateVariable.unplaced) functions types [] =
        (Scope.mk contract vs functions types []).unplaced := rfl
  have hnames : (fun f : RawFunction => f.name) ∘ RawFunction.unplaced = (·.name) := rfl
  simp only [ofMembers, unplaced, Member.stateVariables_unplaced, Member.functions_unplaced,
    Member.modifiers_unplaced, Member.typeNames_unplaced, basesOf_unplaced, List.map_map, hn, hp, hscope,
    hfunctions, hnames, Token.text_unplaced]
  rfl

def unplacedRead (p : Contract × List Token) : Contract × List Token :=
  (p.1.unplaced, p.2.map Token.unplaced)

theorem ofTokens_unplaced {unit unit' : SourceUnit} (hn : unit.name = unit'.name)
    (hp : unit.path = unit'.path) (kind : ContractKind) (name : Token) (ts : List Token) :
    ofTokens unit' kind name.unplaced (ts.map Token.unplaced) =
      unplacedResult unplacedRead (ofTokens unit kind name ts) := by
  have hheader : inHeader ∘ Token.unplaced = inHeader := rfl
  rw [ofTokens, List.dropWhile_map, List.takeWhile_map, hheader, ofTokens]
  cases ts.dropWhile inHeader with
  | nil => rfl
  | cons t after =>
    simp only [List.map_cons, Token.opens_unplaced, Bracket.enclosed?_unplaced]
    by_cases hb : t.opens .brace = true
    · rw [if_pos hb, if_pos hb]
      cases Bracket.brace.enclosed? after with
      | none => rfl
      | some e =>
        simp only [Option.map_some, Enclosed.unplaced, Member.ofTokens_unplaced]
        cases Member.ofTokens e.inner with
        | error err => rfl
        | ok members =>
          simp only [unplacedResult, unplacedRead, ofMembers_unplaced hn hp]
    · rw [if_neg hb, if_neg hb]
      rfl

theorem headAt?_unplaced (prev : Option Token) (t : Token) (ts : List Token) :
    headAt? (prev.map Token.unplaced) t.unplaced (ts.map Token.unplaced) =
      (headAt? prev t ts).map fun p => (p.1, p.2.1.unplaced, p.2.2.map Token.unplaced) := by
  cases ts with
  | nil => rfl
  | cons name rest =>
    simp only [List.map_cons, headAt?, Token.isIdent_unplaced, Option.map_map, Function.comp_def,
      Token.isPunct_unplaced, Token.text_unplaced]
    split
    · cases ContractKind.ofWord? t.text <;> rfl
    · rfl

theorem allFrom_unplaced {unit unit' : SourceUnit} (hn : unit.name = unit'.name)
    (hp : unit.path = unit'.path) (prev : Option Token) (ts : List Token) :
    allFrom unit' (prev.map Token.unplaced) (ts.map Token.unplaced) =
      unplacedResult (List.map unplaced) (allFrom unit prev ts) := by
  fun_induction allFrom unit prev ts with
  | case1 => simp [allFrom, unplacedResult]
  | case2 prev t ts kind name rest hh e he =>
    rw [List.map_cons, allFrom_cons, headAt?_unplaced, hh]
    simp only [Option.map_some, ofTokens_unplaced hn hp, he]
    rfl
  | case3 prev t ts kind name rest hh c rest' hc e he ih =>
    rw [he] at ih
    rw [List.map_cons, allFrom_cons, headAt?_unplaced, hh]
    simp only [Option.map_some, ofTokens_unplaced hn hp, hc, unplacedResult, unplacedRead]
    rw [Option.map_none] at ih
    rw [ih]
    rfl
  | case4 prev t ts kind name rest hh c rest' hc cs hcs ih =>
    rw [hcs, Option.map_none] at ih
    rw [List.map_cons, allFrom_cons, headAt?_unplaced, hh]
    simp only [Option.map_some, ofTokens_unplaced hn hp, hc, unplacedResult, unplacedRead]
    rw [ih]
    rfl
  | case5 prev t ts hh hb he =>
    rw [List.map_cons, allFrom_cons, headAt?_unplaced, hh]
    simp only [Option.map_none, Token.opens_unplaced, hb, ↓reduceIte, Bracket.enclosed?_unplaced, he]
    rfl
  | case6 prev t ts hh hb e he ih =>
    rw [List.map_cons, allFrom_cons, headAt?_unplaced, hh]
    simp only [Option.map_none, Token.opens_unplaced, hb, ↓reduceIte, Bracket.enclosed?_unplaced, he]
    exact ih
  | case7 prev t ts hh hb ih =>
    rw [List.map_cons, allFrom_cons, headAt?_unplaced, hh]
    simp only [Option.map_none, Token.opens_unplaced, hb]
    exact ih

end Contract

/-- Sources with the same tokens that both have models have the same ones without places. -/
theorem SourceUnit.map_unplaced_of_ok {u u' : SourceUnit} {cs cs' : List Contract} (hn : u.name = u'.name)
    (hp : u.path = u'.path)
    (ht : (tokenize u.text).map (fun t => (t.kind, t.text)) = (tokenize u'.text).map fun t => (t.kind, t.text))
    (h : u.contracts = .ok cs) (h' : u'.contracts = .ok cs') :
    cs.map Contract.unplaced = cs'.map Contract.unplaced := by
  have htokens : (tokenize u.text).map Token.unplaced = (tokenize u'.text).map Token.unplaced := by
    have hplaced := congrArg (List.map fun p : TokenKind × String => Token.mk p.1 p.2 0 0) ht
    rwa [List.map_map, List.map_map] at hplaced
  have hall {u : SourceUnit} {cs : List Contract} (h : u.contracts = .ok cs) :
      Contract.allFrom u none (tokenize u.text) = .ok cs := by
    rw [contracts_eq] at h
    split at h
    · cases h
    · cases h
    · rename_i hall
      rw [hall, h]
  have hread := Contract.allFrom_unplaced hn hp none (tokenize u.text)
  rw [htokens, Contract.allFrom_unplaced rfl rfl none (tokenize u'.text), hall h, hall h'] at hread
  exact (Except.ok.inj hread).symm

/-- Two sources with the same name and path whose tokens have the same kinds and texts both have no model,
or have the same models without places. The errors differ in their lines only, unless there is no token. -/
theorem SourceUnit.contracts_layout {u u' : SourceUnit} (hn : u.name = u'.name) (hp : u.path = u'.path)
    (ht : (tokenize u.text).map (fun t => (t.kind, t.text)) =
      (tokenize u'.text).map fun t => (t.kind, t.text)) :
    (∃ e e', u.contracts = .error e ∧ u'.contracts = .error e' ∧
      (e.unplaced = e'.unplaced ∨ tokenize u.text = [] ∧ tokenize u'.text = [])) ∨
    ∃ cs cs', u.contracts = .ok cs ∧ u'.contracts = .ok cs' ∧
      cs.map Contract.unplaced = cs'.map Contract.unplaced := by
  have htokens : (tokenize u.text).map Token.unplaced = (tokenize u'.text).map Token.unplaced := by
    have h := congrArg (List.map fun p : TokenKind × String => Token.mk p.1 p.2 0 0) ht
    rwa [List.map_map, List.map_map] at h
  have hread := Contract.allFrom_unplaced hn hp none (tokenize u.text)
  rw [htokens, Contract.allFrom_unplaced rfl rfl none (tokenize u'.text)] at hread
  rw [contracts_eq u, contracts_eq u']
  cases hc : Contract.allFrom u none (tokenize u.text) with
  | error e =>
    cases hc' : Contract.allFrom u' none (tokenize u'.text) with
    | error e' =>
      rw [hc, hc'] at hread
      exact .inl ⟨e, e', rfl, rfl, .inl (Except.error.inj hread).symm⟩
    | ok cs' => rw [hc, hc'] at hread; cases hread
  | ok cs =>
    cases hc' : Contract.allFrom u' none (tokenize u'.text) with
    | error e' => rw [hc, hc'] at hread; cases hread
    | ok cs' =>
      rw [hc, hc'] at hread
      have hsame := (Except.ok.inj hread).symm
      rcases cs with _ | ⟨c, cs⟩ <;> rcases cs' with _ | ⟨c', cs'⟩
      · refine .inl ⟨_, _, rfl, rfl, ?_⟩
        have hlength := congrArg List.length htokens
        rw [List.length_map, List.length_map] at hlength
        -- A blank text has no tokens, and then neither has the other one.
        by_cases hb : (Text.trim u.text.toList).isEmpty = true
        · have hnil := tokenize_of_trim hb
          rw [hnil] at hlength
          exact .inr ⟨hnil, List.length_eq_zero_iff.mp hlength.symm⟩
        · by_cases hb' : (Text.trim u'.text.toList).isEmpty = true
          · have hnil := tokenize_of_trim hb'
            rw [hnil] at hlength
            exact .inr ⟨List.length_eq_zero_iff.mp hlength, hnil⟩
          · rw [if_neg hb, if_neg hb']
            exact .inl rfl
      · cases hsame
      · cases hsame
      · exact .inr ⟨_, _, rfl, rfl, hsame⟩

/-- A vault on one line. -/
def flatVault : SourceUnit where
  name := "Vault.sol"
  path := ""
  text := "contract Vault \x7b uint s; function f(T t) \x7b require(s > 0); t.pay(s); s = 0; \x7d \x7d"

/-- The same vault over several lines and with comments. -/
def spreadVault : SourceUnit where
  name := "Vault.sol"
  path := ""
  text := "contract Vault\n\x7b uint s; // shares\nfunction f(T t)\x7brequire(s>0);t/*T*/.pay(s);\ns=0;\x7d\x7d"

theorem SourceUnit.contracts_layout_vault :
    ∃ cs cs', flatVault.contracts = .ok cs ∧ spreadVault.contracts = .ok cs' ∧
      cs.map (·.functions.map (·.endLine)) = [[1]] ∧ cs'.map (·.functions.map (·.endLine)) = [[4]] ∧
      cs.map Contract.unplaced = cs'.map Contract.unplaced := by
  -- The texts as lists of characters, which the kernel need not decode.
  have hflat : flatVault.text = String.ofList _ := rfl
  have hspread : spreadVault.text = String.ofList _ := rfl
  have ht : (tokenize flatVault.text).map (fun t => (t.kind, t.text)) =
      (tokenize spreadVault.text).map fun t => (t.kind, t.text) := by
    rw [tokenize, tokenize, hflat, hspread, String.toList_ofList, String.toList_ofList]
    decide +kernel
  have hlines : (flatVault.declared.map (·.functions.map (·.endLine)),
      spreadVault.declared.map (·.functions.map (·.endLine))) = ([[1]], [[4]]) := by
    rw [declared, declared, contracts_eq, contracts_eq, tokenize, tokenize, hflat, hspread,
      String.toList_ofList, String.toList_ofList]
    decide +kernel
  rw [Prod.mk.injEq] at hlines
  rcases @contracts_layout flatVault spreadVault rfl rfl ht with
    ⟨e, e', he, -⟩ | ⟨cs, cs', hc, hc', hsame⟩
  · rw [declared_of_error he] at hlines
    cases hlines.1
  · rw [declared_of_ok hc, declared_of_ok hc'] at hlines
    exact ⟨cs, cs', hc, hc', hlines.1, hlines.2, hsame⟩

end ContractAudit
