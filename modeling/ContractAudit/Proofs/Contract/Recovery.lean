import ContractAudit.Proofs.Contract.Reading
import ContractAudit.Proofs.Contract.StateVariable

/-!
# Reading a contract recovers what it is written with

Each reader stops where the part it reads ends: specifiers before a brace or a semicolon, a statement at its
semicolon, a body at its brace. So a run of members is read member by member, and the model of a declaration
holds exactly what the declaration is written with, less the state variables that an equals sign in brackets
hides.
-/

namespace ContractAudit

namespace Syntax

/-! ## Functions and modifiers -/

/-- Specifiers are passed over as far as they go. -/
theorem Specifying.splitSpecifiers_append {run : List Token} (h : Specifying run) (rest : List Token) :
    RawFunction.splitSpecifiers (run ++ rest) =
      (RawFunction.splitSpecifiers rest).map fun (taken, tail) => (run ++ taken, tail) := by
  induction h generalizing rest with
  | nil => simp
  | token hb hs _ ih =>
    obtain ⟨hbrace, -⟩ := Token.isBracket_eq_false.mp hb .brace
    obtain ⟨hparen, -⟩ := Token.isBracket_eq_false.mp hb .paren
    rw [Token.opens, Bracket.opening] at hbrace
    rw [List.cons_append, RawFunction.splitSpecifiers, hbrace, hs, hparen, ih]
    simp [Function.comp_def]
  | @parens opening closing inner rest' ho hc hi _ ih =>
    have hend : (opening.isPunct "\x7b" || opening.isPunct ";") = false := by
      rw [Token.isPunct_of_isPunct ho, Token.isPunct_of_isPunct ho]
      rfl
    have henc : Bracket.paren.enclosed? (inner ++ closing :: (rest' ++ rest)) =
        some ⟨inner, closing, rest' ++ rest⟩ :=
      Bracket.enclosed?_of_nested hi hc
    rw [List.cons_append, List.append_assoc, List.cons_append, RawFunction.splitSpecifiers, hend]
    simp only [Bool.false_eq_true, ↓reduceIte, ho]
    split
    · rename_i he
      rw [henc] at he
      cases he
    · rename_i e he
      rw [henc, Option.some.injEq] at he
      subst he
      simp [ih, Function.comp_def]
  | @squares opening closing inner rest' ho hc _ _ ihi ih =>
    have hopen : (opening.isPunct "\x7b" || opening.isPunct ";") = false ∧
        opening.opens .paren = false := by
      rw [Token.opens_of_opens ho, Token.isPunct_of_isPunct ho, Token.isPunct_of_isPunct ho]
      exact ⟨rfl, rfl⟩
    have hclose : (closing.isPunct "\x7b" || closing.isPunct ";") = false ∧
        closing.opens .paren = false := by
      rw [Token.not_opens_of_closes hc, Token.isPunct_of_isPunct hc, Token.isPunct_of_isPunct hc]
      exact ⟨rfl, rfl⟩
    rw [List.cons_append, List.append_assoc, List.cons_append, RawFunction.splitSpecifiers, hopen.1,
      hopen.2, ihi, RawFunction.splitSpecifiers, hclose.1, hclose.2, ih]
    simp [Function.comp_def]

theorem Specifying.nested {run : List Token} (h : Specifying run) : Nested (fun _ => true) run := by
  induction h with
  | nil => exact .nil _
  | token hb _ _ ih => exact .token hb rfl ih
  | parens ho hc hi _ ih => exact .group ho hc hi ih
  | squares ho hc _ _ ihi ih => exact .group ho hc ihi ih

theorem FunctionHead.isModifier_eq (h : FunctionHead) :
    h.isModifier = (h.keyword.text == "modifier") := by
  cases h with
  | function keyword _ _ =>
    rw [FunctionHead.keyword, (Token.isName_iff.mp keyword.2).2]
    rfl
  | special keyword _ h =>
    have hnot : keyword.isOneOf ["modifier"] = false := Token.not_isOneOf_of_isOneOf h (by decide)
    rw [Token.isOneOf_of_isIdent (Token.isOneOf_iff.mp h).1] at hnot
    simpa [isModifier, FunctionHead.keyword] using hnot
  | modifier keyword _ _ =>
    rw [FunctionHead.keyword, (Token.isName_iff.mp keyword.2).2]
    rfl

namespace FunctionMember

variable (f : FunctionMember)

theorem splitName_tail (rest : List Token) :
    RawFunction.splitName f.head.keyword (f.tail ++ rest) =
      (f.head.name, f.parameterTokens ++ (f.specifiers ++ (f.ending.tokens ++ rest))) := by
  have htail : f.tail ++ rest = f.head.nameTokens ++
      (f.parameterTokens ++ (f.specifiers ++ (f.ending.tokens ++ rest))) := by
    simp [tail]
  rw [htail]
  cases f.head with
  | function keyword name parameters =>
    obtain ⟨hi, ht⟩ := Token.isName_iff.mp keyword.2
    simp [FunctionHead.keyword, FunctionHead.nameTokens, FunctionHead.name, RawFunction.splitName,
      Token.isOneOf_of_isIdent hi, ht, name.2.1]
  | special keyword parameters h =>
    obtain ⟨hi, ht⟩ := Token.isOneOf_iff.mp h
    have hne : keyword.text ≠ "function" ∧ keyword.text ≠ "modifier" := by
      constructor <;> rintro he <;> rw [he] at ht <;> revert ht <;> decide
    simp [FunctionHead.keyword, FunctionHead.nameTokens, FunctionHead.name, RawFunction.splitName,
      Token.isOneOf_of_isIdent hi, hne]
  | modifier keyword name parameters =>
    obtain ⟨hi, ht⟩ := Token.isName_iff.mp keyword.2
    simp [FunctionHead.keyword, FunctionHead.nameTokens, FunctionHead.name, RawFunction.splitName,
      Token.isOneOf_of_isIdent hi, ht, name.2.1]

theorem splitParameters_tail (name : String) (line : Nat) (rest : List Token) :
    RawFunction.splitParameters name line
        (f.parameterTokens ++ (f.specifiers ++ (f.ending.tokens ++ rest))) =
      .ok (f.raw.parameters, f.specifiers ++ (f.ending.tokens ++ rest)) := by
  unfold parameterTokens raw
  cases hp : f.head.parameters? with
  | some g =>
    simp only [g.tokens_append, RawFunction.splitParameters, g.opens, ↓reduceIte, g.enclosed?]
    rfl
  | none =>
    -- The first token behind the name is a specifier or ends the head, and opens no list.
    have hfirst : ∀ t ∈ (f.specifiers ++ (f.ending.tokens ++ rest)).head?, t.opens .paren = false := by
      intro t ht
      cases hs : f.specifiers with
      | nil =>
        rw [hs, List.nil_append] at ht
        cases he : f.ending with
        | semicolon mark =>
          have : mark.1 = t := by simpa [he, Ending.tokens] using ht
          rw [← this, Token.opens, Token.isPunct_of_isPunct mark.2]
          rfl
        | body braces =>
          have : braces.opening = t := by simpa [he, Ending.tokens, Group.tokens] using ht
          rw [← this, Token.opens_of_opens braces.opens]
          rfl
      | cons s ss =>
        have : s = t := by simpa [hs] using ht
        exact f.listed hp t (by rw [hs, this]; rfl)
    cases hrun : f.specifiers ++ (f.ending.tokens ++ rest) with
    | nil => rfl
    | cons t ts =>
      rw [hrun] at hfirst
      simp [RawFunction.splitParameters, hfirst t rfl]

theorem startsFunction_tail (rest : List Token) :
    Member.startsFunction f.head.keyword (f.tail ++ rest) = true := by
  unfold tail parameterTokens
  cases f.head with
  | function keyword _ _ =>
    obtain ⟨hi, ht⟩ := Token.isName_iff.mp keyword.2
    simp [Member.startsFunction, FunctionHead.keyword, Token.isOneOf_of_isIdent hi, ht]
  | special keyword parameters h =>
    simp [Member.startsFunction, FunctionHead.keyword, FunctionHead.nameTokens, FunctionHead.parameters?,
      parameters.tokens_append, h, parameters.opens]
  | modifier keyword _ _ =>
    obtain ⟨hi, ht⟩ := Token.isName_iff.mp keyword.2
    simp [Member.startsFunction, FunctionHead.keyword, Token.isOneOf_of_isIdent hi, ht]

theorem ofTokens_tail (rest : List Token) :
    RawFunction.ofTokens f.head.keyword (f.tail ++ rest) = .ok (f.raw, rest) := by
  have hsplit : RawFunction.splitSpecifiers (f.specifiers ++ (f.ending.tokens ++ rest)) =
      (RawFunction.splitSpecifiers (f.ending.tokens ++ rest)).map fun (taken, tail) =>
        (f.specifiers ++ taken, tail) :=
    f.specifying.splitSpecifiers_append _
  rw [RawFunction.ofTokens, f.splitName_tail, f.splitParameters_tail]
  simp only [RawFunction.ofSpecifiers, hsplit, raw]
  cases f.ending with
  | semicolon mark =>
    have hm : mark.1.isPunct "\x7b" = false := by rw [Token.isPunct_of_isPunct mark.2]; rfl
    simp [Ending.tokens, RawFunction.splitSpecifiers, mark.2, hm, Ending.body?, Ending.line]
  | body braces =>
    have hb : braces.opening.isPunct "\x7b" = true := braces.opens
    simp [Ending.tokens, braces.tokens_append, RawFunction.splitSpecifiers, hb, braces.enclosed?,
      Ending.body?, Ending.line]

end FunctionMember

/-! ## Members -/

/-- A statement is read up to its semicolon. -/
theorem next_statement {t semicolon : Token} {run rest : List Token}
    (hf : t.isOneOf ["function", "modifier", "constructor", "fallback", "receive", "struct", "enum"] =
      false)
    (hn : Nested (! ·.isPunct ";") (t :: run)) (hs : semicolon.isPunct ";" = true) :
    Member.next t (run ++ semicolon :: rest) =
      .ok (Member.ofStatement? t (run ++ semicolon :: rest) (t :: run), rest) := by
  have hstart : Member.startsFunction t (run ++ semicolon :: rest) = false := by
    simp only [Member.startsFunction,
      Token.not_isOneOf_of_subset hf (show ["function", "modifier"] ⊆ _ by simp),
      Token.not_isOneOf_of_subset hf (show ["constructor", "fallback", "receive"] ⊆ _ by simp),
      Bool.false_and, Bool.or_false]
  have hend : statementEnd (t :: (run ++ semicolon :: rest)) = run.length + 1 :=
    statementEnd_of_nested hn hs
  have htake : (t :: (run ++ semicolon :: rest)).take (run.length + 1) = t :: run := by simp
  have hdrop : (run ++ semicolon :: rest).drop (run.length + 1) = rest := by
    simp [← List.drop_drop]
  rw [Member.next, hstart]
  · simp only [Bool.false_eq_true, ↓reduceIte, Member.next.statement, hend, htake, hdrop]
  · intro _ _ _ hc
    rw [Token.not_isOneOf_of_subset hf (show ["struct", "enum"] ⊆ _ by simp)] at hc
    cases hc

/-- What is read where the member is written. -/
def MemberSyntax.member? : MemberSyntax → Option Member
  | stateVariable v => some (.stateVariable v.declared)
  | function f => some (if f.head.isModifier then .modifier f.raw else .function f.raw)
  | compound _ name _ _ => some (.typeName name.1.text)
  | valueType _ name _ _ => some (.typeName name.1.text)
  | directive _ _ _ _ => none

theorem TypeBase.nested (b : TypeBase) {rest : List Token} (h : Nested (! ·.isPunct ";") rest) :
    Nested (! ·.isPunct ";") (b.first :: (b.tail ++ rest)) := by
  cases b with
  | name root path _ =>
    refine .ident root.2.1 (.append (.flatMap fun q _ => ?_) h)
    have hdot : q.1.1.isBracket = false :=
      Token.not_isBracket_of_isPunct q.1.2 fun b => by cases b <;> decide
    exact .token hdot (by rw [Token.isPunct_of_isPunct q.1.2]; rfl) (.ident q.2.2.1 (.nil _))
  | payable root mark =>
    exact .ident (Token.isName_iff.mp root.2).1 (.ident (Token.isName_iff.mp mark.2).1 h)
  | mapping keyword arguments =>
    exact .ident (Token.isName_iff.mp keyword.2).1 ((arguments.nested_tokens _).append h)

theorem VariableMember.nested (v : VariableMember) :
    Nested (! ·.isPunct ";") (v.type.first :: (v.tail ++ v.initialiserTokens)) := by
  have hinit : Nested (! ·.isPunct ";") v.initialiserTokens := by
    unfold initialiserTokens
    cases v.initialiser with
    | none => exact .nil _
    | some i =>
      have hp := Token.not_isPunct_of_isOperator i.isEquals
      exact .token (Token.isBracket_eq_false.mpr fun _ => ⟨hp _, hp _⟩) (by simp [hp]) i.value.2
  have hnamed : Nested (! ·.isPunct ";") v.named :=
    .append (.flatMap fun w _ => w.nested_tokens) (.ident v.name.2.1 (.nil _))
  have hsub : Nested (! ·.isPunct ";") (v.type.subscripts.flatMap (·.tokens)) :=
    .flatMap fun g _ => g.nested_tokens _
  simpa [tail, TypeExpression.first, TypeExpression.tail] using
    v.type.base.nested (hsub.append (hnamed.append hinit))

namespace MemberSyntax

/-- A member is read as far as it is written, and nothing is read if it is not plain. -/
theorem next_tail (m : MemberSyntax) (rest : List Token) :
    Member.next m.first (m.tail ++ rest) = .ok (if m.IsPlain then m.member? else none, rest) := by
  cases m with
  | stateVariable v =>
    have hread : (StateVariable.ofTokens? (v.type.first :: (v.tail ++ v.initialiserTokens))).map
        Member.stateVariable = if v.IsPlain then some (.stateVariable v.declared) else none := by
      by_cases h : v.IsPlain
      · rw [v.stateVariable_of_isPlain h, if_pos h]; rfl
      · rw [v.stateVariable_of_not_isPlain h, if_neg h]; rfl
    have hnot : ∀ words : List String, words ⊆ memberKeywords → v.type.first.isOneOf words = false :=
      fun words hw => Token.not_isOneOf_of_subset v.notKeyword hw
    rw [first, tail, List.append_assoc, List.append_assoc, ← List.append_assoc, List.cons_append,
      List.nil_append, next_statement (hnot _ (by decide)) v.nested v.semicolon.2, Member.ofStatement?,
      hnot _ (by decide), hnot _ (by decide)]
    simp only [Bool.false_and, Bool.false_eq_true, ↓reduceIte, hread]
    rfl
  | function f =>
    unfold first tail Member.next
    simp only [f.startsFunction_tail rest, ↓reduceIte, f.ofTokens_tail, member?, f.head.isModifier_eq]
    rfl
  | compound keyword name fields hk =>
    have hstart : ∀ ts, Member.startsFunction keyword ts = false := by
      intro ts
      rw [Member.startsFunction, Token.not_isOneOf_of_isOneOf hk (by decide),
        Token.not_isOneOf_of_isOneOf hk (by decide)]
      rfl
    unfold first tail Member.next
    simp only [List.cons_append, hstart, Bool.false_eq_true, ↓reduceIte, hk, fields.tokens_append,
      name.2.1, fields.opens, Bool.and_self, fields.enclosed?]
    rfl
  | valueType keyword name definition semicolon =>
    obtain ⟨hi, ht⟩ := Token.isName_iff.mp keyword.2
    have hn : Nested (! ·.isPunct ";") (keyword.1 :: name.1 :: definition.1) :=
      .ident hi (.ident name.2.1 definition.2)
    have hk : keyword.1.isOneOf ["type"] = true := by simp [Token.isOneOf_of_isIdent hi, ht]
    rw [first, tail, List.cons_append, List.append_assoc, List.cons_append, List.nil_append,
      ← List.cons_append, next_statement (Token.not_isOneOf_of_isOneOf hk (by decide)) hn semicolon.2]
    simp [Member.ofStatement?, Token.isOneOf_of_isIdent hi, ht, Member.nameAfter?, name.2.1, member?,
      IsPlain]
  | directive keyword content semicolon hk =>
    obtain ⟨hi, ht⟩ := Token.isOneOf_iff.mp hk
    have hleft : keyword.isOneOf ["event", "error", "struct", "enum", "using"] = true :=
      Token.isOneOf_iff.mpr ⟨hi, by revert ht; simp; grind⟩
    rw [first, tail, List.append_assoc, List.cons_append, List.nil_append,
      next_statement (Token.not_isOneOf_of_isOneOf hk (by decide)) (.ident hi content.2) semicolon.2,
      Member.ofStatement?, Token.not_isOneOf_of_isOneOf hk (by decide), hleft]
    rfl

theorem nested_tokens (m : MemberSyntax) : Nested (fun _ => true) m.tokens := by
  cases m with
  | stateVariable v =>
    simpa [tokens, first, tail] using v.nested.any.append (.semicolon v.semicolon.2)
  | function f =>
    have hkey : f.head.keyword.isIdent = true := by
      cases f.head with
      | function keyword _ _ => exact (Token.isName_iff.mp keyword.2).1
      | special keyword _ h => exact (Token.isOneOf_iff.mp h).1
      | modifier keyword _ _ => exact (Token.isName_iff.mp keyword.2).1
    have hname : Nested (fun _ => true) f.head.nameTokens := by
      cases f.head with
      | function _ name _ => exact .identAny name.2.1 (.nil _)
      | special _ _ _ => exact .nil _
      | modifier _ name _ => exact .identAny name.2.1 (.nil _)
    have hlist : Nested (fun _ => true) f.parameterTokens := by
      unfold FunctionMember.parameterTokens
      cases f.head.parameters? with
      | none => exact .nil _
      | some g => exact g.nested_tokens _
    have hend : Nested (fun _ => true) f.ending.tokens := by
      cases f.ending with
      | semicolon mark => exact .semicolon mark.2
      | body braces => exact braces.nested_tokens _
    exact .identAny hkey (hname.append (hlist.append (f.specifying.nested.append hend)))
  | compound keyword name fields h =>
    exact .identAny (Token.isOneOf_iff.mp h).1 (.identAny name.2.1 (fields.nested_tokens _))
  | valueType keyword name definition semicolon =>
    exact .identAny (Token.isName_iff.mp keyword.2).1
      (.identAny name.2.1 (definition.2.any.append (.semicolon semicolon.2)))
  | directive keyword content semicolon h =>
    exact .identAny (Token.isOneOf_iff.mp h).1 (content.2.any.append (.semicolon semicolon.2))

/-- Members are read one after the other, each as far as it is written. -/
theorem ofTokens_flatMap (ms : List MemberSyntax) :
    Member.ofTokens (ms.flatMap (·.tokens)) =
      .ok ((ms.filter fun m => decide m.IsPlain).filterMap (·.member?)) := by
  induction ms with
  | nil => simp [Member.ofTokens]
  | cons m ms ih =>
    rw [List.flatMap_cons, tokens, List.cons_append, Member.ofTokens]
    split
    · rename_i e he
      rw [next_tail] at he
      cases he
    · rename_i read rest hr
      rw [next_tail, Except.ok.injEq, Prod.mk.injEq] at hr
      obtain ⟨rfl, rfl⟩ := hr
      rw [ih]
      by_cases hm : m.IsPlain
      · cases hread : m.member? <;> simp [hm, hread]
      · simp [hm]

theorem isPlain_of_declaredVariable?_eq_none {m : MemberSyntax} (h : m.declaredVariable? = none) :
    m.IsPlain := by
  cases m with
  | stateVariable v => cases h
  | _ => exact True.intro

/-- A member that is not plain is a state variable, and it is missing from the plain ones. -/
theorem isPlain_of_filterMap_eq {ms : List MemberSyntax}
    (h : (ms.filter fun m => decide m.IsPlain).filterMap (·.declaredVariable?) =
      ms.filterMap (·.declaredVariable?)) : ∀ m ∈ ms, m.IsPlain := by
  induction ms with
  | nil => intro m hm; cases hm
  | cons m ms ih =>
    by_cases hm : m.IsPlain
    · rw [List.filter_cons_of_pos (by simpa using hm)] at h
      refine List.forall_mem_cons.mpr ⟨hm, ih ?_⟩
      cases hv : m.declaredVariable? with
      | none => simpa [List.filterMap_cons, hv] using h
      | some v => simpa [List.filterMap_cons, hv] using h
    · obtain ⟨v, hv⟩ : ∃ v, m.declaredVariable? = some v :=
        Option.ne_none_iff_exists'.mp fun hn => hm (isPlain_of_declaredVariable?_eq_none hn)
      rw [List.filter_cons_of_neg (by simpa using hm)] at h
      have hlen : ((ms.filter fun m => decide m.IsPlain).filterMap (·.declaredVariable?)).length =
          (ms.filterMap (·.declaredVariable?)).length + 1 := by
        rw [h]
        simp [hv]
      have hle : ((ms.filter fun m => decide m.IsPlain).filterMap (·.declaredVariable?)).length ≤
          (ms.filterMap (·.declaredVariable?)).length :=
        (List.filter_sublist.filterMap _).length_le
      omega

/-- What is taken from the members that are read can be taken from the members as they are written. -/
theorem filterMap_member? {β : Type} {read : Member → Option β} {written : MemberSyntax → Option β}
    (h : ∀ m, m.member?.bind read = written m) (ms : List MemberSyntax) :
    (ms.filterMap (·.member?)).filterMap read = ms.filterMap written := by
  rw [List.filterMap_filterMap]
  exact congrArg (ms.filterMap ·) (funext h)

theorem stateVariables_filterMap (ms : List MemberSyntax) :
    Member.stateVariables (ms.filterMap (·.member?)) = ms.filterMap (·.declaredVariable?) := by
  refine filterMap_member? (fun m => ?_) ms
  cases m with
  | function f => cases hm : f.head.isModifier <;> simp [member?, declaredVariable?, hm]
  | _ => rfl

theorem functions_filterMap (ms : List MemberSyntax) :
    (Member.functions (ms.filterMap (·.member?))).map (fun f => (f.name, f.body)) =
      ms.filterMap (·.function?) := by
  rw [Member.functions, List.map_filterMap]
  refine filterMap_member? (fun m => ?_) ms
  cases m with
  | function f => cases hm : f.head.isModifier <;> simp [member?, function?, hm, FunctionMember.raw]
  | _ => rfl

theorem modifiers_filterMap (ms : List MemberSyntax) :
    (Member.modifiers (ms.filterMap (·.member?))).map (·.name) = ms.filterMap (·.modifierName?) := by
  rw [Member.modifiers, List.map_filterMap]
  refine filterMap_member? (fun m => ?_) ms
  cases m with
  | function f => cases hm : f.head.isModifier <;> simp [member?, modifierName?, hm, FunctionMember.raw]
  | _ => rfl

theorem typeNames_filterMap (ms : List MemberSyntax) :
    Member.typeNames (ms.filterMap (·.member?)) = ms.filterMap (·.typeName?) := by
  refine filterMap_member? (fun m => ?_) ms
  cases m with
  | function f => cases hm : f.head.isModifier <;> simp [member?, typeName?, hm]
  | _ => rfl

end MemberSyntax

/-! ## Declarations -/

namespace ContractSyntax

variable (d : ContractSyntax)

/-- The model of what is written. -/
def model (unit : SourceUnit) : Contract :=
  Contract.ofMembers unit d.kind d.name.1 [] (d.members.filterMap (·.member?))

theorem ofTokens_body (unit : SourceUnit) :
    Contract.ofTokens unit d.kind d.name.1 (d.opening :: (d.body ++ [d.closing])) =
      .ok (d.plain.model unit, []) := by
  have hnested : Nested (fun _ => true) d.body := .flatMap fun m _ => m.nested_tokens
  have hheader : Contract.inHeader d.opening = false := by simp [Contract.inHeader, d.opens]
  have henc : Bracket.brace.enclosed? (d.body ++ [d.closing]) = some ⟨d.body, d.closing, []⟩ :=
    Bracket.enclosed?_of_nested hnested d.closes
  have hmembers : Member.ofTokens d.body = .ok (d.plain.members.filterMap (·.member?)) :=
    MemberSyntax.ofTokens_flatMap d.members
  simp only [Contract.ofTokens, List.dropWhile_cons, List.takeWhile_cons, hheader, Bool.false_eq_true,
    ↓reduceIte, d.opens, henc, hmembers]
  rfl

theorem allFrom_tokens (unit : SourceUnit) :
    Contract.allFrom unit none d.tokens = .ok [d.plain.model unit] := by
  obtain ⟨hi, ht⟩ := Token.isName_iff.mp d.keyword.2
  have hkind : ContractKind.ofWord? d.kind.word = some d.kind := by cases d.kind <;> rfl
  have hhead : Contract.headAt? none d.keyword.1 (d.name.1 :: d.opening :: (d.body ++ [d.closing])) =
      some (d.kind, d.name.1, d.opening :: (d.body ++ [d.closing])) := by
    simp [Contract.headAt?, hi, d.name.2.1, ht, hkind]
  rw [tokens, Contract.allFrom]
  split
  · rename_i kind name rest hr
    rw [hhead, Option.some.injEq, Prod.mk.injEq, Prod.mk.injEq] at hr
    obtain ⟨rfl, rfl, rfl⟩ := hr
    split
    · rename_i e he
      rw [ofTokens_body] at he
      cases he
    · rename_i c rest' hc
      rw [ofTokens_body, Except.ok.injEq, Prod.mk.injEq] at hc
      obtain ⟨rfl, rfl⟩ := hc
      rw [Contract.allFrom]
  · rename_i hn
    rw [hhead] at hn
    cases hn

theorem declares_model (unit : SourceUnit) : d.Declares (d.model unit) where
  kind := rfl
  name := rfl
  stateVariables := MemberSyntax.stateVariables_filterMap d.members
  functions := by
    have hraw : ∀ scope, (fun f : Function => (f.name, f.body)) ∘ Function.ofRaw d.kind scope =
        fun raw => (raw.name, raw.body) := fun _ => rfl
    simp only [model, Contract.ofMembers, List.map_map, hraw]
    exact MemberSyntax.functions_filterMap d.members
  modifierNames := MemberSyntax.modifiers_filterMap d.members
  typeNames := MemberSyntax.typeNames_filterMap d.members

theorem declares_iff {c : Contract} (h : d.plain.Declares c) :
    d.Declares c ↔ ∀ m ∈ d.members, m.IsPlain := by
  constructor
  · intro hd
    exact MemberSyntax.isPlain_of_filterMap_eq (h.stateVariables.symm.trans hd.stateVariables)
  · intro hp
    have hall : d.plain = d := by
      rw [plain, List.filter_eq_self.mpr (by simpa using hp)]
    rwa [hall] at h

end ContractSyntax

end Syntax

/-! ## Source texts -/

/-- A text with tokens is read for what its tokens declare. -/
theorem SourceUnit.contracts_of_tokens {unit : SourceUnit} {ts : List Token} {c : Contract}
    {cs : List Contract} (ht : tokenize unit.text = ts)
    (h : Contract.allFrom unit none ts = .ok (c :: cs)) : unit.contracts = .ok (c :: cs) := by
  rw [contracts_eq, ht, h]

namespace Syntax

/-- A text that is written as a declaration is read as this declaration and nothing else, except for
the state variables that are not plain. -/
theorem ContractSyntax.contracts_recovered {unit : SourceUnit} {d : ContractSyntax}
    (ht : tokenize unit.text = d.tokens) :
    ∃ c, unit.contracts = .ok [c] ∧ d.plain.Declares c ∧
      (d.Declares c ↔ ∀ m ∈ d.members, m.IsPlain) := by
  have hread : d.plain.Declares (d.plain.model unit) := d.plain.declares_model unit
  have hcontracts : unit.contracts = .ok [d.plain.model unit] :=
    SourceUnit.contracts_of_tokens ht (d.allFrom_tokens unit)
  exact ⟨d.plain.model unit, hcontracts, hread, d.declares_iff hread⟩

/-! ### Texts of one line -/

def wordAt (text : String) (offset : Nat) : Token := ⟨.ident, text, 1, offset⟩

def markAt (text : String) (offset : Nat) : Token := ⟨.punct, text, 1, offset⟩

def equalsAt (offset : Nat) : Token := ⟨.operator, "=", 1, offset⟩

def numberAt (text : String) (offset : Nat) : Token := ⟨.number, text, 1, offset⟩

def groupAt (b : Bracket) (first last : Nat) (inner : List Token)
    (nested : Nested (fun _ => true) inner) : Group b where
  opening := markAt b.opening first
  inner := inner
  closing := markAt b.closing last
  opens := by simp [markAt, Token.opens, Token.isPunct]
  closes := by simp [markAt, Token.closes, Token.isPunct]
  nested := nested

/-- A member of every kind. -/
def everyMember : SourceUnit where
  name := "C.sol"
  path := ""
  text := "contract C \x7b uint[2] override(A) x = f(1); function g() \x7b \x7d modifier m \x7b _; \x7d " ++
    "receive() external; type T is uint; event E(); \x7d"

def everyMemberSyntax : ContractSyntax where
  kind := .contract
  keyword := ⟨wordAt "contract" 0, rfl⟩
  name := ⟨wordAt "C" 9, by decide⟩
  opening := markAt "\x7b" 11
  members := [
    .stateVariable {
      type := ⟨.name ⟨wordAt "uint" 13, by decide⟩ [] (by decide),
        [groupAt .square 17 19 [numberAt "2" 18] (.token (by decide) rfl (.nil _))]⟩
      words := [.override ⟨wordAt "override" 21, rfl⟩
        (groupAt .paren 29 31 [wordAt "A" 30] (.token (by decide) rfl (.nil _)))]
      name := ⟨wordAt "x" 33, by decide⟩
      initialiser := some ⟨equalsAt 35, ⟨wordAt "f" 37 :: (groupAt .paren 38 40 [numberAt "1" 39]
        (.token (by decide) rfl (.nil _))).tokens, .ident rfl (Group.nested_tokens _ _)⟩, rfl⟩
      semicolon := ⟨markAt ";" 41, rfl⟩
      notKeyword := by decide
      notWord := by decide },
    .function {
      head := .function ⟨wordAt "function" 43, rfl⟩ ⟨wordAt "g" 52, by decide⟩
        (groupAt .paren 53 54 [] (.nil _))
      specifiers := []
      ending := .body (groupAt .brace 56 58 [] (.nil _))
      specifying := .nil
      listed := nofun },
    .function {
      head := .modifier ⟨wordAt "modifier" 60, rfl⟩ ⟨wordAt "m" 69, by decide⟩ none
      specifiers := []
      ending := .body (groupAt .brace 71 76 [wordAt "_" 73, markAt ";" 74]
        (.token (by decide) rfl (.token (by decide) rfl (.nil _))))
      specifying := .nil
      listed := by simp },
    .function {
      head := .special (wordAt "receive" 78) (groupAt .paren 85 86 [] (.nil _)) (by decide)
      specifiers := [wordAt "external" 88]
      ending := .semicolon ⟨markAt ";" 96, rfl⟩
      specifying := .token (by decide) rfl .nil
      listed := nofun },
    .valueType ⟨wordAt "type" 98, rfl⟩ ⟨wordAt "T" 103, by decide⟩
      ⟨[wordAt "is" 105, wordAt "uint" 108], .ident rfl (.ident rfl (.nil _))⟩ ⟨markAt ";" 112, rfl⟩,
    .directive (wordAt "event" 114)
      ⟨wordAt "E" 120 :: (groupAt .paren 121 122 [] (.nil _)).tokens,
        .ident rfl (Group.nested_tokens _ _)⟩
      ⟨markAt ";" 123, rfl⟩ (by decide)]
  closing := markAt "\x7d" 125
  opens := rfl
  closes := rfl

set_option maxRecDepth 4000 in
theorem contracts_recovered_everyMember :
    ∃ c, everyMember.contracts = .ok [c] ∧
      c.stateVariables = [⟨"x", "uint[2]", .internal, false, false, "f(1)", 1⟩] ∧
      c.functions.map (fun f => (f.name, f.body)) = [("g", some []), ("receive", none)] ∧
      c.modifierNames = ["m"] ∧ c.typeNames = ["T"] := by
  have ht : tokenize everyMember.text = everyMemberSyntax.tokens := by
    have hs : everyMember.text = String.ofList (_ ++ _) := (String.ofList_append ..).symm
    rw [tokenize, hs, String.toList_ofList]
    decide +kernel
  have hp : ∀ m ∈ everyMemberSyntax.members, m.IsPlain := by decide
  obtain ⟨c, hc, -, hiff⟩ := ContractSyntax.contracts_recovered ht
  have hd := hiff.mpr hp
  refine ⟨c, hc, ?_⟩
  rw [hd.stateVariables, hd.functions, hd.modifierNames, hd.typeNames]
  decide +kernel

/-- An equals sign stands in the type of `y` and among the bases of `x`. -/
def equalsInBrackets : SourceUnit where
  name := "C.sol"
  path := ""
  text := "contract C \x7b uint[n = 1] y; uint override(a = b) x; \x7d"

def equalsInBracketsSyntax : ContractSyntax where
  kind := .contract
  keyword := ⟨wordAt "contract" 0, rfl⟩
  name := ⟨wordAt "C" 9, by decide⟩
  opening := markAt "\x7b" 11
  members := [
    .stateVariable {
      type := ⟨.name ⟨wordAt "uint" 13, by decide⟩ [] (by decide),
        [groupAt .square 17 23 [wordAt "n" 18, equalsAt 20, numberAt "1" 22]
          (.token (by decide) rfl (.token (by decide) rfl (.token (by decide) rfl (.nil _))))]⟩
      words := []
      name := ⟨wordAt "y" 25, by decide⟩
      initialiser := none
      semicolon := ⟨markAt ";" 26, rfl⟩
      notKeyword := by decide
      notWord := by decide },
    .stateVariable {
      type := ⟨.name ⟨wordAt "uint" 28, by decide⟩ [] (by decide), []⟩
      words := [.override ⟨wordAt "override" 33, rfl⟩
        (groupAt .paren 41 47 [wordAt "a" 42, equalsAt 44, wordAt "b" 46]
          (.token (by decide) rfl (.token (by decide) rfl (.token (by decide) rfl (.nil _)))))]
      name := ⟨wordAt "x" 49, by decide⟩
      initialiser := none
      semicolon := ⟨markAt ";" 50, rfl⟩
      notKeyword := by decide
      notWord := by decide }]
  closing := markAt "\x7d" 52
  opens := rfl
  closes := rfl

set_option maxRecDepth 4000 in
/-- The variables are taken to end at the equals sign, where neither has a type and a name. -/
theorem equals_hides_variables :
    tokenize equalsInBrackets.text = equalsInBracketsSyntax.tokens ∧
      ¬ ∃ c, equalsInBrackets.contracts = .ok [c] ∧ equalsInBracketsSyntax.Declares c := by
  have hs : equalsInBrackets.text = String.ofList _ := rfl
  have hread : equalsInBrackets.contracts.toOption.map (fun cs => cs.map (·.stateVariables)) =
      some [[]] := by
    rw [SourceUnit.contracts, tokenize, hs, String.toList_ofList]
    decide +kernel
  constructor
  · rw [tokenize, hs, String.toList_ofList]
    decide +kernel
  · rintro ⟨c, hc, hd⟩
    rw [hc] at hread
    have hnone : c.stateVariables = [] := by simpa [Except.toOption] using hread
    rw [hd.stateVariables] at hnone
    cases hnone

end Syntax

end ContractAudit
