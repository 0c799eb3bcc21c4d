import ContractAudit.Proofs.Contract.Syntax
import Mathlib.Data.List.TakeWhile

/-!
# Reading state variables

A type is read as far as it is written, up to the words and the name that follow it, and so the state
variable that a statement declares is the one it is written as. This fails in one case: the value is taken
to start at the first equals sign, brackets or not. A type or a list of bases that holds an equals sign is
cut before its bracket closes, and then nothing is read.
-/

namespace ContractAudit

namespace Token

variable {t : Token}

theorem isName_iff {word : String} : t.isName word = true ↔ t.isIdent = true ∧ t.text = word := by
  simp [isName, isIdent]

theorem isOneOf_iff {words : List String} :
    t.isOneOf words = true ↔ t.isIdent = true ∧ t.text ∈ words := by
  simp [isOneOf, isIdent]

theorem not_isOneOf_of_subset {words wider : List String} (h : t.isOneOf wider = false)
    (hw : words ⊆ wider) : t.isOneOf words = false := by
  rw [Bool.eq_false_iff] at h ⊢
  intro ht
  obtain ⟨hi, hm⟩ := isOneOf_iff.mp ht
  exact h (isOneOf_iff.mpr ⟨hi, hw hm⟩)

theorem not_isOneOf_of_isOneOf {words others : List String} (h : t.isOneOf words = true)
    (hd : ∀ word ∈ words, word ∉ others) : t.isOneOf others = false := by
  rw [Bool.eq_false_iff]
  intro ht
  exact hd _ (isOneOf_iff.mp h).2 (isOneOf_iff.mp ht).2

theorem isOneOf_of_isIdent (h : t.isIdent = true) (words : List String) :
    t.isOneOf words = words.contains t.text := by
  rw [isOneOf, ← isIdent, h, Bool.true_and]

theorem not_isOperator_of_isIdent (h : t.isIdent = true) (text : String) :
    t.isOperator text = false := by
  have hk : t.kind = .ident := by simpa [isIdent] using h
  simp [isOperator, hk]

theorem not_isOperator_of_isPunct {text : String} (h : t.isPunct text = true) (sign : String) :
    t.isOperator sign = false := by
  simp [isOperator, (isPunct_iff.mp h).1]

theorem not_isPunct_of_isOperator {sign : String} (h : t.isOperator sign = true) (text : String) :
    t.isPunct text = false := by
  have hk : t.kind = .operator := by
    simp only [isOperator, Bool.and_eq_true, beq_iff_eq] at h
    exact h.1
  simp [isPunct, hk]

theorem not_isBracket_of_isSemicolon (h : t.isPunct ";" = true) : t.isBracket = false :=
  not_isBracket_of_isPunct h fun b => by cases b <;> decide

end Token

/-! ## Nested parts -/

namespace Nested

variable {outside : Token → Bool} {t : Token} {ts : List Token}

/-- A name may stand wherever no mark is asked for. -/
theorem ident {text : String} (hi : t.isIdent = true) (h : Nested (! ·.isPunct text) ts) :
    Nested (! ·.isPunct text) (t :: ts) :=
  .token (Token.not_isBracket_of_isIdent hi) (by simp [Token.not_isPunct_of_isIdent hi]) h

theorem identAny (hi : t.isIdent = true) (h : Nested (fun _ => true) ts) :
    Nested (fun _ => true) (t :: ts) :=
  .token (Token.not_isBracket_of_isIdent hi) rfl h

theorem semicolon (ht : t.isPunct ";" = true) : Nested (fun _ => true) [t] :=
  .token (Token.not_isBracket_of_isSemicolon ht) rfl (.nil _)

end Nested

namespace Syntax

theorem Group.tokens_append {b : Bracket} (g : Group b) (rest : List Token) :
    g.tokens ++ rest = g.opening :: (g.inner ++ g.closing :: rest) := by
  simp [tokens]

theorem Group.enclosed? {b : Bracket} (g : Group b) (rest : List Token) :
    b.enclosed? (g.inner ++ g.closing :: rest) = some ⟨g.inner, g.closing, rest⟩ :=
  Bracket.enclosed?_of_nested g.nested g.closes

theorem Group.nested_tokens {b : Bracket} (g : Group b) (outside : Token → Bool) :
    Nested outside g.tokens :=
  .group g.opens g.closes g.nested (.nil outside)

/-! ## Equals signs -/

theorem hasEquals_append {ts ts' : List Token} :
    HasEquals (ts ++ ts') ↔ HasEquals ts ∨ HasEquals ts' := by
  simp only [HasEquals, List.mem_append, or_and_right, exists_or]

theorem hasEquals_cons_of_isIdent {t : Token} {ts : List Token} (h : t.isIdent = true) :
    HasEquals (t :: ts) ↔ HasEquals ts := by
  simp [HasEquals, Token.not_isOperator_of_isIdent h]

theorem takeWhile_append_of_not_hasEquals {ts : List Token} (h : ¬ HasEquals ts) (rest : List Token) :
    (ts ++ rest).takeWhile (! ·.isOperator "=") = ts ++ rest.takeWhile (! ·.isOperator "=") := by
  refine List.takeWhile_append_of_pos fun t ht => ?_
  rw [Bool.not_eq_true', Bool.eq_false_iff]
  exact fun he => h ⟨t, ht, he⟩

theorem takeWhile_cons_of_isIdent {t : Token} (h : t.isIdent = true) (rest : List Token) :
    (t :: rest).takeWhile (! ·.isOperator "=") = t :: rest.takeWhile (! ·.isOperator "=") :=
  List.takeWhile_cons_of_pos (by rw [Token.not_isOperator_of_isIdent h]; rfl)

/-! ## Types -/

/-- What may follow the base of a type: a subscript, a word or a name. -/
def EndsBase (rest : List Token) : Prop :=
  ∀ t ∈ rest.head?, t.isPunct "." = false ∧ t.isName "payable" = false

/-- What may follow a type: a word or a name. -/
def StartsWord (rest : List Token) : Prop :=
  ∀ t ∈ rest.head?, t.isIdent = true ∧ t.text ≠ "payable"

theorem Group.endsBase (g : Group .square) (rest : List Token) : EndsBase (g.opening :: rest) := by
  intro t ht
  have hg : g.opening = t := by simpa using ht
  subst hg
  refine ⟨by rw [Token.isPunct_of_isPunct g.opens]; rfl, ?_⟩
  rw [Token.isName, ← Token.isIdent, Token.not_isIdent_of_isPunct g.opens, Bool.false_and]

theorem StartsWord.endsBase {gs : List (Group .square)} {rest : List Token} (h : StartsWord rest) :
    EndsBase (gs.flatMap (·.tokens) ++ rest) := by
  cases gs with
  | nil =>
    intro t ht
    obtain ⟨hi, hp⟩ := h t ht
    refine ⟨Token.not_isPunct_of_isIdent hi _, ?_⟩
    rw [Bool.eq_false_iff]
    exact fun hn => hp (Token.isName_iff.mp hn).2
  | cons g gs =>
    rw [List.flatMap_cons, List.append_assoc, g.tokens_append]
    exact g.endsBase _

theorem splitSubscripts_tokens (gs : List (Group .square)) {rest : List Token} (h : StartsWord rest) :
    splitSubscripts (gs.flatMap (·.tokens) ++ rest) = some (gs.flatMap (·.tokens), rest) := by
  induction gs with
  | nil =>
    cases rest with
    | nil => simp [splitSubscripts]
    | cons t ts =>
      have ht : t.opens .square = false := Token.not_isPunct_of_isIdent (h t rfl).1 _
      simp [splitSubscripts, ht]
  | cons g gs ih =>
    rw [List.flatMap_cons, List.append_assoc, g.tokens_append, splitSubscripts, if_pos g.opens]
    split
    · rename_i he
      rw [g.enclosed?] at he
      cases he
    · rename_i e he
      rw [g.enclosed?, Option.some.injEq] at he
      subst he
      simp only [ih, Option.map_some, g.tokens_append, List.cons_append]

theorem splitQualifiers_tokens (path : List (Mark "." × Identifier)) {rest : List Token}
    (h : ∀ t ∈ rest.head?, t.isPunct "." = false) :
    splitQualifiers ((path.flatMap fun q => [q.1.1, q.2.1]) ++ rest) =
      (path.flatMap fun q => [q.1.1, q.2.1], rest) := by
  induction path with
  | nil =>
    match rest with
    | [] => rfl
    | [_] => rfl
    | t :: _ :: _ => simp [splitQualifiers, h t rfl]
  | cons q path ih =>
    simp only [List.flatMap_cons, List.cons_append, List.nil_append, splitQualifiers, q.1.2, q.2.2.1,
      Bool.and_self, ↓reduceIte, ih]

theorem EndsBase.splitPayable {rest : List Token} (h : EndsBase rest) :
    splitPayable rest = ([], rest) := by
  cases rest with
  | nil => rfl
  | cons t ts => simp [ContractAudit.splitPayable, (h t rfl).2]

/-- The base of a type is passed over; the subscripts decide whether there is a type. -/
theorem TypeBase.splitType?_append (b : TypeBase) {rest : List Token} (h : EndsBase rest) :
    splitType? (b.first :: (b.tail ++ rest)) =
      (splitSubscripts rest).map fun (taken, rest) => (b.first :: (b.tail ++ taken), rest) := by
  cases b with
  | name root path notMapping =>
    have hq := splitQualifiers_tokens path fun t ht => (h t ht).1
    simp only [first, tail, splitType?, root.2.1, Bool.not_true, Bool.false_eq_true, ↓reduceIte,
      beq_iff_eq, notMapping, hq, h.splitPayable, ite_self]
    cases splitSubscripts rest with
    | none => rfl
    | some parts => simp
  | payable root mark =>
    obtain ⟨hi, hroot⟩ := Token.isName_iff.mp root.2
    obtain ⟨hmark, -⟩ := Token.isName_iff.mp mark.2
    have hq : splitQualifiers (mark.1 :: rest) = ([], mark.1 :: rest) :=
      splitQualifiers_tokens [] fun t ht => by
        cases ht
        exact Token.not_isPunct_of_isIdent hmark _
    simp only [first, tail, List.cons_append, List.nil_append, splitType?, hi, hroot,
      show ("address" == "mapping") = false from rfl, beq_self_eq_true, Bool.not_true, Bool.false_eq_true,
      ↓reduceIte, hq, splitPayable, mark.2]
    cases splitSubscripts rest <;> rfl
  | mapping keyword arguments =>
    obtain ⟨hi, hk⟩ := Token.isName_iff.mp keyword.2
    simp only [first, tail, arguments.tokens_append, splitType?, hi, hk, Bool.not_true,
      Bool.false_eq_true, ↓reduceIte, beq_self_eq_true, arguments.opens, arguments.enclosed?,
      Option.bind_eq_bind, Option.bind_some]
    cases splitSubscripts rest <;> rfl

theorem TypeExpression.splitType?_tokens (T : TypeExpression) {rest : List Token} (h : StartsWord rest) :
    splitType? (T.tokens ++ rest) = some (T.tokens, rest) := by
  rw [tokens, tail, List.cons_append, List.append_assoc, first, T.base.splitType?_append h.endsBase,
    splitSubscripts_tokens _ h]
  rfl

/-! ## State variables -/

namespace VariableWord

theorem token_spec (w : VariableWord) : w.token.isIdent = true ∧ w.token.text ∈ variableSpecifiers := by
  cases w with
  | plain t h => exact Token.isOneOf_iff.mp h
  | override keyword bases =>
    obtain ⟨hi, ht⟩ := Token.isName_iff.mp keyword.2
    exact ⟨hi, by rw [token, ht]; decide⟩

theorem nested_tokens (w : VariableWord) : Nested (! ·.isPunct ";") w.tokens := by
  cases w with
  | plain t h => exact .ident (Token.isOneOf_iff.mp h).1 (.nil _)
  | override keyword bases => exact .ident (Token.isName_iff.mp keyword.2).1 (bases.nested_tokens _)

theorem topWords_ident {t : Token} (h : t.isIdent = true) (rest : List Token) :
    topWords 0 (t :: rest) = t.text :: topWords 0 rest := by
  have hb := Token.isBracket_eq_false.mp (Token.not_isBracket_of_isIdent h) .paren
  simp [topWords, hb, h]

/-- A list of bases stands in parentheses and adds no word. -/
theorem topWords_tokens (w : VariableWord) (rest : List Token) :
    topWords 0 (w.tokens ++ rest) = w.token.text :: topWords 0 rest := by
  cases w with
  | plain t h => exact topWords_ident (Token.isOneOf_iff.mp h).1 rest
  | override keyword bases =>
    have hc := Token.not_opens_of_closes bases.closes .paren
    rw [tokens, List.cons_append, bases.tokens_append, topWords_ident (Token.isName_iff.mp keyword.2).1]
    simp only [topWords, bases.opens, ↓reduceIte, Int.zero_add,
      topWords_append_of_nested bases.nested Int.one_pos, hc, bases.closes, Bool.false_eq_true,
      Int.sub_self]
    rfl

theorem topWords_flatMap (ws : List VariableWord) (rest : List Token) :
    topWords 0 (ws.flatMap (·.tokens) ++ rest) = ws.map (·.token.text) ++ topWords 0 rest := by
  induction ws with
  | nil => rfl
  | cons w ws ih => rw [List.flatMap_cons, List.append_assoc, topWords_tokens, ih]; rfl

end VariableWord

namespace VariableMember

variable (v : VariableMember)

theorem startsWord_named : StartsWord v.named := by
  intro t ht
  cases hw : v.words with
  | nil =>
    have : v.name.1 = t := by simpa [named, hw] using ht
    rw [← this]
    exact ⟨v.name.2.1, fun hp => v.notWord (by simp [hp])⟩
  | cons w ws =>
    have : w.token = t := by
      cases w <;> simpa [named, hw, VariableWord.tokens, VariableWord.token] using ht
    obtain ⟨hi, hm⟩ := w.token_spec
    rw [← this]
    refine ⟨hi, fun hp => ?_⟩
    rw [hp] at hm
    revert hm
    decide

theorem typedName :
    TypedName.ofTokens? variableSpecifiers (v.type.tokens ++ v.named) =
      some ⟨Token.render v.type.tokens, v.name.1.text,
        v.words.map (·.token.text) ++ [v.name.1.text]⟩ := by
  have hwords : topWords 0 v.named = v.words.map (·.token.text) ++ [v.name.1.text] := by
    rw [named, VariableWord.topWords_flatMap, VariableWord.topWords_ident v.name.2.1]
    rfl
  -- Every word is a specifier, and the name is none.
  have hnames : (v.words.map (·.token.text) ++ [v.name.1.text]).filter
      (! variableSpecifiers.contains ·) = [v.name.1.text] := by
    have hname : v.name.1.text ∉ variableSpecifiers := fun hm => v.notWord (List.mem_cons_of_mem _ hm)
    have hspec : ∀ word ∈ v.words.map (·.token.text), ¬ (! variableSpecifiers.contains word) = true := by
      intro word hword
      obtain ⟨w, -, rfl⟩ := List.mem_map.mp hword
      simpa using w.token_spec.2
    rw [List.filter_append, List.filter_eq_nil_iff.mpr hspec]
    simp [hname]
  simp only [TypedName.ofTokens?, v.type.splitType?_tokens v.startsWord_named, Option.bind_eq_bind,
    Option.bind_some, hwords, hnames]
  rfl

/-- The name says neither the visibility nor anything else that the words say. -/
theorem name_ne {word : String} (h : word ∈ variableSpecifiers) : word ≠ v.name.1.text := by
  rintro rfl
  exact v.notWord (List.mem_cons_of_mem _ h)

theorem visibility_eq :
    (v.words.map (·.token.text) ++ [v.name.1.text]).findSome? Visibility.ofWord? =
      v.words.findSome? fun w => Visibility.ofWord? w.token.text := by
  have hname : Visibility.ofWord? v.name.1.text = none := by
    rw [Visibility.ofWord?, List.find?_eq_none]
    intro x _
    rw [beq_iff_eq]
    exact v.name_ne (by cases x <;> decide)
  simp [List.findSome?_append, List.findSome?_map, hname, Function.comp_def]

theorem contains_eq {word : String} (h : word ∈ variableSpecifiers) :
    (v.words.map (·.token.text) ++ [v.name.1.text]).contains word =
      v.words.any (·.token.text == word) := by
  rw [Bool.eq_iff_iff, List.contains_iff_mem, List.mem_append, List.mem_map, List.mem_singleton,
    List.any_eq_true, or_iff_left (v.name_ne h)]
  simp only [beq_iff_eq]

/-- The run of a member: its typed name and its value. -/
theorem run_eq : v.type.first :: (v.tail ++ v.initialiserTokens) =
    (v.type.tokens ++ v.named) ++ v.initialiserTokens := by
  simp [tail, TypeExpression.tokens]

theorem stateVariable_of_isPlain (h : v.IsPlain) :
    StateVariable.ofTokens? (v.type.first :: (v.tail ++ v.initialiserTokens)) = some v.declared := by
  -- No equals sign stands before the value, and so the run is cut where the value starts.
  have hplain : ∀ t ∈ v.type.tokens ++ v.named, (! t.isOperator "=") = true := by
    intro t ht
    rw [named, ← List.append_assoc, List.mem_append, List.mem_singleton] at ht
    rcases ht with ht | rfl
    · rw [Bool.not_eq_true', Bool.eq_false_iff]
      exact fun he => h ⟨t, ht, he⟩
    · rw [Token.not_isOperator_of_isIdent v.name.2.1]; rfl
  have hcut : v.initialiserTokens.takeWhile (! ·.isOperator "=") = [] ∧
      Token.render ((v.initialiserTokens.dropWhile (! ·.isOperator "=")).drop 1) =
        (v.initialiser.map fun i => Token.render i.value.1).getD "" := by
    unfold initialiserTokens
    cases v.initialiser with
    | none => exact ⟨rfl, rfl⟩
    | some i => simp [i.isEquals]
  have hname : v.name.1.text.isEmpty = false := by
    rw [Bool.eq_false_iff]
    intro he
    exact v.name.2.2 (by simpa using he)
  have hhead : ((v.type.tokens ++ v.named) ++ v.initialiserTokens).head? = some v.type.first := rfl
  rw [v.run_eq]
  simp only [StateVariable.ofTokens?, hhead, List.takeWhile_append_of_pos hplain, hcut.1, List.append_nil,
    v.typedName, List.dropWhile_append_of_pos hplain, hcut.2, v.visibility_eq, hname,
    v.contains_eq (show "constant" ∈ variableSpecifiers by decide),
    v.contains_eq (show "immutable" ∈ variableSpecifiers by decide), Option.bind_eq_bind, Option.bind_some,
    Bool.false_eq_true, ↓reduceIte]
  rfl

end VariableMember

/-! ## Hidden state variables -/

theorem Group.not_isOperator_ends {b : Bracket} (g : Group b) (sign : String) :
    g.opening.isOperator sign = false ∧ g.closing.isOperator sign = false :=
  ⟨Token.not_isOperator_of_isPunct g.opens sign, Token.not_isOperator_of_isPunct g.closes sign⟩

/-- An equals sign in a group cuts it before its end. -/
theorem Group.takeWhile_tokens {b : Bracket} {g : Group b} (h : HasEquals g.tokens) (rest : List Token) :
    (g.tokens ++ rest).takeWhile (! ·.isOperator "=") =
      g.opening :: g.inner.takeWhile (! ·.isOperator "=") := by
  obtain ⟨ho, hc⟩ := g.not_isOperator_ends "="
  have hin : HasEquals g.inner := by simpa [HasEquals, tokens, ho, hc] using h
  have hcut : ¬ (g.inner.takeWhile (! ·.isOperator "=")).length = g.inner.length := by
    intro hlen
    obtain ⟨t, ht, he⟩ := hin
    have hself := List.IsPrefix.eq_of_length ⟨_, List.takeWhile_append_dropWhile⟩ hlen
    have hall := List.takeWhile_eq_self_iff.mp hself t ht
    rw [he] at hall
    cases hall
  rw [g.tokens_append, List.takeWhile_cons, ho, List.takeWhile_append, if_neg hcut]
  rfl

theorem Group.enclosed?_takeWhile {b : Bracket} (g : Group b) (p : Token → Bool) :
    b.enclosed? (g.inner.takeWhile p) = none :=
  Bracket.enclosed?_prefix_of_nested g.nested ⟨_, List.takeWhile_append_dropWhile⟩ b

/-- Subscripts that hold an equals sign are not closed before it. -/
theorem splitSubscripts_takeWhile {gs : List (Group .square)} (h : HasEquals (gs.flatMap (·.tokens)))
    (rest : List Token) :
    splitSubscripts ((gs.flatMap (·.tokens) ++ rest).takeWhile (! ·.isOperator "=")) = none := by
  induction gs with
  | nil => obtain ⟨_, ht, _⟩ := h; cases ht
  | cons g gs ih =>
    rw [List.flatMap_cons] at h
    rw [List.flatMap_cons, List.append_assoc]
    by_cases hg : HasEquals g.tokens
    · rw [g.takeWhile_tokens hg, splitSubscripts, if_pos g.opens]
      split
      · rfl
      · rename_i e henc
        rw [g.enclosed?_takeWhile] at henc
        cases henc
    · rw [takeWhile_append_of_not_hasEquals hg, g.tokens_append, splitSubscripts, if_pos g.opens]
      split
      · rfl
      · rename_i e henc
        rw [g.enclosed?, Option.some.injEq] at henc
        subst henc
        rw [ih ((hasEquals_append.mp h).resolve_left hg)]
        rfl

/-- A base that holds an equals sign is a mapping that is cut before its parenthesis closes. -/
theorem TypeBase.splitType?_takeWhile {b : TypeBase} (h : HasEquals (b.first :: b.tail))
    (rest : List Token) :
    splitType? ((b.first :: (b.tail ++ rest)).takeWhile (! ·.isOperator "=")) = none := by
  cases b with
  | name root path notMapping =>
    exfalso
    rw [first, tail, hasEquals_cons_of_isIdent root.2.1] at h
    obtain ⟨t, ht, he⟩ := h
    obtain ⟨q, -, hq⟩ := List.mem_flatMap.mp ht
    rw [List.mem_cons, List.mem_singleton] at hq
    rcases hq with rfl | rfl
    · rw [Token.not_isOperator_of_isPunct q.1.2] at he
      cases he
    · rw [Token.not_isOperator_of_isIdent q.2.2.1] at he
      cases he
  | payable root mark =>
    exfalso
    rw [first, tail, hasEquals_cons_of_isIdent (Token.isName_iff.mp root.2).1,
      hasEquals_cons_of_isIdent (Token.isName_iff.mp mark.2).1] at h
    obtain ⟨_, ht, _⟩ := h
    cases ht
  | mapping keyword arguments =>
    obtain ⟨hi, hk⟩ := Token.isName_iff.mp keyword.2
    rw [first, tail, hasEquals_cons_of_isIdent hi] at h
    rw [first, tail, takeWhile_cons_of_isIdent hi, arguments.takeWhile_tokens h]
    simp [splitType?, hi, hk, arguments.opens, arguments.enclosed?_takeWhile]

/-- A type that holds an equals sign is cut before it ends, and what is left is no type. -/
theorem TypeExpression.splitType?_takeWhile {T : TypeExpression} (h : HasEquals T.tokens)
    (rest : List Token) :
    splitType? ((T.tokens ++ rest).takeWhile (! ·.isOperator "=")) = none := by
  have hrun : T.tokens = (T.base.first :: T.base.tail) ++ T.subscripts.flatMap (·.tokens) := by
    simp [tokens, first, tail]
  rw [hrun, hasEquals_append] at h
  rw [hrun, List.append_assoc]
  by_cases hb : HasEquals (T.base.first :: T.base.tail)
  · exact T.base.splitType?_takeWhile hb _
  · have hsub := h.resolve_left hb
    have hends : EndsBase ((T.subscripts.flatMap (·.tokens) ++ rest).takeWhile (! ·.isOperator "=")) := by
      cases hs : T.subscripts with
      | nil =>
        rw [hs] at hsub
        obtain ⟨_, ht, _⟩ := hsub
        cases ht
      | cons g gs =>
        rw [List.flatMap_cons, List.append_assoc, g.tokens_append, List.takeWhile_cons,
          (g.not_isOperator_ends "=").1]
        exact g.endsBase _
    rw [takeWhile_append_of_not_hasEquals hb, List.cons_append, T.base.splitType?_append hends,
      splitSubscripts_takeWhile hsub]
    rfl

/-- Before an equals sign among the bases of a variable stand words only. -/
theorem VariableWord.mem_topWords_takeWhile {ws : List VariableWord}
    (h : HasEquals (ws.flatMap (·.tokens))) (rest : List Token) :
    ∀ word ∈ topWords 0 ((ws.flatMap (·.tokens) ++ rest).takeWhile (! ·.isOperator "=")),
      word ∈ variableSpecifiers := by
  induction ws with
  | nil => obtain ⟨_, ht, _⟩ := h; cases ht
  | cons w ws ih =>
    rw [List.flatMap_cons, hasEquals_append] at h
    rw [List.flatMap_cons, List.append_assoc]
    by_cases hw : HasEquals w.tokens
    · have hmem := w.token_spec.2
      cases w with
      | plain s hs =>
        exfalso
        rw [tokens, hasEquals_cons_of_isIdent (Token.isOneOf_iff.mp hs).1] at hw
        obtain ⟨_, ht, _⟩ := hw
        cases ht
      | override keyword bases =>
        have hi := (Token.isName_iff.mp keyword.2).1
        rw [tokens, hasEquals_cons_of_isIdent hi] at hw
        have hinner : topWords 1 (bases.inner.takeWhile (! ·.isOperator "=")) = [] :=
          topWords_prefix_of_nested bases.nested ⟨_, List.takeWhile_append_dropWhile⟩ Int.one_pos
        rw [tokens, List.cons_append, takeWhile_cons_of_isIdent hi, bases.takeWhile_tokens hw,
          topWords_ident hi]
        simpa [topWords, bases.opens, hinner, token] using hmem
    · rw [takeWhile_append_of_not_hasEquals hw, topWords_tokens]
      exact List.forall_mem_cons.mpr ⟨w.token_spec.2, ih (h.resolve_left hw)⟩

/-- An equals sign in its type or among its bases hides a variable. -/
theorem VariableMember.stateVariable_of_not_isPlain {v : VariableMember} (h : ¬ v.IsPlain) :
    StateVariable.ofTokens? (v.type.first :: (v.tail ++ v.initialiserTokens)) = none := by
  rw [IsPlain, not_not, hasEquals_append] at h
  have hhead : (v.type.tokens ++ (v.named ++ v.initialiserTokens)).head? = some v.type.first := rfl
  rw [v.run_eq, List.append_assoc]
  by_cases hT : HasEquals v.type.tokens
  · simp only [StateVariable.ofTokens?, hhead, TypedName.ofTokens?, v.type.splitType?_takeWhile hT,
      Option.bind_eq_bind, Option.bind_some, Option.bind_none]
  · -- The type is whole, but no word before the equals sign is a name.
    have hwords := h.resolve_left hT
    have hmem := VariableWord.mem_topWords_takeWhile hwords ([v.name.1] ++ v.initialiserTokens)
    rw [← List.append_assoc, ← named] at hmem
    have hstart : StartsWord ((v.named ++ v.initialiserTokens).takeWhile (! ·.isOperator "=")) := by
      intro t ht
      obtain ⟨x, xs, hx⟩ := List.exists_cons_of_ne_nil (show v.named ≠ [] by simp [named])
      rw [hx, List.head?_takeWhile, Option.mem_def, Option.filter_eq_some_iff] at ht
      exact v.startsWord_named t (by rw [hx]; exact ht.1)
    have hnone : (topWords 0 ((v.named ++ v.initialiserTokens).takeWhile (! ·.isOperator "="))).filter
        (! variableSpecifiers.contains ·) = [] := by
      rw [List.filter_eq_nil_iff]
      intro word hword
      simpa using hmem word hword
    simp only [StateVariable.ofTokens?, hhead, TypedName.ofTokens?, takeWhile_append_of_not_hasEquals hT,
      v.type.splitType?_tokens hstart, Option.bind_eq_bind, Option.bind_some, hnone]
    rfl

end Syntax

end ContractAudit
