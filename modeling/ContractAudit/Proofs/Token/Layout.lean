import ContractAudit.Proofs.Contract.Reading

/-!
# Tokens without their places

`Token.unplaced` forgets the line and the offset of a token and keeps its kind and its text. Every reader of
tokens commutes with it: read from tokens without places, brackets close at the same token, a run is cut
into the same parts, a type ends at the same place and a text is rendered the same way.
-/

namespace ContractAudit

namespace Token

/-- The token without its line and offset. -/
def unplaced (t : Token) : Token := { t with line := 0, offset := 0 }

variable (t : Token)

@[simp] theorem text_unplaced : t.unplaced.text = t.text := by
  cases t; rfl

@[simp] theorem isIdent_unplaced : t.unplaced.isIdent = t.isIdent := by
  cases t; rfl

@[simp] theorem isName_unplaced (name : String) : t.unplaced.isName name = t.isName name := by
  cases t; rfl

@[simp] theorem isOneOf_unplaced (names : List String) : t.unplaced.isOneOf names = t.isOneOf names := by
  cases t; rfl

@[simp] theorem isPunct_unplaced (text : String) : t.unplaced.isPunct text = t.isPunct text := by
  cases t; rfl

@[simp] theorem isPunctIn_unplaced (texts : List String) :
    t.unplaced.isPunctIn texts = t.isPunctIn texts := by
  cases t; rfl

@[simp] theorem isOperator_unplaced (text : String) :
    t.unplaced.isOperator text = t.isOperator text := by
  cases t; rfl

@[simp] theorem isAssignment_unplaced : t.unplaced.isAssignment = t.isAssignment := by
  cases t; rfl

@[simp] theorem opens_unplaced (b : Bracket) : t.unplaced.opens b = t.opens b := by
  cases t; rfl

@[simp] theorem closes_unplaced (b : Bracket) : t.unplaced.closes b = t.closes b := by
  cases t; rfl

@[simp] theorem opener?_unplaced : t.unplaced.opener? = t.opener? := by
  cases t; rfl

@[simp] theorem closer?_unplaced : t.unplaced.closer? = t.closer? := by
  cases t; rfl

@[simp] theorem nesting_unplaced : t.unplaced.nesting = t.nesting := by
  cases t; rfl

@[simp] theorem isBracket_unplaced : t.unplaced.isBracket = t.isBracket := by
  cases t; rfl

@[simp] theorem receiverEnd?_unplaced : t.unplaced.receiverEnd? = t.receiverEnd? := by
  cases t; rfl

end Token

/-! ## Brackets -/

namespace Enclosed

def unplaced (e : Enclosed) : Enclosed :=
  ⟨e.inner.map Token.unplaced, e.close.unplaced, e.rest.map Token.unplaced⟩

theorem find?_unplaced {enter leave : Token → Bool} (he : ∀ t : Token, enter t.unplaced = enter t)
    (hl : ∀ t : Token, leave t.unplaced = leave t) (depth : Nat) (ts : List Token) :
    find? enter leave depth (ts.map Token.unplaced) = (find? enter leave depth ts).map unplaced := by
  induction ts generalizing depth with
  | nil => rfl
  | cons t ts ih =>
    have hcons : (unplaced ∘ cons t) = (cons t.unplaced ∘ unplaced) := rfl
    rw [List.map_cons, find?.eq_def, find?.eq_def]
    simp only [he, hl, ih]
    split
    · simp [hcons]
    · split
      · cases depth with
        | zero => rfl
        | succ d => simp [hcons]
      · simp [hcons]

end Enclosed

namespace Bracket

variable (b : Bracket) (ts : List Token)

@[simp] theorem enclosed?_unplaced :
    b.enclosed? (ts.map Token.unplaced) = (b.enclosed? ts).map Enclosed.unplaced :=
  Enclosed.find?_unplaced (Token.opens_unplaced · b) (Token.closes_unplaced · b) 0 ts

@[simp] theorem enclosedBack?_unplaced :
    b.enclosedBack? (ts.map Token.unplaced) = (b.enclosedBack? ts).map Enclosed.unplaced :=
  Enclosed.find?_unplaced (Token.closes_unplaced · b) (Token.opens_unplaced · b) 0 ts

end Bracket

/-! ## Parts and texts -/

namespace Token

theorem consFirst_unplaced (t : Token) (parts : List (List Token)) :
    consFirst t.unplaced (parts.map (List.map unplaced)) = (consFirst t parts).map (List.map unplaced) := by
  cases parts <;> rfl

theorem partsFrom_unplaced (separator : String) (depth : Int) (ts : List Token) :
    partsFrom separator depth (ts.map unplaced) =
      (partsFrom separator depth ts).map (List.map unplaced) := by
  induction ts generalizing depth with
  | nil => rfl
  | cons t ts ih =>
    simp only [List.map_cons, partsFrom, isPunct_unplaced, isBracket_unplaced, nesting_unplaced, ih]
    split
    · rfl
    · exact consFirst_unplaced t _

@[simp] theorem splitCommas_unplaced (ts : List Token) :
    splitCommas (ts.map unplaced) = (splitCommas ts).map (List.map unplaced) := by
  rw [splitCommas, split, partsFrom_unplaced, List.filter_map, splitCommas, split]
  congr 2
  funext part
  simp

theorem renderAfter_unplaced (prev : Token) (ts : List Token) :
    renderAfter prev.unplaced (ts.map unplaced) = renderAfter prev ts := by
  induction ts generalizing prev with
  | nil => rfl
  | cons t ts ih => rw [List.map_cons, renderAfter, ih]; rfl

@[simp] theorem render_unplaced (ts : List Token) : render (ts.map unplaced) = render ts := by
  cases ts with
  | nil => rfl
  | cons t ts => rw [List.map_cons, render, renderAfter_unplaced]; rfl

end Token

/-! ## Types and typed names -/

/-- A run cut in two, without places. -/
def unplacedCut (p : List Token × List Token) : List Token × List Token :=
  (p.1.map Token.unplaced, p.2.map Token.unplaced)

theorem splitSubscripts_unplaced (ts : List Token) :
    splitSubscripts (ts.map Token.unplaced) = (splitSubscripts ts).map unplacedCut := by
  fun_induction splitSubscripts ts with
  | case1 => simp [splitSubscripts, unplacedCut]
  | case2 t ts ht he =>
    rw [List.map_cons, splitSubscripts_cons, Token.opens_unplaced, if_pos ht, Bracket.enclosed?_unplaced, he]
    rfl
  | case3 t ts ht e he ih =>
    rw [List.map_cons, splitSubscripts_cons, Token.opens_unplaced, if_pos ht, Bracket.enclosed?_unplaced, he]
    simp only [Option.map_some, Option.bind_some, Enclosed.unplaced, ih, Option.map_map]
    congr 1
    funext p
    simp [unplacedCut]
  | case4 t ts ht =>
    rw [List.map_cons, splitSubscripts_cons, Token.opens_unplaced, if_neg ht]
    rfl

theorem splitQualifiers_unplaced (ts : List Token) :
    splitQualifiers (ts.map Token.unplaced) = unplacedCut (splitQualifiers ts) := by
  fun_induction splitQualifiers ts with
  | case1 dot name ts h taken rest hs ih =>
    rw [hs] at ih
    simp [splitQualifiers, ih, h, unplacedCut]
  | case2 dot name ts h => simp [splitQualifiers, h, unplacedCut]
  | case3 ts h =>
    rcases ts with _ | ⟨a, _ | ⟨b, ts⟩⟩
    · rfl
    · rfl
    · exact absurd rfl (h a b ts)

theorem splitPayable_unplaced (ts : List Token) :
    splitPayable (ts.map Token.unplaced) = unplacedCut (splitPayable ts) := by
  cases ts with
  | nil => rfl
  | cons t ts =>
    simp only [List.map_cons, splitPayable, Token.isName_unplaced]
    by_cases h : t.isName "payable" = true <;> simp [h, unplacedCut]

@[simp] theorem splitType?_unplaced (ts : List Token) :
    splitType? (ts.map Token.unplaced) = (splitType? ts).map unplacedCut := by
  cases ts with
  | nil => rfl
  | cons t ts =>
    simp only [List.map_cons, splitType?, Token.isIdent_unplaced, Token.text_unplaced]
    split
    · rfl
    · split
      · cases ts with
        | nil => rfl
        | cons p ts =>
          simp only [List.map_cons, Token.opens_unplaced, Bracket.enclosed?_unplaced]
          split
          · cases Bracket.paren.enclosed? ts with
            | none => rfl
            | some e =>
              simp only [Option.map_some, Option.bind_eq_bind, Option.bind_some, Enclosed.unplaced,
                splitSubscripts_unplaced]
              cases splitSubscripts e.rest <;> simp [unplacedCut]
          · rfl
      · simp only [splitQualifiers_unplaced, unplacedCut]
        split
        · simp only [splitPayable_unplaced, unplacedCut, splitSubscripts_unplaced]
          cases splitSubscripts (splitPayable (splitQualifiers ts).2).2 <;> simp [unplacedCut]
        · simp only [splitSubscripts_unplaced]
          cases splitSubscripts (splitQualifiers ts).2 <;> simp [unplacedCut]

theorem topWords_unplaced (depth : Int) (ts : List Token) :
    topWords depth (ts.map Token.unplaced) = topWords depth ts := by
  induction ts generalizing depth with
  | nil => rfl
  | cons t ts ih => simp [topWords, ih]

@[simp] theorem TypedName.ofTokens?_unplaced (specifiers : List String) (ts : List Token) :
    ofTokens? specifiers (ts.map Token.unplaced) = ofTokens? specifiers ts := by
  rw [ofTokens?, splitType?_unplaced, ofTokens?]
  cases splitType? ts with
  | none => rfl
  | some p => simp [unplacedCut, topWords_unplaced]

@[simp] theorem Parameter.ofTokens_unplaced (ts : List Token) :
    ofTokens (ts.map Token.unplaced) = ofTokens ts := by
  simp [ofTokens, List.filterMap_map, Function.comp_def]

/-! ## Statements -/

theorem statementEnd?_unplaced (depth : Nat) (ts : List Token) :
    statementEnd? depth (ts.map Token.unplaced) = statementEnd? depth ts := by
  induction ts generalizing depth with
  | nil => rfl
  | cons t ts ih =>
    rw [List.map_cons, statementEnd?.eq_def, statementEnd?.eq_def]
    simp only [Token.opener?_unplaced, Token.closer?_unplaced, Token.isPunct_unplaced, ih]

@[simp] theorem statementEnd_unplaced (ts : List Token) :
    statementEnd (ts.map Token.unplaced) = statementEnd ts := by
  rw [statementEnd, statementEnd?_unplaced, List.length_map, statementEnd]

def StateVariable.unplaced (v : StateVariable) : StateVariable := { v with line := 0 }

@[simp] theorem StateVariable.ofTokens?_unplaced (ts : List Token) :
    ofTokens? (ts.map Token.unplaced) = (ofTokens? ts).map unplaced := by
  cases ts with
  | nil => rfl
  | cons t ts =>
    have hequals : (fun t : Token => ! t.isOperator "=") ∘ Token.unplaced = (! ·.isOperator "=") := rfl
    rw [ofTokens?, List.takeWhile_map, List.dropWhile_map, hequals, ← List.map_drop, Token.render_unplaced,
      TypedName.ofTokens?_unplaced, ofTokens?]
    cases TypedName.ofTokens? variableSpecifiers ((t :: ts).takeWhile (! ·.isOperator "=")) with
    | none => rfl
    | some typed =>
      simp only [List.map_cons, List.head?_cons, Option.bind_eq_bind, Option.bind_some]
      split <;> rfl

end ContractAudit
