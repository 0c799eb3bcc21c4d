import ContractAudit.Proofs.Token.Layout
import ContractAudit.Proofs.Token.Lexeme
import ContractAudit.Proofs.Token.Tiling
import Mathlib.Tactic.MkIffOfInductiveProp

/-!
# Printed tokens are read back

Printing puts a space between two tokens or none. Behind a space every token stops. Without one the first
of the two still stops, except in the few shapes that `Token.Separable` excludes: there the two, or a number
with the point and the number behind it, are read as other tokens. So tokens without these shapes are read
back from their print with their kinds and texts, by induction on the run.
-/

namespace ContractAudit

open Text Lexer

namespace Token

/-! ## Shapes that do not survive printing -/

/-- The pairs of tokens that stand next to each other. -/
def adjacent (ts : List Token) : List (Token × Token) := ts.zip ts.tail

/-- Every three tokens in a row. -/
def inRow (ts : List Token) : List (Token × Token × Token) := ts.zip (adjacent ts.tail)

/-- A run without the shapes that its print joins: a quote without its partner, a negation in front of an
operator that starts with an equals sign, a sign in front of its doubled sign, and two numbers with a point
between them. -/
@[mk_iff]
structure Separable (ts : List Token) : Prop where
  quote : ∀ t ∈ ts, t.kind = .other → t.text ≠ "\"" ∧ t.text ≠ "'"
  negation : ∀ p ∈ adjacent ts, p.1.isOperator "!" = true → p.2.kind = .operator →
    p.2.text.toList.head? ≠ some '='
  plus : ∀ p ∈ adjacent ts, p.1.isOperator "+" = true → p.2.isOperator "++" = false
  minus : ∀ p ∈ adjacent ts, p.1.isOperator "-" = true → p.2.isOperator "--" = false
  numbers : ∀ p ∈ inRow ts, p.1.kind = .number → p.2.1.isPunct "." = true → p.2.2.kind ≠ .number

instance (ts : List Token) : Decidable (Separable ts) := decidable_of_iff _ (separable_iff ts).symm

theorem adjacent_subset (t : Token) (ts : List Token) : adjacent ts ⊆ adjacent (t :: ts) := by
  cases ts with
  | nil => exact List.nil_subset _
  | cons u ts => exact List.subset_cons_self _ _

theorem inRow_subset (t : Token) (ts : List Token) : inRow ts ⊆ inRow (t :: ts) := by
  rcases ts with _ | ⟨u, _ | ⟨v, ts⟩⟩
  · exact List.nil_subset _
  · exact List.nil_subset _
  · exact List.subset_cons_self _ _

theorem Separable.tail {t : Token} {ts : List Token} (h : Separable (t :: ts)) : Separable ts where
  quote u hu := h.quote u (List.mem_cons_of_mem _ hu)
  negation p hp := h.negation p (adjacent_subset t ts hp)
  plus p hp := h.plus p (adjacent_subset t ts hp)
  minus p hp := h.minus p (adjacent_subset t ts hp)
  numbers p hp := h.numbers p (inRow_subset t ts hp)

/-! ## A printed token stops -/

/-- The text of the token is of its kind. -/
def IsLexeme (t : Token) : Prop := Lexeme t.kind t.text.toList

section Stops

variable {t u : Token} {ts : List Token} {rest : List Char}

theorem isQuote_eq_false_of_other (ht : t.IsLexeme) (hsep : Separable (t :: ts)) (hkind : t.kind = .other) :
    ∀ c ∈ t.text.toList, isQuote c = false := by
  obtain ⟨hdouble, hsingle⟩ := hsep.quote t List.mem_cons_self hkind
  rw [IsLexeme, hkind] at ht
  generalize htext : t.text.toList = piece at ht
  cases ht with
  | @other c hc =>
    intro d hd
    rw [List.mem_singleton.mp hd, Bool.eq_false_iff]
    intro hquote
    rcases eq_of_isQuote hquote with rfl | rfl
    · exact hdouble (String.toList_inj.mp htext)
    · exact hsingle (String.toList_inj.mp htext)

/-- At the end of the text and in front of a space. -/
theorem stops_of_space (hquote : t.kind = .other → ∀ c ∈ t.text.toList, isQuote c = false)
    (hrest : ∀ c ∈ rest.head?, c = ' ') : Stops t.text.toList rest t.kind := by
  cases hkind : t.kind with
  | other => exact hquote hkind
  | string => trivial
  | punct => trivial
  | ident =>
    intro c hc
    rw [hrest c hc]
    decide
  | number =>
    refine ⟨fun c hc => ?_, ?_⟩
    · rw [hrest c hc]
      decide
    · rintro d - ⟨tail, rfl⟩
      exact absurd (hrest '.' rfl) (by decide)
  | operator =>
    have hspace : ∀ op ∈ operators, ' ' ∉ op := by decide
    intro c hc
    rw [hrest c hc]
    exact ⟨fun _ => by decide, fun op hop h => hspace op hop (h.subset (by simp))⟩

theorem spaced_eq_false (h : spaced t u = false) :
    u.isPunctIn [")", ".", "]", ",", ";"] = true ∨ t.isPunctIn ["(", "[", "."] = true ∨
      (u.isPunctIn ["(", "["] = true ∧ t.isIdent = true) ∨ t.isOperatorIn ["!", "~"] = true ∨
      u.isOperatorIn ["++", "--"] = true := by
  simpa only [spaced, Bool.not_eq_false', Bool.or_eq_true, Bool.and_eq_true, or_assoc] using h

theorem mem_of_isPunctIn {texts : List String} (h : t.isPunctIn texts = true) :
    t.kind = .punct ∧ t.text ∈ texts := by
  simpa [isPunctIn] using h

theorem mem_of_isOperatorIn {texts : List String} (h : t.isOperatorIn texts = true) :
    t.kind = .operator ∧ t.text ∈ texts := by
  simpa [isOperatorIn] using h

/-- What is printed right behind a word or a number. -/
def tight : List String := [")", ".", "]", ",", ";", "(", "[", "++", "--"]

theorem mem_tight (hword : t.kind = .ident ∨ t.kind = .number) (h : spaced t u = false) :
    u.text ∈ tight := by
  rcases spaced_eq_false h with h | h | ⟨h, -⟩ | h | h
  · have hsub : [")", ".", "]", ",", ";"] ⊆ tight := by decide
    exact hsub (mem_of_isPunctIn h).2
  · rw [(mem_of_isPunctIn h).1] at hword
    simp at hword
  · have hsub : ["(", "["] ⊆ tight := by decide
    exact hsub (mem_of_isPunctIn h).2
  · rw [(mem_of_isOperatorIn h).1] at hword
    simp at hword
  · have hsub : ["++", "--"] ⊆ tight := by decide
    exact hsub (mem_of_isOperatorIn h).2

theorem stops_tight_ident (hkind : t.kind = .ident) (hu : u.IsLexeme) (h : spaced t u = false) :
    Stops t.text.toList (u.text.toList ++ rest) .ident := by
  have hfirst : ∀ x ∈ tight, ∀ c ∈ x.toList.take 1, isIdentPart c = false ∧ isQuote c = false := by decide
  obtain ⟨c, cs, hcs, -⟩ := hu.first
  rw [hcs]
  rintro d ⟨⟩
  exact hfirst u.text (mem_tight (.inl hkind) h) _ (by simp [hcs])

theorem stops_tight_number (hkind : t.kind = .number) (hlex : ∀ v ∈ u :: ts, v.IsLexeme)
    (hsep : Separable (t :: u :: ts)) (h : spaced t u = false) :
    Stops t.text.toList (u.text.toList ++ (renderAfter u ts).toList) .number := by
  have hfirst : ∀ x ∈ tight, ∀ c ∈ x.toList.take 1, isDigit c = false ∧ isIdentPart c = false := by decide
  have hpoint : ∀ x ∈ tight, x.toList.head? = some '.' → x = "." := by decide
  have hu := mem_tight (.inr hkind) h
  obtain ⟨c, cs, hcs, -, -, -, hpunct⟩ := (hlex u List.mem_cons_self).first
  refine ⟨?_, fun d hd hpre => ?_⟩
  · rw [hcs]
    rintro d ⟨⟩
    exact hfirst u.text hu c (by simp [hcs])
  -- The point is the next token, and the token behind it starts with a digit.
  · rw [hcs, List.cons_append] at hpre
    obtain ⟨rfl, hnext⟩ := List.cons_prefix_cons.mp hpre
    have htext := hpoint u.text hu (by rw [hcs]; rfl)
    have hisPunct : u.isPunct "." = true := by simp [isPunct, hpunct rfl, htext]
    obtain rfl : cs = [] := by
      rw [htext] at hcs
      exact (List.cons.inj hcs).2.symm
    cases ts with
    | nil => simp [renderAfter] at hnext
    | cons v ts =>
      have hspace : spaced u v = false := by simp [spaced, isPunctIn, hpunct rfl, htext]
      obtain ⟨e, es, hes, -, hnumber, -⟩ := (hlex v (by simp)).first
      simp only [renderAfter, hspace, Bool.false_eq_true, if_false, String.toList_append, hes] at hnext
      obtain ⟨rfl, -⟩ := List.cons_prefix_cons.mp hnext
      exact hsep.numbers (t, u, v) List.mem_cons_self hkind hisPunct (hnumber hd)

theorem mem_operators (ht : t.IsLexeme) (hkind : t.kind = .operator) : t.text.toList ∈ operators := by
  rw [IsLexeme, hkind] at ht
  generalize t.text.toList = piece at ht
  cases ht with
  | operator hop => exact hop

theorem isOperator_iff {text : String} : t.isOperator text = true ↔ t.kind = .operator ∧ t.text = text := by
  simp [isOperator]

/-- Behind a negation or a complement. -/
theorem stops_negation (hneg : t.isOperatorIn ["!", "~"] = true) (hu : u.IsLexeme)
    (hsep : Separable (t :: u :: ts)) : Stops t.text.toList (u.text.toList ++ rest) .operator := by
  have hlonger : ∀ op ∈ operators,
      (op.head? = some '!' → op.tail ⊆ ['=']) ∧ (op.head? = some '~' → op.tail = []) := by decide
  obtain ⟨hkind, htext⟩ := mem_of_isOperatorIn hneg
  obtain ⟨c, cs, hcs, -, -, hequals, -⟩ := hu.first
  rw [hcs]
  rintro d ⟨⟩
  simp only [List.mem_cons, List.not_mem_nil, or_false] at htext
  rcases htext with htext | htext
  · rw [htext]
    refine ⟨fun h => absurd h (by decide), ?_⟩
    rintro op hop ⟨tail, rfl⟩
    obtain rfl : c = '=' := List.mem_singleton.mp ((hlonger _ hop).1 rfl List.mem_cons_self)
    refine hsep.negation (t, u) List.mem_cons_self (isOperator_iff.mpr ⟨hkind, htext⟩) (hequals rfl) ?_
    rw [hcs]
    rfl
  · rw [htext]
    refine ⟨fun h => absurd h (by decide), ?_⟩
    rintro op hop ⟨tail, rfl⟩
    cases (hlonger _ hop).2 rfl

/-- A sign goes on in no operator but its doubled sign. -/
theorem eq_of_sign {c : Char} (hc : c ∈ ['+', '-']) {op op' : List Char} (hop : op ∈ operators)
    (hop' : op' ∈ operators) (h : op ++ [c] <+: op') : op = [c] := by
  have hdouble : ∀ c ∈ ['+', '-'], ∀ op ∈ operators, c ∈ op.tail → op = [c, c] := by decide
  obtain ⟨tail, rfl⟩ := h
  obtain ⟨d, ds, rfl, -⟩ := isSymbol_of_mem_operators hop
  have htwo := hdouble c hc _ hop' (by simp)
  simp only [List.cons_append, List.append_assoc, List.nil_append, List.cons.injEq] at htwo
  obtain ⟨rfl, htwo⟩ := htwo
  cases ds with
  | nil => rfl
  | cons e ds => simp at htwo

/-- In front of a doubled sign. -/
theorem stops_sign (ht : t.text.toList ∈ operators) (hkind : t.kind = .operator)
    (hsign : u.isOperatorIn ["++", "--"] = true) (hsep : Separable (t :: u :: ts)) :
    Stops t.text.toList (u.text.toList ++ rest) .operator := by
  obtain ⟨hukind, hutext⟩ := mem_of_isOperatorIn hsign
  simp only [List.mem_cons, List.not_mem_nil, or_false] at hutext
  rcases hutext with hutext | hutext
  · rw [hutext]
    rintro d ⟨⟩
    refine ⟨fun _ => by decide, fun op hop hpre => ?_⟩
    have htext : t.text = "+" := String.toList_inj.mp (eq_of_sign (by decide) ht hop hpre)
    have hno := hsep.plus (t, u) List.mem_cons_self (isOperator_iff.mpr ⟨hkind, htext⟩)
    rw [isOperator_iff.mpr ⟨hukind, hutext⟩] at hno
    cases hno
  · rw [hutext]
    rintro d ⟨⟩
    refine ⟨fun _ => by decide, fun op hop hpre => ?_⟩
    have htext : t.text = "-" := String.toList_inj.mp (eq_of_sign (by decide) ht hop hpre)
    have hno := hsep.minus (t, u) List.mem_cons_self (isOperator_iff.mpr ⟨hkind, htext⟩)
    rw [isOperator_iff.mpr ⟨hukind, hutext⟩] at hno
    cases hno

theorem stops_tight_operator (hkind : t.kind = .operator) (ht : t.IsLexeme) (hu : u.IsLexeme)
    (hsep : Separable (t :: u :: ts)) (h : spaced t u = false) :
    Stops t.text.toList (u.text.toList ++ rest) .operator := by
  rcases spaced_eq_false h with h | h | ⟨-, h⟩ | h | h
  · have hfirst : ∀ x ∈ [")", ".", "]", ",", ";"], ∀ c ∈ x.toList.take 1,
        (c ≠ '/' ∧ c ≠ '*') ∧ ∀ op ∈ operators, c ∉ op := by decide
    obtain ⟨c, cs, hcs, -⟩ := hu.first
    obtain ⟨hcomment, hno⟩ := hfirst u.text (mem_of_isPunctIn h).2 c (by simp [hcs])
    rw [hcs]
    rintro d ⟨⟩
    exact ⟨fun _ => hcomment, fun op' hop' hpre => hno op' hop' (hpre.subset (by simp))⟩
  · rw [(mem_of_isPunctIn h).1] at hkind
    cases hkind
  · rw [show t.kind = .ident by simpa [isIdent] using h] at hkind
    cases hkind
  · exact stops_negation h hu hsep
  · exact stops_sign (mem_operators ht hkind) hkind h hsep

/-- No token of the run is carried on into what is printed behind it. -/
theorem stops_renderAfter (hlex : ∀ v ∈ t :: ts, v.IsLexeme) (hsep : Separable (t :: ts)) :
    Stops t.text.toList (renderAfter t ts).toList t.kind := by
  obtain ⟨ht, hts⟩ := List.forall_mem_cons.mp hlex
  have hquote := isQuote_eq_false_of_other ht hsep
  cases ts with
  | nil => exact stops_of_space hquote (by simp [renderAfter])
  | cons u ts =>
    have hu := hts u List.mem_cons_self
    rw [renderAfter, String.toList_append]
    cases h : spaced t u with
    | true => exact stops_of_space hquote (by simp)
    | false =>
      rw [if_neg Bool.false_ne_true]
      cases hkind : t.kind with
      | other => exact hquote hkind
      | string => trivial
      | punct => trivial
      | ident => exact stops_tight_ident hkind hu h
      | number => exact stops_tight_number hkind hts hsep h
      | operator => exact stops_tight_operator hkind ht hu hsep h

end Stops

/-! ## Reading a print -/

end Token

namespace Lexer

theorem pieces_append {kind : PieceKind} {piece rest : List Char} (hne : piece ≠ [])
    (h : pieceAt (piece ++ rest) = (kind, piece.length)) :
    pieces (piece ++ rest) = ⟨kind, piece⟩ :: pieces rest := by
  obtain ⟨c, cs, rfl⟩ := List.exists_cons_of_ne_nil hne
  rw [List.cons_append] at h ⊢
  rw [pieces]
  simp [h]

theorem pieces_space {rest : List Char} (h : ∀ c ∈ rest.head?, isBlank c = false) :
    pieces (' ' :: rest) = ⟨.blank, [' ']⟩ :: pieces rest := by
  have hrun : ([] ++ rest).takeWhile isBlank = [] := takeWhile_append_of_stop (List.forall_mem_nil _) h
  rw [List.nil_append] at hrun
  refine @pieces_append .blank [' '] rest (by simp) ?_
  have hspace : isBlank ' ' = true := by decide
  simp [pieceAt, blankLength, hrun, hspace]

end Lexer

namespace Token

variable {t : Token} {ts : List Token}

theorem place_lexeme {rest : List Char} (ht : t.IsLexeme) (hstop : Stops t.text.toList rest t.kind)
    (line offset : Nat) :
    place line offset (pieces (t.text.toList ++ rest)) = ⟨t.kind, t.text, line, offset⟩ ::
      place (line + newlines t.text.toList) (offset + t.text.toList.length) (pieces rest) := by
  obtain ⟨c, cs, hcs, -⟩ := ht.first
  rw [pieces_append (by simp [hcs]) (pieceAt_append ht hstop), place_of_lexeme rfl, String.ofList_toList]

theorem unplaced_place_render (hlex : ∀ u ∈ t :: ts, u.IsLexeme) (hsep : Separable (t :: ts))
    (line offset : Nat) :
    (place line offset (pieces (t.text.toList ++ (renderAfter t ts).toList))).map unplaced =
      (t :: ts).map unplaced := by
  induction ts generalizing t line offset with
  | nil =>
    rw [place_lexeme (hlex t List.mem_cons_self) (stops_renderAfter hlex hsep)]
    simp [renderAfter, pieces, place, unplaced]
  | cons u ts ih =>
    obtain ⟨ht, hts⟩ := List.forall_mem_cons.mp hlex
    rw [place_lexeme ht (stops_renderAfter hlex hsep), List.map_cons, List.map_cons]
    congr 1
    rw [renderAfter, String.toList_append]
    cases h : spaced t u with
    | true =>
      obtain ⟨c, cs, hcs, hblank, -⟩ := (hts u List.mem_cons_self).first
      have hspace : ∀ d ∈ (u.text.toList ++ (renderAfter u ts).toList).head?, isBlank d = false := by
        rw [hcs]
        rintro d ⟨⟩
        exact hblank
      have hprint : (" " ++ u.text).toList ++ (renderAfter u ts).toList =
          ' ' :: (u.text.toList ++ (renderAfter u ts).toList) := by simp
      rw [if_pos rfl, hprint, pieces_space hspace, place_of_filler (.inl rfl)]
      exact ih hts hsep.tail _ _
    | false =>
      rw [if_neg Bool.false_ne_true]
      exact ih hts hsep.tail _ _

/-- Tokens of a text without the shapes that their print joins are read back from it: the tokens of the print
have the same kinds and texts, and so the same print. -/
theorem tokenize_render (text : String) (hsep : Separable (tokenize text)) :
    (tokenize (render (tokenize text))).map (fun t => (t.kind, t.text)) =
        (tokenize text).map (fun t => (t.kind, t.text)) ∧
      render (tokenize (render (tokenize text))) = render (tokenize text) := by
  have hlex : ∀ t ∈ tokenize text, t.IsLexeme := fun t => lexeme_of_mem_tokenize
  have hread : (tokenize (render (tokenize text))).map unplaced = (tokenize text).map unplaced := by
    generalize tokenize text = ts at hsep hlex
    cases ts with
    | nil => simp [render, tokenize, pieces, place]
    | cons t ts =>
      rw [render, tokenize, String.toList_append]
      exact unplaced_place_render hlex hsep 1 0
  refine ⟨?_, by rw [← render_unplaced, hread, render_unplaced]⟩
  have hkinds := congrArg (List.map fun t : Token => (t.kind, t.text)) hread
  rw [List.map_map, List.map_map] at hkinds
  exact hkinds

/-- A text whose tokens stand close to the shapes that are lost. -/
def tightText : String := "x=!-y[0x1F]+ --z/ *w;1 .f(.5e-3,hex'0a')"

theorem tokenize_render_tightText :
    Separable (tokenize tightText) ∧
      render (tokenize tightText) = "x = !- y[0x1F] +-- z / * w; 1.f(.5e-3, hex'0a')" ∧
      (tokenize (render (tokenize tightText))).map (fun t => (t.kind, t.text)) =
        (tokenize tightText).map (fun t => (t.kind, t.text)) := by
  have hsep : Separable (tokenize tightText) := by decide +kernel
  exact ⟨hsep, by decide +kernel, (tokenize_render tightText hsep).1⟩

-- What the print of the excluded shapes is read as.
example : ["1 . 5", "! = a", "+ ++a", "- --a"].map (fun text =>
      (tokenize (render (tokenize text))).map (·.text)) =
    [["1.5"], ["!=", "a"], ["++", "+", "a"], ["--", "-", "a"]] := by
  decide +kernel

end Token

end ContractAudit
