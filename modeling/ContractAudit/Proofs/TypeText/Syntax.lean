import ContractAudit.Proofs.Contract.Names
import ContractAudit.Proofs.Contract.Syntax
import ContractAudit.Proofs.Token.ReadBack
import ContractAudit.TypeText

/-!
# Types as written

A type is a tree over its own tokens: names, `address payable`, mappings with their keys and the names that may stand
behind key and value, and arrays. `reference` is what the tree finally refers to. The print of a type is computed
piece by piece: a space stands in front of a word that follows a word, and in front of a subscript that follows a
bracket.
-/

namespace ContractAudit.TypeText

open Syntax

/-! ## Types as trees -/

/-- An identifier as it is read from a source. -/
structure Word where
  token : Token
  isIdent : token.isIdent = true
  isName : IsName token.text

/-- The length of an array. -/
structure Size where
  token : Token
  isLexeme : token.IsLexeme
  isSize : token.kind = .number ∨ token.kind = .ident

/-- A part of a qualified name behind the first. -/
structure Qualifier where
  dot : Mark "."
  word : Word

/-- A type that is neither a mapping nor an array. -/
inductive PlainType where
  | name (root : Word) (path : List Qualifier)
  | payable (root : Keyword "address") (mark : Keyword "payable")

def Word.text (w : Word) : List Char := w.token.text.toList

def Qualifier.tokens (q : Qualifier) : List Token := [q.dot.1, q.word.token]

def Qualifier.text (q : Qualifier) : List Char := '.' :: q.word.text

namespace PlainType

def tokens : PlainType → List Token
  | name root path => root.token :: path.flatMap (·.tokens)
  | payable root mark => [root.1, mark.1]

/-- The first word of the type. -/
def word : PlainType → List Char
  | name root path => root.text ++ path.flatMap (·.text)
  | payable root _ => root.1.text.toList

/-- What is printed behind the first word. -/
def mark : PlainType → List Char
  | name _ _ => []
  | payable _ mark => ' ' :: mark.1.text.toList

/-- The name of the type if it is user-defined. -/
def reference (p : PlainType) : Option String :=
  if isElementary (String.ofList p.word) then none else some (String.ofList p.word)

end PlainType

inductive TypeTree where
  /-- The name does not start with the letters that a mapping starts with. -/
  | plain (p : PlainType) (notMapping : isMapping p.word = false)
  | mapping (keyword : Keyword "mapping") (opening : Mark "(") (key : PlainType) (keyName : Option Word)
      (arrow : { t : Token // t.isOperator "=>" = true }) (value : TypeTree) (valueName : Option Word)
      (closing : Mark ")")
  | array (element : TypeTree) (opening : Mark "[") (size : Option Size) (closing : Mark "]")

/-- The tokens of a part that may be left out. -/
def optional {α : Type} (token : α → Token) : Option α → List Token
  | none => []
  | some x => [token x]

namespace TypeTree

def tokens : TypeTree → List Token
  | plain p _ => p.tokens
  | mapping keyword opening key keyName arrow value valueName closing =>
    keyword.1 :: opening.1 :: (key.tokens ++ (optional Word.token keyName ++ arrow.1 ::
      (value.tokens ++ (optional Word.token valueName ++ [closing.1]))))
  | array element opening size closing =>
    element.tokens ++ opening.1 :: (optional Size.token size ++ [closing.1])

/-- The type that a mapping finally holds and an array is finally made of. -/
def leaf : TypeTree → PlainType
  | plain p _ => p
  | mapping _ _ _ _ _ value _ _ => value.leaf
  | array element _ _ _ => element.leaf

/-- The name of the user-defined type that the type finally refers to. -/
def reference (T : TypeTree) : Option String := T.leaf.reference

end TypeTree

/-! ## Types as printed -/

/-- A name behind a type. -/
def named : Option Word → List Char
  | none => []
  | some w => ' ' :: w.text

def sizeText : Option Size → List Char
  | none => []
  | some n => n.token.text.toList

namespace TypeTree

/-- The space in front of a subscript; there is none behind a word. -/
def gap : TypeTree → List Char
  | plain _ _ => []
  | _ => [' ']

def text : TypeTree → List Char
  | plain p _ => p.word ++ p.mark
  | mapping keyword _ key keyName arrow value valueName _ =>
    keyword.1.text.toList ++ '(' :: (key.word ++ (key.mark ++ (named keyName ++ ' ' ::
      (arrow.1.text.toList ++ ' ' :: (value.text ++ (named valueName ++ [')']))))))
  | array element _ size _ => element.text ++ (element.gap ++ '[' :: (sizeText size ++ [']']))

end TypeTree

/-- What is printed in front of a token. -/
def space (prev t : Token) : List Char := if prev.spaced t then [' '] else []

theorem toList_renderAfter_cons (prev t : Token) (ts : List Token) :
    (Token.renderAfter prev (t :: ts)).toList =
      space prev t ++ (t.text.toList ++ (Token.renderAfter t ts).toList) := by
  unfold space
  rw [Token.renderAfter]
  split <;> simp

section Spaces

variable {prev t : Token} {mark : String}

theorem spelled_mark (m : Mark mark) : m.1.kind = .punct ∧ m.1.text = mark := by
  simpa [Token.isPunct] using m.2

theorem spelled_keyword (k : Keyword mark) : k.1.isIdent = true ∧ k.1.text = mark := by
  simpa [Token.isName, Token.isIdent] using k.2

/-- A token that a type may end with. -/
def EndsType (t : Token) : Prop := t.isIdent = true ∨ t.isPunct ")" = true ∨ t.isPunct "]" = true

theorem space_word (hp : EndsType prev ∨ prev.isOperator "=>" = true)
    (ht : t.isIdent = true ∨ t.isOperator "=>" = true) : space prev t = [' '] := by
  have hnext : (∀ texts, t.isPunctIn texts = false) ∧ t.isOperatorIn ["++", "--"] = false := by
    rcases ht with ht | ht <;> simp_all [Token.isIdent, Token.isOperator, Token.isPunctIn, Token.isOperatorIn]
  have hprev : prev.isPunctIn ["(", "[", "."] = false ∧ prev.isOperatorIn ["!", "~"] = false := by
    rcases hp with (hp | hp | hp) | hp <;>
      simp_all [Token.isIdent, Token.isPunct, Token.isOperator, Token.isPunctIn, Token.isOperatorIn]
  simp [space, Token.spaced, hnext, hprev]

theorem space_closing (m : Mark mark) (h : mark = ")" ∨ mark = "." ∨ mark = "]") (prev : Token) :
    space prev m.1 = [] := by
  rcases h with rfl | rfl | rfl <;> simp [space, Token.spaced, Token.isPunctIn, spelled_mark m]

theorem space_opening (m : Mark mark) (h : mark = "(" ∨ mark = "[" ∨ mark = ".") (t : Token) :
    space m.1 t = [] := by
  rcases h with rfl | rfl | rfl <;> simp [space, Token.spaced, Token.isPunctIn, spelled_mark m]

theorem space_tight (hp : prev.isIdent = true) (m : Mark mark) (h : mark = "(" ∨ mark = "[") :
    space prev m.1 = [] := by
  rcases h with rfl | rfl <;> simp [space, Token.spaced, Token.isPunctIn, spelled_mark m, hp]

theorem space_subscript (m' : Mark mark) (h : mark = ")" ∨ mark = "]") (m : Mark "[") :
    space m'.1 m.1 = [' '] := by
  rcases h with rfl | rfl <;>
    simp [space, Token.spaced, Token.isPunctIn, Token.isOperatorIn, Token.isIdent, spelled_mark m, spelled_mark m']

end Spaces

section Prints

variable {prev : Token} {s : List Char}

theorem exists_last_path {t : Token} (ht : t.isIdent = true) (path : List Qualifier) (rest : List Token) :
    ∃ last, last.isIdent = true ∧ (Token.renderAfter t (path.flatMap (·.tokens) ++ rest)).toList =
      path.flatMap (·.text) ++ (Token.renderAfter last rest).toList := by
  induction path generalizing t with
  | nil => exact ⟨t, ht, rfl⟩
  | cons q path ih =>
    obtain ⟨last, hlast, hprint⟩ := ih q.word.isIdent
    refine ⟨last, hlast, ?_⟩
    have hdot : (Token.renderAfter t (q.tokens ++ (path.flatMap (·.tokens) ++ rest))).toList =
        q.text ++ (Token.renderAfter q.word.token (path.flatMap (·.tokens) ++ rest)).toList := by
      simp [Qualifier.tokens, Qualifier.text, Word.text, toList_renderAfter_cons, space_closing q.dot,
        space_opening q.dot, spelled_mark q.dot]
    rw [List.flatMap_cons, List.append_assoc, hdot, hprint, List.flatMap_cons, List.append_assoc]

theorem PlainType.exists_last (p : PlainType) (hs : ∀ t, t.isIdent = true → space prev t = s) (rest : List Token) :
    ∃ last, last.isIdent = true ∧ (Token.renderAfter prev (p.tokens ++ rest)).toList =
      s ++ (p.word ++ (p.mark ++ (Token.renderAfter last rest).toList)) := by
  cases p with
  | name root path =>
    obtain ⟨last, hlast, hprint⟩ := exists_last_path root.isIdent path rest
    refine ⟨last, hlast, ?_⟩
    rw [tokens, List.cons_append, toList_renderAfter_cons, hs _ root.isIdent, hprint, word, mark, List.nil_append,
      List.append_assoc, Word.text]
  | payable root payable =>
    have hroot := (spelled_keyword root).1
    have hmark := (spelled_keyword payable).1
    refine ⟨payable.1, hmark, ?_⟩
    simp [tokens, word, mark, toList_renderAfter_cons, hs _ hroot, space_word (.inl (.inl hroot)) (.inl hmark)]

theorem exists_last_named (hp : EndsType prev) (name : Option Word) (rest : List Token) :
    ∃ last, EndsType last ∧ (Token.renderAfter prev (optional Word.token name ++ rest)).toList =
      named name ++ (Token.renderAfter last rest).toList := by
  cases name with
  | none => exact ⟨prev, hp, rfl⟩
  | some w =>
    refine ⟨w.token, .inl w.isIdent, ?_⟩
    simp [named, optional, Word.text, toList_renderAfter_cons, space_word (.inl hp) (.inl w.isIdent)]

/-- A type is printed as its text, whatever stands around it. -/
theorem TypeTree.exists_last (T : TypeTree) (hs : ∀ t, t.isIdent = true → space prev t = s) (rest : List Token) :
    ∃ last, EndsType last ∧ (∀ m : Mark "[", space last m.1 = T.gap) ∧
      (Token.renderAfter prev (T.tokens ++ rest)).toList = s ++ (T.text ++ (Token.renderAfter last rest).toList) := by
  induction T generalizing prev s rest with
  | plain p notMapping =>
    obtain ⟨last, hlast, hprint⟩ := p.exists_last hs rest
    refine ⟨last, .inl hlast, fun m => space_tight hlast m (.inr rfl), ?_⟩
    rw [tokens, hprint, text, List.append_assoc]
  | mapping keyword opening key keyName arrow value valueName closing ih =>
    have hkeyword := (spelled_keyword keyword).1
    refine ⟨closing.1, .inr (.inl closing.2), fun m => space_subscript closing (.inl rfl) m, ?_⟩
    have hopening (t : Token) (_ : t.isIdent = true) : space opening.1 t = [] := space_opening opening (.inl rfl) t
    have hbehind (t : Token) (ht : t.isIdent = true) : space arrow.1 t = [' '] := space_word (.inr arrow.2) (.inl ht)
    obtain ⟨l₁, hl₁, hkey⟩ := key.exists_last hopening (optional Word.token keyName ++ arrow.1 ::
      (value.tokens ++ (optional Word.token valueName ++ closing.1 :: rest)))
    obtain ⟨l₂, hl₂, hkeyName⟩ := exists_last_named (.inl hl₁) keyName
      (arrow.1 :: (value.tokens ++ (optional Word.token valueName ++ closing.1 :: rest)))
    obtain ⟨l₃, hl₃, -, hvalue⟩ := ih hbehind (optional Word.token valueName ++ closing.1 :: rest)
    obtain ⟨l₄, -, hvalueName⟩ := exists_last_named hl₃ valueName (closing.1 :: rest)
    simp [tokens, text, toList_renderAfter_cons, hs _ hkeyword, space_tight hkeyword opening, spelled_mark opening,
      hkey, hkeyName, space_word (.inl hl₂) (.inr arrow.2), hvalue, hvalueName, space_closing closing,
      spelled_mark closing]
  | array element opening size closing ih =>
    obtain ⟨l₁, -, hgap, hprint⟩ := ih hs (opening.1 :: (optional Size.token size ++ closing.1 :: rest))
    refine ⟨closing.1, .inr (.inr closing.2), fun m => space_subscript closing (.inr rfl) m, ?_⟩
    have hsize : (Token.renderAfter opening.1 (optional Size.token size ++ closing.1 :: rest)).toList =
        sizeText size ++ ']' :: (Token.renderAfter closing.1 rest).toList := by
      cases size <;>
        simp [sizeText, optional, toList_renderAfter_cons, space_closing closing, space_opening opening,
          spelled_mark closing]
    simp [tokens, text, hprint, toList_renderAfter_cons, hgap, spelled_mark opening, hsize]

theorem TypeTree.toList_render (T : TypeTree) : (Token.render T.tokens).toList = T.text := by
  -- An opening parenthesis in front changes nothing.
  have hopen : Token.isPunct ⟨.punct, "(", 0, 0⟩ "(" = true := rfl
  have hspace (t : Token) : space ⟨.punct, "(", 0, 0⟩ t = [] := space_opening ⟨_, hopen⟩ (.inl rfl) t
  have hrender (ts : List Token) :
      (Token.render ts).toList = (Token.renderAfter ⟨.punct, "(", 0, 0⟩ ts).toList := by
    cases ts with
    | nil => rfl
    | cons t ts => simp [Token.render, toList_renderAfter_cons, hspace]
  obtain ⟨last, -, -, hprint⟩ := T.exists_last (fun t _ => hspace t) []
  rw [hrender, ← List.append_nil T.tokens, hprint]
  simp [Token.renderAfter]

end Prints

end ContractAudit.TypeText
