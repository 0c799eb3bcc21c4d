import ContractAudit.Proofs.Position.TypeText
import ContractAudit.Proofs.TypeText.Syntax

/-!
# What the readers of types find

Two readers follow a printed type to its innermost name. The one follows the arrow outside all inner parentheses, the
other the first arrow. A key is no mapping, so that the two are the same arrow, and the last parenthesis is the one that
closes the mapping. By induction on the type both end at the same text: the name, with subscripts and names behind
it.
-/

namespace ContractAudit.TypeText

open Text Lexer Syntax

/-! ## Characters of types -/

theorem isBlank_of_isIdentPart {c : Char} (h : isIdentPart c = true) : isBlank c = false := by
  by_cases hstart : isIdentStart c = true
  · exact isBlank_of_isIdentStart hstart
  · have hdigit : c.isDigit = (decide (48 ≤ c.val) && decide (c.val ≤ 57)) := rfl
    have halphanum : c.isAlphanum = (c.isAlpha || c.isDigit) := rfl
    simp only [isIdentStart, isIdentPart, halphanum, hdigit, Bool.or_eq_true, Bool.and_eq_true, decide_eq_true_eq,
      UInt32.le_iff_toNat_le] at h hstart
    refine contains_eq_false (r := [(48, 57)]) (by decide) ⟨(48, 57), List.mem_singleton_self _, ?_⟩
    have hrange : 48 ≤ c.val.toNat ∧ c.val.toNat ≤ 57 := by tauto
    exact hrange

/-- A character of numbers and identifiers. -/
def isSizeChar (c : Char) : Bool := isIdentPart c || isDigit c || c == '.' || c == '-'

theorem isSizeChar_of_mem {kind : TokenKind} {cs : List Char} (hkind : kind = .number ∨ kind = .ident)
    (h : Lexeme kind cs) : ∀ c ∈ cs, isSizeChar c = true := by
  have hpart {c : Char} (hc : isIdentPart c = true) : isSizeChar c = true := by simp [isSizeChar, hc]
  have hdigit {c : Char} (hc : isDigit c = true) : isSizeChar c = true := by simp [isSizeChar, hc]
  cases h with
  | ident hc hcs => exact List.forall_mem_cons.mpr ⟨hpart (isIdentPart_of_isIdentStart hc), fun c h => hpart (hcs c h)⟩
  | @hexadecimal x digits hx hne hdigits =>
    have hletter : ∀ x ∈ ['x', 'X'], isSizeChar x = true := by decide
    refine List.forall_mem_cons.mpr ⟨by decide, List.forall_mem_cons.mpr ⟨hletter x hx, fun c hc => ?_⟩⟩
    rcases Bool.or_eq_true_iff.mp (hdigits c hc) with hhex | hline
    · exact hpart (isIdentPart_of_isHexDigit hhex)
    · rw [beq_iff_eq.mp hline]
      decide
  | @decimal d whole fraction exponent hd hwhole hfraction hexponent =>
    have hletter : ∀ e ∈ ['e', 'E'], isSizeChar e = true := by decide
    have hdigits {ds : List Char} (h : IsDigits ds) : ∀ c ∈ ds, isSizeChar c = true :=
      fun c hc => hdigit (h.digits c hc)
    refine List.forall_mem_cons.mpr ⟨hdigit hd, List.forall_mem_append.mpr
      ⟨fun c hc => ?_, List.forall_mem_append.mpr ⟨?_, ?_⟩⟩⟩
    · rcases Bool.or_eq_true_iff.mp (hwhole c hc) with hdig | hline
      · exact hdigit hdig
      · rw [beq_iff_eq.mp hline]
        decide
    · cases hfraction with
      | none => simp
      | digits h => exact List.forall_mem_cons.mpr ⟨by decide, hdigits h⟩
    · cases hexponent with
      | none => simp
      | plain he h => exact List.forall_mem_cons.mpr ⟨hletter _ he, hdigits h⟩
      | negative he h =>
        exact List.forall_mem_cons.mpr ⟨hletter _ he, List.forall_mem_cons.mpr ⟨by decide, hdigits h⟩⟩
  | string => simp at hkind
  | operator => simp at hkind
  | punct => simp at hkind
  | other => simp at hkind

/-- The first word of a plain type: a name, or names with points between them. -/
structure IsTypeWord (w : List Char) : Prop where
  ne_nil : w ≠ []
  chars : ∀ c ∈ w, isIdentPart c = true ∨ c = '.'

namespace IsTypeWord

variable {w : List Char}

theorem isBlank (h : IsTypeWord w) {c : Char} (hc : c ∈ w) : Text.isBlank c = false := by
  rcases h.chars c hc with hp | rfl
  · exact isBlank_of_isIdentPart hp
  · decide

theorem notMem (h : IsTypeWord w) {c : Char} (hc : isIdentPart c = false ∧ c ≠ '.') : c ∉ w := by
  intro hmem
  rcases h.chars c hmem with hp | hp
  · rw [hc.1] at hp
    cases hp
  · exact hc.2 hp

end IsTypeWord

theorem Word.isTypeWord (w : Word) : IsTypeWord w.text where
  ne_nil := by
    obtain ⟨c, cs, htext, -⟩ := Lexeme.first w.isName
    rw [text, htext]
    exact List.cons_ne_nil c cs
  chars c hc := .inl (w.isName.isIdentPart hc)

theorem PlainType.isTypeWord (p : PlainType) : IsTypeWord p.word := by
  cases p with
  | name root path =>
    refine ⟨List.append_ne_nil_of_left_ne_nil root.isTypeWord.ne_nil _, List.forall_mem_append.mpr
      ⟨root.isTypeWord.chars, fun c hc => ?_⟩⟩
    obtain ⟨q, -, hc⟩ := List.mem_flatMap.mp hc
    rcases List.mem_cons.mp hc with rfl | hc
    · exact .inr rfl
    · exact q.word.isTypeWord.chars c hc
  | payable root mark =>
    rw [word, (spelled_keyword root).2]
    exact ⟨by decide, fun c hc => .inl ((by decide : ∀ c ∈ "address".toList, isIdentPart c = true) c hc)⟩

/-! ## What stands around a word -/

/-- A text that starts and ends with characters that are no blanks. -/
structure IsTight (cs : List Char) : Prop where
  first : ∃ c ∈ cs.head?, isBlank c = false
  last : ∃ c ∈ cs.getLast?, isBlank c = false

section Trim

variable {cs ds : List Char} {c : Char}

theorem trimStart_append (h : ∃ c ∈ cs.head?, isBlank c = false) (ds : List Char) :
    trimStart (cs ++ ds) = cs ++ ds := by
  obtain ⟨c, hc, hblank⟩ := h
  cases cs with
  | nil => cases hc
  | cons d cs =>
    cases hc
    simp [trimStart, hblank]

theorem trimEnd_append (h : ∃ c ∈ cs.getLast?, isBlank c = false) (ds : List Char) :
    trimEnd (cs ++ ds) = cs ++ trimEnd ds := by
  obtain ⟨c, hc, hblank⟩ := h
  have hkeep : cs.reverse.dropWhile isBlank = cs.reverse := by
    cases hr : cs.reverse with
    | nil => rfl
    | cons d rest =>
      rw [← List.head?_reverse, hr] at hc
      cases hc
      simp [hblank]
  rw [trimEnd, trimEnd, List.reverse_append, List.dropWhile_append, hkeep]
  split
  · rename_i hnone
    simp [List.isEmpty_iff.mp hnone]
  · simp

theorem IsTight.trim_append (h : IsTight cs) (ds : List Char) : trim (cs ++ ds) = cs ++ trimEnd ds := by
  rw [trim, trimStart_append h.first, trimEnd_append h.last]

theorem IsTight.trim_eq_self (h : IsTight cs) : trim cs = cs := by
  simpa [trimEnd] using h.trim_append []

theorem IsTight.append (h : IsTight cs) (hd : IsTight ds) (between : List Char) :
    IsTight (cs ++ (between ++ ds)) := by
  obtain ⟨c, hc, hblank⟩ := h.first
  obtain ⟨d, hd, hblank'⟩ := hd.last
  refine ⟨⟨c, ?_, hblank⟩, ⟨d, ?_, hblank'⟩⟩
  · cases cs <;> simp_all
  · simp_all

theorem IsTypeWord.isTight (h : IsTypeWord cs) : IsTight cs where
  first := by
    obtain ⟨c, cs, rfl⟩ := List.exists_cons_of_ne_nil h.ne_nil
    exact ⟨c, rfl, h.isBlank List.mem_cons_self⟩
  last := ⟨cs.getLast h.ne_nil, List.getLast?_eq_some_getLast h.ne_nil, h.isBlank (List.getLast_mem _)⟩

theorem firstWord_append (h : IsTypeWord cs) (hd : ∀ c ∈ ds.head?, c = ' ') : firstWord (cs ++ ds) = cs := by
  rw [firstWord, trimStart_append h.isTight.first]
  refine takeWhile_append_of_stop (fun c hc => by simp [h.isBlank hc]) fun c hc => ?_
  rw [hd c hc]
  decide

end Trim

/-! ## What stands behind a word -/

/-- A text that is empty or starts with a space, and has no subscripts. -/
structure IsSpare (cs : List Char) : Prop where
  head : ∀ c ∈ cs.head?, c = ' '
  notMem : '[' ∉ cs

theorem IsSpare.trimEnd {cs : List Char} (h : IsSpare cs) : IsSpare (Text.trimEnd cs) := by
  obtain ⟨blanks, hrun, -⟩ := exists_trimEnd_append cs
  refine ⟨fun c hc => h.head c ?_, fun hmem => h.notMem (hrun ▸ List.mem_append_left _ hmem)⟩
  rw [← hrun, List.head?_append_of_ne_nil _ (List.ne_nil_of_mem (List.mem_of_mem_head? hc))]
  exact hc

/-- Subscripts and names behind the first word of a type. -/
inductive Trailer : List Char → Prop where
  | nil : Trailer []
  | subscript {size rest : List Char} (hsize : ')' ∉ size ∧ ']' ∉ size) (h : Trailer rest) :
      Trailer ('[' :: (size ++ ']' :: rest))
  /-- The word may be missing where a subscript follows. -/
  | word {w rest : List Char} (hw : ∀ c ∈ w, isIdentPart c = true) (h : Trailer rest) : Trailer (' ' :: (w ++ rest))

namespace Trailer

variable {tail : List Char}

theorem head (h : Trailer tail) : ∀ c ∈ tail.head?, c = ' ' ∨ c = '[' := by
  cases h with
  | nil => simp
  | subscript => simp
  | word => simp

theorem paren_notMem (h : Trailer tail) : ')' ∉ tail := by
  induction h with
  | nil => simp
  | subscript hsize h ih => simp [hsize.1, ih]
  | @word w rest hw h ih =>
    have hparen : ')' ∉ w := fun hmem => absurd (hw _ hmem) (by decide)
    simp [hparen, ih]

end Trailer

theorem removeSubscripts_append {w : List Char} (h : '[' ∉ w) (cs : List Char) :
    removeSubscripts (w ++ cs) = w ++ removeSubscripts cs := by
  induction w with
  | nil => rfl
  | cons c w ih =>
    rw [List.mem_cons, not_or] at h
    rw [List.cons_append, removeSubscripts, if_neg fun hopen => h.1 hopen.1.symm, ih h.2, List.cons_append]

theorem removeSubscripts_of_notMem {cs : List Char} (h : '[' ∉ cs) : removeSubscripts cs = cs := by
  simpa [removeSubscripts] using removeSubscripts_append h []

theorem removeSubscripts_subscript {size rest : List Char} (h : ']' ∉ size) :
    removeSubscripts ('[' :: (size ++ ']' :: rest)) = removeSubscripts rest := by
  have hdrop : (size ++ ']' :: rest).dropWhile (· != ']') = ']' :: rest := by
    have hsize : ∀ c ∈ size, (c != ']') = true := fun c hc => bne_iff_ne.mpr (ne_of_mem_of_not_mem hc h)
    rw [List.dropWhile_append_of_pos hsize]
    simp
  rw [removeSubscripts, if_pos ⟨rfl, by simp⟩, hdrop]
  rfl

theorem Trailer.isSpare {tail : List Char} (h : Trailer tail) : IsSpare (removeSubscripts tail) := by
  induction h with
  | nil => exact ⟨by simp [removeSubscripts], by simp [removeSubscripts]⟩
  | subscript hsize h ih => rwa [removeSubscripts_subscript hsize.2]
  | @word w rest hw h ih =>
    have hopen : '[' ∉ w := fun hmem => absurd (hw _ hmem) (by decide)
    rw [← List.cons_append, removeSubscripts_append (by simpa using hopen)]
    exact ⟨by simp, by simpa using ⟨hopen, ih.notMem⟩⟩

theorem isMapping_append {w tail : List Char} (h : isMapping w = false) (ht : ∀ c ∈ tail.head?, c = ' ' ∨ c = '[') :
    isMapping (w ++ tail) = false := by
  have hletters : ' ' ∉ "mapping".toList ∧ '[' ∉ "mapping".toList := by decide
  rw [isMapping, Bool.eq_false_iff, ne_eq, List.isPrefixOf_iff_prefix] at h ⊢
  intro hpre
  rcases Nat.le_total "mapping".toList.length w.length with hle | hle
  · exact h (List.prefix_of_prefix_length_le hpre (List.prefix_append _ _) hle)
  · obtain ⟨rest, hrest⟩ := List.prefix_of_prefix_length_le (List.prefix_append w tail) hpre hle
    rw [← hrest, List.prefix_append_right_inj] at hpre
    cases rest with
    | nil => exact h ⟨[], by simpa using hrest.symm⟩
    | cons c rest =>
      obtain ⟨tail', rfl⟩ := hpre
      have hc : c ∈ "mapping".toList := hrest ▸ by simp
      rcases ht c rfl with rfl | rfl
      · exact hletters.1 hc
      · exact hletters.2 hc

/-! ## One mapping -/

theorem lastParen_append {before tail : List Char} (h : ')' ∉ tail) :
    lastParen (before ++ ')' :: tail) = before.length := by
  have hfind : (before ++ ')' :: tail).reverse.findIdx? (· == ')') = some tail.length := by
    have hnone : tail.reverse.findIdx? (· == ')') = none := by
      rw [List.findIdx?_eq_none_iff]
      exact fun c hc => beq_eq_false_iff_ne.mpr (ne_of_mem_of_not_mem (List.mem_reverse.mp hc) h)
    simp [List.findIdx?_append, List.findIdx?_cons, hnone]
  rw [lastParen, hfind]
  simp only [List.length_append, List.length_cons]
  omega

theorem afterArrow?_append {head : List Char} (h : ∀ c ∈ ['(', ')', '='], c ∉ head) (depth : Int)
    (rest : List Char) : afterArrow? depth (head ++ rest) = afterArrow? depth rest := by
  induction head with
  | nil => rfl
  | cons c head ih =>
    have hne (d : Char) (hd : d ∈ ['(', ')', '=']) : c ≠ d := fun he => h d hd (he ▸ List.mem_cons_self)
    rw [List.cons_append, afterArrow?]
    · exact ih fun d hd hmem => h d hd (List.mem_cons_of_mem c hmem)
    · exact hne '(' (by decide)
    · exact hne ')' (by decide)
    · exact hne '=' (by decide)

theorem arrowEnd?_append {head : List Char} (h : '=' ∉ head) (rest : List Char) :
    arrowEnd? (head ++ '=' :: '>' :: rest) = some (head.length + 2) := by
  induction head with
  | nil => rfl
  | cons c head ih =>
    rw [List.mem_cons, not_or] at h
    have hne : (c == '=') = false := beq_eq_false_iff_ne.mpr fun he => h.1 he.symm
    rw [List.cons_append, arrowEnd?.eq_def]
    simp [hne, ih h.2]

section Mapping

variable {head tail : List Char}

/-- What a mapping starts with. -/
def mappingStart : List Char := ['m', 'a', 'p', 'p', 'i', 'n', 'g', '(']

theorem toList_mapping : "mapping".toList = ['m', 'a', 'p', 'p', 'i', 'n', 'g'] := by decide

/-- A mapping: what stands in front of the arrow, what stands behind it, and what stands behind the mapping. -/
def mappingText (head value tail : List Char) : List Char :=
  mappingStart ++ (head ++ '=' :: '>' :: (value ++ ')' :: tail))

theorem isMapping_mappingText (head value tail : List Char) : isMapping (mappingText head value tail) = true := by
  rw [isMapping, toList_mapping]
  rfl

theorem take_mappingText (value : List Char) (ht : ')' ∉ tail) :
    (mappingText head value tail).take (lastParen (mappingText head value tail)) =
      mappingStart ++ (head ++ '=' :: '>' :: value) := by
  have hcut : mappingText head value tail = (mappingStart ++ (head ++ '=' :: '>' :: value)) ++ ')' :: tail := by
    simp [mappingText]
  rw [hcut, lastParen_append ht, List.take_left]

theorem mappingValue?_mappingText (value : List Char) (hh : ∀ c ∈ ['(', ')', '='], c ∉ head)
    (ht : ')' ∉ tail) : mappingValue? (mappingText head value tail) = some (trim value) := by
  have hopen : (mappingText head value tail).findIdx? (· == '(') = some 7 := rfl
  have harrow : afterArrow? 0 (head ++ '=' :: '>' :: value) = some value := by
    rw [afterArrow?_append hh]
    rfl
  have hdrop : (mappingStart ++ (head ++ '=' :: '>' :: value)).drop 8 = head ++ '=' :: '>' :: value := rfl
  rw [mappingValue?, take_mappingText value ht]
  simp only [hopen]
  rw [hdrop, harrow, Option.map_some]

theorem valueOf?_mappingText (value : List Char) (hh : ∀ c ∈ ['(', ')', '='], c ∉ head) (ht : ')' ∉ tail) :
    valueOf? (mappingText head value tail) = some (trim value) := by
  have hfront : '=' ∉ mappingStart ++ head := by
    rw [List.mem_append, not_or]
    exact ⟨by decide, hh '=' (by decide)⟩
  have hcut (rest : List Char) : mappingStart ++ (head ++ '=' :: '>' :: rest) =
      (mappingStart ++ head) ++ '=' :: '>' :: rest := by
    rw [List.append_assoc]
  have harrow : arrowEnd? (mappingText head value tail) = some ((mappingStart ++ head).length + 2) := by
    rw [mappingText, hcut, arrowEnd?_append hfront]
  rw [valueOf?, harrow, Option.map_some, take_mappingText value ht, hcut, ← List.drop_drop, List.drop_left]
  rfl

end Mapping

/-! ## Both readings -/

theorem Word.trailer_named (w : Option Word) {tail : List Char} (h : Trailer tail) : Trailer (named w ++ tail) := by
  cases w with
  | none => exact h
  | some w => exact .word (fun c hc => w.isName.isIdentPart hc) h

theorem PlainType.trailer_mark (p : PlainType) {tail : List Char} (h : Trailer tail) : Trailer (p.mark ++ tail) := by
  cases p with
  | name root path => exact h
  | payable root mark =>
    have hword : ∀ c ∈ "payable".toList, isIdentPart c = true := by decide
    rw [PlainType.mark, (spelled_keyword mark).2]
    exact .word hword h

theorem notMem_sizeText (size : Option Size) : ')' ∉ sizeText size ∧ ']' ∉ sizeText size := by
  cases size with
  | none => simp [sizeText]
  | some n =>
    have hchars := isSizeChar_of_mem n.isSize n.isLexeme
    exact ⟨fun h => absurd (hchars _ h) (by decide), fun h => absurd (hchars _ h) (by decide)⟩

theorem TypeTree.trailer_gap (T : TypeTree) {tail : List Char} (h : Trailer tail) : Trailer (T.gap ++ tail) := by
  cases T with
  | plain => exact h
  | mapping => exact .word (w := []) (by simp) h
  | array => exact .word (w := []) (by simp) h

theorem named_chars (name : Option Word) : ∀ c ∈ named name, isIdentPart c = true ∨ c = ' ' := by
  cases name with
  | none => simp [named]
  | some w => exact List.forall_mem_cons.mpr ⟨.inr rfl, fun c hc => .inl (w.isName.isIdentPart hc)⟩

theorem PlainType.mark_chars (p : PlainType) : ∀ c ∈ p.mark, isIdentPart c = true ∨ c = ' ' := by
  cases p with
  | name root path => simp [mark]
  | payable root payable =>
    have hword : ∀ c ∈ "payable".toList, isIdentPart c = true := by decide
    rw [mark, (spelled_keyword payable).2]
    exact List.forall_mem_cons.mpr ⟨.inr rfl, fun c hc => .inl (hword c hc)⟩

/-- What stands in front of the arrow of a mapping. -/
def keyText (key : PlainType) (name : Option Word) : List Char := key.word ++ (key.mark ++ (named name ++ [' ']))

theorem notMem_keyText (key : PlainType) (name : Option Word) {c : Char}
    (hc : isIdentPart c = false ∧ c ≠ '.' ∧ c ≠ ' ') : c ∉ keyText key name := by
  have hnone {cs : List Char} (h : ∀ c ∈ cs, isIdentPart c = true ∨ c = ' ') : c ∉ cs := by
    intro hmem
    rcases h c hmem with hp | hp
    · rw [hc.1] at hp
      cases hp
    · exact hc.2.2 hp
  simp only [keyText, List.mem_append, List.mem_singleton, not_or]
  exact ⟨key.isTypeWord.notMem ⟨hc.1, hc.2.1⟩, hnone key.mark_chars, hnone (named_chars name), hc.2.2⟩

theorem isTight_singleton {c : Char} (h : isBlank c = false) : IsTight [c] := ⟨⟨c, rfl, h⟩, ⟨c, rfl, h⟩⟩

theorem TypeTree.isTight_text (T : TypeTree) : IsTight T.text := by
  induction T with
  | plain p notMapping =>
    have hword := p.isTypeWord.isTight
    cases p with
    | name root path => simpa [text, PlainType.mark] using hword
    | payable root mark =>
      have hmark : IsTight mark.1.text.toList := by
        rw [(spelled_keyword mark).2]
        exact ⟨⟨'p', by decide⟩, ⟨'e', by decide⟩⟩
      exact hword.append hmark [' ']
  | mapping keyword opening key keyName arrow value valueName closing ih =>
    have hkeyword : IsTight keyword.1.text.toList := by
      rw [(spelled_keyword keyword).2]
      exact ⟨⟨'m', by decide⟩, ⟨'g', by decide⟩⟩
    have h := hkeyword.append (isTight_singleton (c := ')') (by decide)) ('(' :: (key.word ++ (key.mark ++
      (named keyName ++ ' ' :: (arrow.1.text.toList ++ ' ' :: (value.text ++ named valueName))))))
    simpa [text] using h
  | array element opening size closing ih =>
    have h := ih.append (isTight_singleton (c := ']') (by decide)) (element.gap ++ '[' :: sizeText size)
    simpa [text] using h

theorem IsTight.append_named {cs : List Char} (h : IsTight cs) (name : Option Word) : IsTight (cs ++ named name) := by
  cases name with
  | none => simpa [named] using h
  | some w => exact h.append w.isTypeWord.isTight [' ']

/-- Both readings of a type end at its innermost name, with only subscripts and names behind it. -/
theorem TypeTree.exists_trailer (T : TypeTree) {tail : List Char} (ht : Trailer tail) :
    ∃ tail', Trailer tail' ∧ innermost (T.text ++ tail) = some (T.leaf.word ++ tail') ∧
      valueFrom (T.text ++ tail) = T.leaf.word ++ tail' ∧ isMapping T.leaf.word = false := by
  induction T generalizing tail with
  | plain p notMapping =>
    have hmark := p.trailer_mark ht
    have hmapping := isMapping_append notMapping hmark.head
    refine ⟨p.mark ++ tail, hmark, ?_, ?_, notMapping⟩
    · rw [text, List.append_assoc, Position.innermost_eq, hmapping]
      rfl
    · rw [text, List.append_assoc, Position.valueFrom_eq, hmapping]
      rfl
  | mapping keyword opening key keyName arrow value valueName closing ih =>
    obtain ⟨tail', ht', hinner, hvalue, hleaf⟩ := ih (Word.trailer_named valueName .nil)
    have htext : (mapping keyword opening key keyName arrow value valueName closing).text ++ tail =
        mappingText (keyText key keyName) (' ' :: (value.text ++ named valueName)) tail := by
      have harrow : arrow.1.text.toList = ['=', '>'] := by
        rw [(Token.isOperator_iff.mp arrow.2).2]
        decide
      simp only [text, mappingText, mappingStart, keyText, (spelled_keyword keyword).2, toList_mapping, harrow,
        List.append_assoc, List.cons_append, List.nil_append]
    have htrim : trim (' ' :: (value.text ++ named valueName)) = value.text ++ named valueName := by
      rw [trim, trimStart, List.dropWhile_cons_of_pos (by decide)]
      exact (value.isTight_text.append_named valueName).trim_eq_self
    have hhead : ∀ c ∈ ['(', ')', '='], c ∉ keyText key keyName := by
      have hmarks : ∀ c ∈ ['(', ')', '='], isIdentPart c = false ∧ c ≠ '.' ∧ c ≠ ' ' := by decide
      exact fun c hc => notMem_keyText key keyName (hmarks c hc)
    rw [List.append_nil] at hinner hvalue
    refine ⟨tail', ht', ?_, ?_, hleaf⟩
    · rw [htext, Position.innermost_eq, isMapping_mappingText, mappingValue?_mappingText _ hhead ht.paren_notMem, htrim]
      exact hinner
    · rw [htext, Position.valueFrom_eq, isMapping_mappingText, valueOf?_mappingText _ hhead ht.paren_notMem, htrim]
      exact hvalue
  | array element opening size closing ih =>
    have hsub := element.trailer_gap (.subscript (notMem_sizeText size) ht)
    obtain ⟨tail', ht', hinner, hvalue, hleaf⟩ := ih hsub
    have htext : (array element opening size closing).text ++ tail =
        element.text ++ (element.gap ++ '[' :: (sizeText size ++ ']' :: tail)) := by
      simp [text]
    rw [htext]
    exact ⟨tail', ht', hinner, hvalue, hleaf⟩

theorem referencedName?_of_innermost {declared : String} {p : PlainType} {tail : List Char}
    (hinner : innermost (trim declared.toList) = some (p.word ++ tail))
    (ht : IsSpare (removeSubscripts tail)) : referencedName? declared = p.reference := by
  have hword := p.isTypeWord
  have hfirst : firstWord (removeSubscripts (p.word ++ tail)) = p.word := by
    rw [removeSubscripts_append (hword.notMem (by decide)), firstWord_append hword ht.head]
  have hname : isElementary (String.ofList p.word) = isElementaryName p.word := by
    rw [isElementary, String.toList_ofList, hword.isTight.trim_eq_self]
  rw [referencedName?, hinner, PlainType.reference, hname]
  simp [hfirst, hword.ne_nil]

namespace TypeTree

variable (T : TypeTree)

theorem referencedName?_render : referencedName? (Token.render T.tokens) = T.reference := by
  obtain ⟨tail, htail, hinner, -⟩ := T.exists_trailer .nil
  refine referencedName?_of_innermost ?_ htail.isSpare
  rw [T.toList_render, T.isTight_text.trim_eq_self]
  simpa using hinner

theorem exists_valueType_render : ∃ rest, IsSpare rest ∧ isMapping T.leaf.word = false ∧
    (valueType (Token.render T.tokens)).toList = T.leaf.word ++ rest := by
  obtain ⟨tail, htail, -, hvalue, hleaf⟩ := T.exists_trailer .nil
  refine ⟨_, htail.isSpare.trimEnd, hleaf, ?_⟩
  rw [List.append_nil] at hvalue
  rw [valueType, String.toList_ofList, T.toList_render, hvalue,
    removeSubscripts_append (T.leaf.isTypeWord.notMem (by decide)), T.leaf.isTypeWord.isTight.trim_append]

theorem referencedName?_valueType : referencedName? (valueType (Token.render T.tokens)) = T.reference := by
  obtain ⟨rest, hrest, hleaf, hvalue⟩ := T.exists_valueType_render
  have hspare := hrest.trimEnd
  have hinner : innermost (trim (valueType (Token.render T.tokens)).toList) =
      some (T.leaf.word ++ Text.trimEnd rest) := by
    rw [hvalue, T.leaf.isTypeWord.isTight.trim_append, Position.innermost_eq,
      isMapping_append hleaf fun c hc => .inl (hspare.head c hc)]
    rfl
  refine referencedName?_of_innermost hinner ?_
  rwa [removeSubscripts_of_notMem hspare.notMem]

theorem isAddress_valueType : isAddress (valueType (Token.render T.tokens)) = (T.leaf.word == "address".toList) := by
  obtain ⟨rest, hrest, -, hvalue⟩ := T.exists_valueType_render
  rw [isAddress, hvalue, firstWord_append T.leaf.isTypeWord hrest.head]

end TypeTree

end ContractAudit.TypeText
