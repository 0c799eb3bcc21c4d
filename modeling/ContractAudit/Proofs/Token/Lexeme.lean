import ContractAudit.Token.Lexer
import Mathlib.Data.List.Find

/-!
# Lexemes

`Lexeme kind text` is the grammar of the tokens: which texts a token of each kind can have. Every token that
is read has a text of its kind. In the other direction, a lexeme in front of other text is read back as it is
if it `Stops` there, that is, if no rule carries it on into what follows. A string ends at its quote and a
punctuation mark is one character, so these stop everywhere; a number, a word and an operator go on as far as
they can.
-/

namespace ContractAudit

open Text

namespace Lexer

/-! ## The grammar -/

/-- What may stand in front of the opening quote of a string. -/
def marks : List (List Char) := [[], ['h', 'e', 'x'], ['u', 'n', 'i', 'c', 'o', 'd', 'e']]

/-- The rest of a string behind its opening quote. -/
inductive Quoted (quote : Char) : List Char → Prop where
  | close : Quoted quote [quote]
  | escaped (c : Char) {cs : List Char} (h : Quoted quote cs) : Quoted quote ('\\' :: c :: cs)
  | plain {c : Char} {cs : List Char} (hquote : c ≠ quote) (hline : c ≠ '\n') (hescape : c ≠ '\\')
      (h : Quoted quote cs) : Quoted quote (c :: cs)

/-- One or more digits. -/
structure IsDigits (cs : List Char) : Prop where
  ne_nil : cs ≠ []
  digits : ∀ c ∈ cs, isDigit c = true

inductive Fraction : List Char → Prop where
  | none : Fraction []
  | digits {ds : List Char} (h : IsDigits ds) : Fraction ('.' :: ds)

inductive Exponent : List Char → Prop where
  | none : Exponent []
  | plain {e : Char} {ds : List Char} (he : e ∈ ['e', 'E']) (h : IsDigits ds) : Exponent (e :: ds)
  | negative {e : Char} {ds : List Char} (he : e ∈ ['e', 'E']) (h : IsDigits ds) : Exponent (e :: '-' :: ds)

/-- A character that starts no piece of more than one character, a quote without its partner apart. -/
structure IsStray (c : Char) : Prop where
  blank : isBlank c = false
  digit : isDigit c = false
  ident : isIdentStart c = false
  operator : ∀ op ∈ operators, op.head? ≠ some c
  punct : isPunctuation c = false

/-- The texts that a token of each kind can have. -/
inductive Lexeme : TokenKind → List Char → Prop where
  | string {mark body : List Char} {quote : Char} (hmark : mark ∈ marks) (hquote : isQuote quote = true)
      (hbody : Quoted quote body) : Lexeme .string (mark ++ quote :: body)
  | hexadecimal {x : Char} {digits : List Char} (hx : x ∈ ['x', 'X']) (hne : digits ≠ [])
      (hdigits : ∀ c ∈ digits, (isHexDigit c || c == '_') = true) : Lexeme .number ('0' :: x :: digits)
  | decimal {d : Char} {whole fraction exponent : List Char} (hd : isDigit d = true)
      (hwhole : ∀ c ∈ whole, (isDigit c || c == '_') = true) (hfraction : Fraction fraction)
      (hexponent : Exponent exponent) : Lexeme .number (d :: (whole ++ (fraction ++ exponent)))
  | ident {c : Char} {cs : List Char} (hc : isIdentStart c = true) (hcs : ∀ c ∈ cs, isIdentPart c = true) :
      Lexeme .ident (c :: cs)
  | operator {op : List Char} (hop : op ∈ operators) : Lexeme .operator op
  | punct {c : Char} (hc : isPunctuation c = true) : Lexeme .punct [c]
  | other {c : Char} (hc : IsStray c) : Lexeme .other [c]

/-! ## Characters -/

-- What the characters of a list have is decided on the list, not on all characters there are.
scoped instance (priority := 2000) decidableForallMem (p : Char → Prop) [DecidablePred p] (l : List Char) :
    Decidable (∀ c ∈ l, p c) :=
  List.decidableBAll p l

/-- The characters that start a word, as ranges of code points. -/
def identRanges : Ranges := [(36, 36), (65, 90), (95, 95), (97, 122)]

theorem exists_range_of_isIdentStart {c : Char} (h : isIdentStart c = true) :
    ∃ p ∈ identRanges, p.1 ≤ c.toNat ∧ c.toNat ≤ p.2 := by
  have hupper : c.isUpper = decide (65 ≤ c.val ∧ c.val ≤ 90) := rfl
  have hlower : c.isLower = (decide (97 ≤ c.val) && decide (c.val ≤ 122)) := rfl
  have halpha : c.isAlpha = (c.isUpper || c.isLower) := rfl
  simp only [isIdentStart, halpha, hupper, hlower, Bool.or_eq_true, Bool.and_eq_true, decide_eq_true_eq,
    UInt32.le_iff_toNat_le, beq_iff_eq] at h
  rcases h with ((h | h) | rfl) | rfl
  · exact ⟨(65, 90), by decide, h⟩
  · exact ⟨(97, 122), by decide, h⟩
  · exact ⟨(95, 95), by decide⟩
  · exact ⟨(36, 36), by decide⟩

/-- A class has no character in ranges that lie apart from its own. -/
theorem contains_eq_false {r s : Ranges} {n : Nat} (hapart : ∀ p ∈ r, ∀ q ∈ s, p.2 < q.1 ∨ q.2 < p.1)
    (h : ∃ p ∈ r, p.1 ≤ n ∧ n ≤ p.2) : s.contains n = false := by
  rw [Bool.eq_false_iff]
  intro hs
  obtain ⟨p, hp, hlow, hhigh⟩ := h
  obtain ⟨q, hq, hlow', hhigh'⟩ := Ranges.mem_of_contains hs
  have := hapart p hp q hq
  omega

theorem isBlank_of_isIdentStart {c : Char} (h : isIdentStart c = true) : isBlank c = false :=
  contains_eq_false (by decide) (exists_range_of_isIdentStart h)

theorem isDigit_of_isIdentStart {c : Char} (h : isIdentStart c = true) : isDigit c = false :=
  contains_eq_false (by decide) (exists_range_of_isIdentStart h)

theorem isBlank_of_isDigit {c : Char} (h : isDigit c = true) : isBlank c = false :=
  contains_eq_false (by decide) (Ranges.mem_of_contains h)

theorem isIdentPart_of_isIdentStart {c : Char} (h : isIdentStart c = true) : isIdentPart c = true := by
  have halphanum : c.isAlphanum = (c.isAlpha || c.isDigit) := rfl
  simp only [isIdentStart, isIdentPart, halphanum, Bool.or_eq_true] at h ⊢
  exact h.imp_left (Or.imp_left .inl)

theorem isIdentPart_of_isHexDigit {c : Char} (h : isHexDigit c = true) : isIdentPart c = true := by
  have hdigit : c.isDigit = (decide (48 ≤ c.val) && decide (c.val ≤ 57)) := rfl
  have hupper : c.isUpper = decide (65 ≤ c.val ∧ c.val ≤ 90) := rfl
  have hlower : c.isLower = (decide (97 ≤ c.val) && decide (c.val ≤ 122)) := rfl
  have halphanum : c.isAlphanum = (c.isUpper || c.isLower || c.isDigit) := rfl
  simp only [isHexDigit, isIdentPart, halphanum, hupper, hlower, hdigit, Bool.or_eq_true, Bool.and_eq_true,
    decide_eq_true_eq, Char.le_def, UInt32.le_iff_toNat_le] at h ⊢
  change ((48 ≤ c.val.toNat ∧ c.val.toNat ≤ 57) ∨ (97 ≤ c.val.toNat ∧ c.val.toNat ≤ 102)) ∨
    (65 ≤ c.val.toNat ∧ c.val.toNat ≤ 70) at h
  change ((((65 ≤ c.val.toNat ∧ c.val.toNat ≤ 90) ∨ (97 ≤ c.val.toNat ∧ c.val.toNat ≤ 122)) ∨
    (48 ≤ c.val.toNat ∧ c.val.toNat ≤ 57)) ∨ _) ∨ _
  omega

theorem eq_of_isQuote {c : Char} (h : isQuote c = true) : c = '"' ∨ c = '\'' := by
  simpa [isQuote] using h

/-- A character that starts no blank, string, number or word. -/
def isSymbol (c : Char) : Bool := ! (isBlank c || isQuote c || isDigit c || isIdentStart c)

theorem isSymbol_iff {c : Char} : isSymbol c = true ↔
    isBlank c = false ∧ isQuote c = false ∧ isDigit c = false ∧ isIdentStart c = false := by
  simp [isSymbol, and_assoc]

theorem isSymbol_of_mem_operators {op : List Char} (h : op ∈ operators) :
    ∃ c cs, op = c :: cs ∧ isSymbol c = true ∧ c ≠ '.' := by
  have hfirst : ∀ op ∈ operators, op ≠ [] ∧ ∀ c ∈ op.take 1, isSymbol c = true ∧ c ≠ '.' := by decide
  obtain ⟨hne, hc⟩ := hfirst op h
  obtain ⟨c, cs, rfl⟩ := List.exists_cons_of_ne_nil hne
  exact ⟨c, cs, rfl, hc c List.mem_cons_self⟩

theorem isSymbol_of_isPunctuation {c : Char} (h : isPunctuation c = true) :
    isSymbol c = true ∧ ∀ op ∈ operators, op.head? ≠ some c := by
  have hpunct : ∀ c ∈ ['(', ')', '[', ']', '{', '}', ';', ',', '.'],
      isSymbol c = true ∧ ∀ op ∈ operators, op.head? ≠ some c := by decide
  exact hpunct c (by simpa [isPunctuation] using h)

/-- What a string starts with: a quote or the first character of a mark. -/
def stringStarts : List Char := ['"', '\'', 'h', 'u']

theorem exists_stringStart {mark cs : List Char} {quote : Char} (hmark : mark ∈ marks)
    (hquote : isQuote quote = true) : ∃ c ∈ stringStarts, ∃ tail, mark ++ quote :: cs = c :: tail := by
  simp only [marks, List.mem_cons, List.not_mem_nil, or_false] at hmark
  rcases hmark with rfl | rfl | rfl
  · rcases eq_of_isQuote hquote with rfl | rfl
    · exact ⟨'"', by decide, cs, rfl⟩
    · exact ⟨'\'', by decide, cs, rfl⟩
  · exact ⟨'h', by decide, _, rfl⟩
  · exact ⟨'u', by decide, _, rfl⟩

/-! ## Texts that go on as far as they can -/

theorem takeWhile_append_of_stop {p : Char → Bool} {run rest : List Char} (hrun : ∀ c ∈ run, p c = true)
    (hrest : ∀ c ∈ rest.head?, p c = false) : (run ++ rest).takeWhile p = run := by
  rw [List.takeWhile_append_of_pos hrun]
  cases rest with
  | nil => simp
  | cons c rest => simp [hrest c rfl]

theorem length_takeWhile_digits {ds rest : List Char} (h : IsDigits ds)
    (hrest : ∀ c ∈ rest.head?, isDigit c = false) :
    ∃ n, ((ds ++ rest).takeWhile isDigit).length = n + 1 ∧ ds.length = n + 1 := by
  rw [takeWhile_append_of_stop h.digits hrest]
  exact ⟨ds.length - 1, by have := List.length_pos_iff.mpr h.ne_nil; omega⟩

theorem fractionLength_append {fraction rest : List Char} (h : Fraction fraction)
    (hrest : ∀ c ∈ rest.head?, isDigit c = false) (hpoint : ∀ d, isDigit d = true → ¬ ['.', d] <+: rest) :
    fractionLength (fraction ++ rest) = fraction.length := by
  cases h with
  | none =>
    rw [List.nil_append]
    fun_cases fractionLength rest with
    | case1 cs hcs => rfl
    | case2 cs n hcs =>
      exfalso
      cases cs with
      | nil => cases hcs
      | cons d cs =>
        cases hd : isDigit d with
        | true => exact hpoint d hd ⟨cs, rfl⟩
        | false => simp [hd] at hcs
    | case3 => rfl
  | digits h =>
    obtain ⟨n, hn, hlength⟩ := length_takeWhile_digits h hrest
    simp [fractionLength, hn, hlength]

theorem exponentLength_append {exponent rest : List Char} (h : Exponent exponent)
    (hrest : ∀ c ∈ rest.head?, isDigit c = false) (hmark : ∀ c ∈ rest.head?, c ≠ 'e' ∧ c ≠ 'E') :
    exponentLength (exponent ++ rest) = exponent.length := by
  cases h with
  | none =>
    cases rest with
    | nil => rfl
    | cons c rest => simp [exponentLength, hmark c rfl]
  | @plain e ds he h =>
    obtain ⟨n, hn, hlength⟩ := length_takeWhile_digits h hrest
    cases ds with
    | nil => exact absurd rfl h.ne_nil
    | cons d ds =>
      have hd : d ≠ '-' := by
        rintro rfl
        exact absurd (h.digits _ List.mem_cons_self) (by decide)
      rw [List.cons_append] at hn
      rw [List.cons_append, List.cons_append, exponentLength, if_pos (by simpa using he)]
      · simp [hn, hlength]
      · rintro tail heq
        exact hd (List.cons.inj heq).1
  | negative he h =>
    obtain ⟨n, hn, hlength⟩ := length_takeWhile_digits h hrest
    rw [List.cons_append, List.cons_append, exponentLength, if_pos (by simpa using he)]
    simp [hn, hlength]

section First

variable {P : Char → Prop} {rest : List Char}

theorem head?_append_of_forall {run : List Char} (h : ∀ c ∈ run, P c) (hrest : ∀ c ∈ rest.head?, P c) :
    ∀ c ∈ (run ++ rest).head?, P c := by
  cases run with
  | nil => exact hrest
  | cons d run =>
    rintro c ⟨⟩
    exact h _ List.mem_cons_self

theorem Fraction.head?_append {fraction : List Char} (h : Fraction fraction) (hpoint : P '.')
    (hrest : ∀ c ∈ rest.head?, P c) : ∀ c ∈ (fraction ++ rest).head?, P c := by
  cases h with
  | none => exact hrest
  | digits =>
    rintro c ⟨⟩
    exact hpoint

theorem Exponent.head?_append {exponent : List Char} (h : Exponent exponent)
    (hmark : ∀ e ∈ ['e', 'E'], P e) (hrest : ∀ c ∈ rest.head?, P c) :
    ∀ c ∈ (exponent ++ rest).head?, P c := by
  cases h with
  | none => exact hrest
  | plain he =>
    rintro c ⟨⟩
    exact hmark _ he
  | negative he =>
    rintro c ⟨⟩
    exact hmark _ he

end First

/-- The text goes on with no digit and no part of a word. -/
def StopsWord (rest : List Char) : Prop := ∀ c ∈ rest.head?, isDigit c = false ∧ isIdentPart c = false

theorem StopsWord.ne {rest : List Char} (h : StopsWord rest) {d : Char} (hd : isIdentPart d = true) :
    ∀ c ∈ rest.head?, c ≠ d := by
  rintro c hc rfl
  rw [(h c hc).2] at hd
  cases hd

theorem Exponent.no_point {exponent rest : List Char} (h : Exponent exponent)
    (hpoint : ∀ d, isDigit d = true → ¬ ['.', d] <+: rest) :
    ∀ d, isDigit d = true → ¬ ['.', d] <+: exponent ++ rest := by
  have hmark : ∀ e ∈ ['e', 'E'], '.' ≠ e := by decide
  cases h with
  | none => exact hpoint
  | plain he => exact fun d _ hpre => hmark _ he (List.cons_prefix_cons.mp hpre).1
  | negative he => exact fun d _ hpre => hmark _ he (List.cons_prefix_cons.mp hpre).1

theorem decimalLength_append {whole fraction exponent rest : List Char}
    (hwhole : ∀ c ∈ whole, (isDigit c || c == '_') = true) (hfraction : Fraction fraction)
    (hexponent : Exponent exponent) (hrest : StopsWord rest)
    (hpoint : ∀ d, isDigit d = true → ¬ ['.', d] <+: rest) :
    decimalLength (whole ++ (fraction ++ (exponent ++ rest))) =
      whole.length + fraction.length + exponent.length := by
  have hhead : ∀ c ∈ (exponent ++ rest).head?, (isDigit c || c == '_') = false := by
    refine hexponent.head?_append (by decide) fun c hc => ?_
    simp [(hrest c hc).1, hrest.ne (d := '_') (by decide) c hc]
  have hexp : exponentLength (exponent ++ rest) = exponent.length :=
    exponentLength_append hexponent (fun c hc => (hrest c hc).1) fun c hc =>
      ⟨hrest.ne (by decide) c hc, hrest.ne (by decide) c hc⟩
  have hfrac : fractionLength (fraction ++ (exponent ++ rest)) = fraction.length := by
    refine fractionLength_append hfraction (fun c hc => ?_) (hexponent.no_point hpoint)
    exact (Bool.or_eq_false_iff.mp (hhead c hc)).1
  have hrun : (whole ++ (fraction ++ (exponent ++ rest))).takeWhile (fun c => isDigit c || c == '_') = whole :=
    takeWhile_append_of_stop hwhole (hfraction.head?_append (by decide) hhead)
  simp only [decimalLength, hrun, List.drop_left, hfrac]
  rw [← List.append_assoc, ← List.length_append, List.drop_left, hexp]

/-! ## What is read is a lexeme -/

/-- The text begins with a piece of `n` characters that has the property. -/
def Begins (P : List Char → Prop) (cs : List Char) (n : Nat) : Prop :=
  ∃ piece rest, cs = piece ++ rest ∧ piece.length = n ∧ P piece

theorem begins_takeWhile (p : Char → Bool) (cs : List Char) :
    Begins (∀ c ∈ ·, p c = true) cs (cs.takeWhile p).length :=
  ⟨_, cs.dropWhile p, List.takeWhile_append_dropWhile.symm, rfl, List.all_eq_true.mp List.all_takeWhile⟩

theorem isDigits_takeWhile {cs : List Char} {n : Nat} (h : (cs.takeWhile isDigit).length = n + 1) :
    IsDigits (cs.takeWhile isDigit) where
  ne_nil := List.ne_nil_of_length_eq_add_one h
  digits := List.all_eq_true.mp List.all_takeWhile

theorem begins_fraction (cs : List Char) : Begins Fraction cs (fractionLength cs) := by
  fun_cases fractionLength cs with
  | case1 => exact ⟨[], _, rfl, rfl, .none⟩
  | case2 cs n hn =>
    exact ⟨'.' :: cs.takeWhile isDigit, cs.dropWhile isDigit, by simp, by simp [hn],
      .digits (isDigits_takeWhile hn)⟩
  | case3 => exact ⟨[], _, rfl, rfl, .none⟩

theorem begins_exponent (cs : List Char) : Begins Exponent cs (exponentLength cs) := by
  fun_cases exponentLength cs with
  | case1 => exact ⟨[], _, rfl, rfl, .none⟩
  | case2 e he ds n hn =>
    exact ⟨e :: '-' :: ds.takeWhile isDigit, ds.dropWhile isDigit, by simp, by simp [hn],
      .negative (by simpa using he) (isDigits_takeWhile hn)⟩
  | case3 => exact ⟨[], _, rfl, rfl, .none⟩
  | case4 e he ds _ n hn =>
    exact ⟨e :: ds.takeWhile isDigit, ds.dropWhile isDigit, by simp, by simp [hn],
      .plain (by simpa using he) (isDigits_takeWhile hn)⟩
  | case5 => exact ⟨[], _, rfl, rfl, .none⟩
  | case6 => exact ⟨[], _, rfl, rfl, .none⟩

theorem begins_decimal {d : Char} (hd : isDigit d = true) (cs : List Char) :
    Begins (Lexeme .number) (d :: cs) (decimalLength cs + 1) := by
  obtain ⟨whole, rest, rfl, hwlength, hwhole⟩ := begins_takeWhile (fun c => isDigit c || c == '_') cs
  obtain ⟨fraction, rest, rfl, hflength, hfraction⟩ := begins_fraction rest
  obtain ⟨exponent, rest, rfl, helength, hexponent⟩ := begins_exponent rest
  refine ⟨d :: (whole ++ (fraction ++ exponent)), rest, by simp, ?_, .decimal hd hwhole hfraction hexponent⟩
  have hdrop : (whole ++ (fraction ++ (exponent ++ rest))).drop (whole.length + fraction.length) =
      exponent ++ rest := by
    rw [← List.append_assoc, ← List.length_append, List.drop_left]
  simp only [decimalLength, ← hwlength, List.drop_left, ← hflength, hdrop, ← helength, List.length_cons,
    List.length_append]
  omega

theorem begins_of_hexLength {cs : List Char} {n : Nat} (h : hexLength cs = some n) :
    Begins (Lexeme .number) cs n := by
  fun_cases hexLength cs with
  | case2 x cs hx m hm =>
    simp only [hexLength, hx, if_true, hm, Option.some.injEq] at h
    obtain ⟨digits, rest, rfl, hlength, hdigits⟩ := begins_takeWhile (fun c => isHexDigit c || c == '_') cs
    rw [hm] at hlength
    refine ⟨'0' :: x :: digits, rest, rfl, by simp [hlength, ← h], ?_⟩
    exact .hexadecimal (by simpa using hx) (List.ne_nil_of_length_eq_add_one hlength) hdigits
  | case1 x cs hx hm => simp [hexLength, hx, hm] at h
  | case3 x cs hx => simp [hexLength, hx] at h
  | case4 cs hcs => simp [hexLength] at h

theorem isDigit_of_numberLength {c : Char} {cs : List Char} (h : numberLength (c :: cs) = none) :
    isDigit c = false := by
  simp only [numberLength] at h
  split at h
  · cases h
  · simpa using h

theorem begins_of_numberLength {cs : List Char} {n : Nat} (h : numberLength cs = some n) :
    Begins (Lexeme .number) cs n := by
  cases cs with
  | nil => cases h
  | cons c cs =>
    simp only [numberLength] at h
    split at h
    · rename_i m hm
      cases h
      exact begins_of_hexLength hm
    · split at h
      · rename_i hc
        cases h
        exact begins_decimal hc cs
      · cases h

theorem begins_of_quotedLength {quote : Char} {cs : List Char} {n : Nat}
    (h : quotedLength quote cs = some n) : Begins (Quoted quote) cs n := by
  fun_induction quotedLength quote cs generalizing n with
  | case1 => cases h
  | case2 c cs ih =>
    obtain ⟨m, hm, rfl⟩ := Option.map_eq_some_iff.mp h
    obtain ⟨piece, rest, rfl, rfl, hpiece⟩ := ih hm
    exact ⟨'\\' :: c :: piece, rest, rfl, rfl, .escaped c hpiece⟩
  | case3 cs =>
    cases h
    exact ⟨[quote], cs, rfl, rfl, .close⟩
  | case4 => cases h
  | case5 c cs _ hquote hstop ih =>
    obtain ⟨m, hm, rfl⟩ := Option.map_eq_some_iff.mp h
    obtain ⟨piece, rest, rfl, rfl, hpiece⟩ := ih hm
    simp only [Bool.or_eq_true, decide_eq_true_eq, not_or] at hstop
    exact ⟨c :: piece, rest, rfl, rfl, .plain hquote hstop.1 hstop.2 hpiece⟩

theorem begins_string {mark cs : List Char} {quote : Char} {n : Nat} (hmark : mark ∈ marks)
    (hquote : isQuote quote = true) (h : quotedLength quote cs = some n) :
    Begins (Lexeme .string) (mark ++ quote :: cs) (n + (mark.length + 1)) := by
  obtain ⟨body, rest, rfl, rfl, hbody⟩ := begins_of_quotedLength h
  exact ⟨mark ++ quote :: body, rest, by simp, by simp; omega, .string hmark hquote hbody⟩

theorem begins_of_stringLength {cs : List Char} {n : Nat} (h : stringLength cs = some n) :
    Begins (Lexeme .string) cs n := by
  unfold stringLength at h
  split at h
  · split at h
    · rename_i q cs hq
      obtain ⟨m, hm, rfl⟩ := Option.map_eq_some_iff.mp h
      exact @begins_string ['h', 'e', 'x'] _ _ _ (by decide) hq hm
    · cases h
  · split at h
    · rename_i q cs hq
      obtain ⟨m, hm, rfl⟩ := Option.map_eq_some_iff.mp h
      exact @begins_string ['u', 'n', 'i', 'c', 'o', 'd', 'e'] _ _ _ (by decide) hq hm
    · cases h
  · split at h
    · rename_i hq
      obtain ⟨m, hm, rfl⟩ := Option.map_eq_some_iff.mp h
      exact @begins_string [] _ _ _ (by decide) hq hm
    · cases h
  · cases h

theorem begins_of_identLength {cs : List Char} {n : Nat} (h : identLength cs = some n) :
    Begins (Lexeme .ident) cs n := by
  cases cs with
  | nil => cases h
  | cons c cs =>
    simp only [identLength] at h
    split at h
    · rename_i hc
      cases h
      obtain ⟨part, rest, rfl, hlength, hpart⟩ := begins_takeWhile isIdentPart cs
      exact ⟨c :: part, rest, rfl, by simp [hlength], .ident hc hpart⟩
    · cases h

theorem begins_of_operatorLength {cs : List Char} {n : Nat} (h : operatorLength cs = some n) :
    Begins (Lexeme .operator) cs n := by
  obtain ⟨op, hop, rfl⟩ := Option.map_eq_some_iff.mp h
  have hfits := List.find?_some hop
  obtain ⟨rest, hrest⟩ := List.isPrefixOf_iff_prefix.mp hfits
  exact ⟨op, rest, hrest.symm, rfl, .operator (List.mem_of_find?_eq_some hop)⟩

/-- Every character that starts an operator is one by itself. -/
theorem operatorLength_eq_none {c : Char} {cs : List Char} :
    operatorLength (c :: cs) = none ↔ ∀ op ∈ operators, op.head? ≠ some c := by
  have hsingle : ∀ op ∈ operators, op.take 1 ∈ operators := by decide
  rw [operatorLength, Option.map_eq_none_iff, List.find?_eq_none]
  constructor
  · intro h op hop hc
    obtain ⟨cs', rfl⟩ := List.head?_eq_some_iff.mp hc
    exact h [c] (hsingle _ hop) (by simp)
  · intro h op hop hfits
    obtain ⟨d, op', rfl, -⟩ := isSymbol_of_mem_operators hop
    obtain ⟨rfl, -⟩ := List.cons_prefix_cons.mp (List.isPrefixOf_iff_prefix.mp hfits)
    exact h _ hop rfl

theorem begins_lexeme {cs : List Char} {kind : TokenKind} {n : Nat} (hne : cs ≠ [])
    (h : pieceAt cs = (.lexeme kind, n)) : Begins (Lexeme kind) cs n := by
  obtain ⟨c, cs, rfl⟩ := List.exists_cons_of_ne_nil hne
  unfold pieceAt at h
  split at h
  · cases h
  rename_i hblank
  split at h
  · cases h
  split at h
  · rename_i m hm
    cases h
    exact begins_of_stringLength hm
  split at h
  · rename_i m hm
    cases h
    exact begins_of_numberLength hm
  rename_i hnumber
  split at h
  · rename_i m hm
    cases h
    exact begins_of_identLength hm
  rename_i hident
  split at h
  · rename_i m hm
    cases h
    exact begins_of_operatorLength hm
  rename_i hoperator
  simp only at h
  split at h
  · rename_i hpunct
    cases h
    exact ⟨[c], cs, rfl, rfl, .punct hpunct⟩
  · rename_i hpunct
    cases h
    refine ⟨[c], cs, rfl, rfl, .other ⟨?_, ?_, ?_, operatorLength_eq_none.mp hoperator, ?_⟩⟩
    · simpa [blankLength] using hblank
    · exact isDigit_of_numberLength hnumber
    · simpa [identLength] using hident
    · simpa using hpunct

/-! ## A lexeme is read back -/

/-- The piece of the kind is not carried on into the text that follows it. -/
def Stops (piece rest : List Char) : TokenKind → Prop
  | .string | .punct => True
  | .other => ∀ c ∈ piece, isQuote c = false
  | .ident => ∀ c ∈ rest.head?, isIdentPart c = false ∧ isQuote c = false
  | .number => StopsWord rest ∧ ∀ d, isDigit d = true → ¬ ['.', d] <+: rest
  | .operator => ∀ c ∈ rest.head?,
      (piece = ['/'] → c ≠ '/' ∧ c ≠ '*') ∧ ∀ op ∈ operators, ¬ piece ++ [c] <+: op

theorem quotedLength_append {quote : Char} {body : List Char} (h : Quoted quote body) (hq : quote ≠ '\\')
    (rest : List Char) : quotedLength quote (body ++ rest) = some body.length := by
  induction h with
  | close => simp [quotedLength, hq]
  | escaped c _ ih => simp [quotedLength, ih]
  | plain hquote hline hescape _ ih => simp [quotedLength, hquote, hline, hescape, ih]

theorem stringLength_append {mark body : List Char} {quote : Char} (hmark : mark ∈ marks)
    (hquote : isQuote quote = true) (hbody : Quoted quote body) (rest : List Char) :
    stringLength (mark ++ quote :: (body ++ rest)) = some (mark.length + (body.length + 1)) := by
  have hescape : quote ≠ '\\' := by
    rintro rfl
    exact absurd hquote (by decide)
  have hlength := quotedLength_append hbody hescape rest
  simp only [marks, List.mem_cons, List.not_mem_nil, or_false] at hmark
  rcases hmark with rfl | rfl | rfl
  · rcases eq_of_isQuote hquote with rfl | rfl <;> simp [stringLength, hquote, hlength]
  · simp [stringLength, hquote, hlength]; omega
  · simp [stringLength, hquote, hlength]; omega

theorem operatorLength_append {op rest : List Char} (hop : op ∈ operators)
    (hstop : ∀ c ∈ rest.head?, ∀ op' ∈ operators, ¬ op ++ [c] <+: op') :
    operatorLength (op ++ rest) = some op.length := by
  -- An operator that fits and is longer than this one would go on with the first character of the rest.
  have hfits : ∀ op' ∈ operators, op'.isPrefixOf (op ++ rest) = op'.isPrefixOf op := by
    intro op' hop'
    rw [Bool.eq_iff_iff, List.isPrefixOf_iff_prefix, List.isPrefixOf_iff_prefix]
    refine ⟨fun h => ?_, fun h => h.trans (List.prefix_append _ _)⟩
    rcases List.prefix_or_prefix_of_prefix h (List.prefix_append op rest) with h' | ⟨tail, rfl⟩
    · exact h'
    · cases tail with
      | nil => simp
      | cons c tail =>
        have hc : c :: tail <+: rest := (List.prefix_append_right_inj op).mp h
        obtain ⟨more, rfl⟩ := hc
        exact absurd ⟨tail, by simp⟩ (hstop c rfl _ hop')
  have hself : ∀ op ∈ operators, operators.find? (·.isPrefixOf op) = some op := by decide
  rw [operatorLength, List.find?_congr hfits, hself op hop]
  rfl

theorem hexLength_append {x : Char} {digits rest : List Char} (hx : x ∈ ['x', 'X']) (hne : digits ≠ [])
    (hdigits : ∀ c ∈ digits, (isHexDigit c || c == '_') = true) (hrest : StopsWord rest) :
    hexLength ('0' :: x :: (digits ++ rest)) = some (digits.length + 2) := by
  have hrun : (digits ++ rest).takeWhile (fun c => isHexDigit c || c == '_') = digits := by
    refine takeWhile_append_of_stop hdigits fun c hc => ?_
    have hpart := (hrest c hc).2
    rw [Bool.eq_false_iff]
    intro h
    rcases Bool.or_eq_true_iff.mp h with h | h
    · rw [isIdentPart_of_isHexDigit h] at hpart
      cases hpart
    · rw [beq_iff_eq.mp h] at hpart
      exact absurd hpart (by decide)
  have hlength : digits.length = digits.length - 1 + 1 := by
    have := List.length_pos_iff.mpr hne
    omega
  rw [hexLength, if_pos (by simpa using hx), hrun, hlength]

/-- A word with no quote behind it is no mark of a string. -/
theorem stringLength_word {word rest : List Char} (hword : ∀ c ∈ word, isIdentPart c = true)
    (hrest : ∀ c ∈ rest.head?, isIdentPart c = false ∧ isQuote c = false) :
    stringLength (word ++ rest) = none := by
  rw [Option.eq_none_iff_forall_ne_some]
  intro n hn
  obtain ⟨piece, tail, hcut, -, hpiece⟩ := begins_of_stringLength hn
  cases hpiece with
  | @string mark body quote hmark hquote hbody =>
    have hmarks : ∀ mark ∈ marks, ∀ c ∈ mark, isIdentPart c = true := by decide
    have hpart : isIdentPart quote = false := by
      rcases eq_of_isQuote hquote with rfl | rfl <;> decide
    rw [List.append_assoc, List.cons_append] at hcut
    have hrun : word = mark := by
      rw [← takeWhile_append_of_stop hword fun c hc => (hrest c hc).1, hcut]
      refine takeWhile_append_of_stop (hmarks mark hmark) ?_
      rintro c ⟨⟩
      exact hpart
    subst hrun
    rw [List.append_cancel_left hcut] at hrest
    rw [(hrest quote rfl).2] at hquote
    cases hquote

section Symbol

variable {c : Char} {cs : List Char}

theorem numberLength_eq_none (h : isDigit c = false) : numberLength (c :: cs) = none := by
  have hc : c ≠ '0' := by
    rintro rfl
    exact absurd h (by decide)
  simp [numberLength, hexLength, hc, h]

theorem stringLength_eq_none (hquote : isQuote c = false) (hident : isIdentStart c = false) :
    stringLength (c :: cs) = none := by
  have hh : c ≠ 'h' := by
    rintro rfl
    exact absurd hident (by decide)
  have hu : c ≠ 'u' := by
    rintro rfl
    exact absurd hident (by decide)
  simp [stringLength, hh, hu, hquote]

theorem commentLength_eq_none (h : c ≠ '/') : commentLength (c :: cs) = none := by
  simp [commentLength, h]

theorem pieceAt_operator {n : Nat} (hc : isSymbol c = true) (hcomment : commentLength (c :: cs) = none)
    (h : operatorLength (c :: cs) = some n) : pieceAt (c :: cs) = (.lexeme .operator, n) := by
  obtain ⟨hblank, hquote, hdigit, hident⟩ := isSymbol_iff.mp hc
  simp [pieceAt, blankLength, hblank, hcomment, stringLength_eq_none hquote hident,
    numberLength_eq_none hdigit, identLength, hident, h]

theorem pieceAt_single (hc : isSymbol c = true) (hop : ∀ op ∈ operators, op.head? ≠ some c) :
    pieceAt (c :: cs) = (.lexeme (if isPunctuation c then .punct else .other), 1) := by
  have hcomment : c ≠ '/' := by
    rintro rfl
    exact hop ['/'] (by decide) rfl
  obtain ⟨hblank, hquote, hdigit, hident⟩ := isSymbol_iff.mp hc
  cases hpunct : isPunctuation c <;>
    simp [pieceAt, blankLength, hblank, commentLength_eq_none hcomment, stringLength_eq_none hquote hident,
      numberLength_eq_none hdigit, identLength, hident, operatorLength_eq_none.mpr hop, hpunct]

end Symbol

theorem hexLength_eq_none {c : Char} {cs : List Char} (h : ∀ x ∈ cs.head?, x ≠ 'x' ∧ x ≠ 'X') :
    hexLength (c :: cs) = none := by
  cases cs with
  | nil => simp [hexLength]
  | cons x cs =>
    by_cases hc : c = '0'
    · simp [hexLength, hc, h x rfl]
    · simp [hexLength, hc]

theorem pieceAt_number {c : Char} {cs : List Char} {n : Nat} (hc : isDigit c = true)
    (h : numberLength (c :: cs) = some n) : pieceAt (c :: cs) = (.lexeme .number, n) := by
  have hident : isIdentStart c = false := by
    rw [Bool.eq_false_iff]
    intro hident
    rw [isDigit_of_isIdentStart hident] at hc
    cases hc
  have hquote : isQuote c = false := by
    rw [Bool.eq_false_iff]
    intro hquote
    rcases eq_of_isQuote hquote with rfl | rfl <;> exact absurd hc (by decide)
  have hcomment : c ≠ '/' := by
    rintro rfl
    exact absurd hc (by decide)
  simp [pieceAt, blankLength, isBlank_of_isDigit hc, commentLength_eq_none hcomment,
    stringLength_eq_none hquote hident, h]

theorem pieceAt_string {cs : List Char} {n : Nat} {c : Char} {tail : List Char}
    (hc : c ∈ stringStarts) (hcs : cs = c :: tail) (h : stringLength cs = some n) :
    pieceAt cs = (.lexeme .string, n) := by
  have hfirst : ∀ c ∈ stringStarts, isBlank c = false ∧ c ≠ '/' := by decide
  obtain ⟨hblank, hslash⟩ := hfirst c hc
  subst hcs
  simp [pieceAt, blankLength, hblank, commentLength_eq_none hslash, h]

/-- An operator that stops is no start of a comment. -/
theorem commentLength_operator {op rest : List Char} (hop : op ∈ operators)
    (hstop : ∀ c ∈ rest.head?, op = ['/'] → c ≠ '/' ∧ c ≠ '*') : commentLength (op ++ rest) = none := by
  have hslash : ∀ op ∈ operators, op.head? = some '/' → op = ['/'] ∨ op = ['/', '='] := by decide
  by_cases hhead : op.head? = some '/'
  · rcases hslash op hop hhead with rfl | rfl
    · cases rest with
      | nil => rfl
      | cons c rest => simp [commentLength, hstop c rfl rfl]
    · rfl
  · obtain ⟨c, cs, rfl, -⟩ := isSymbol_of_mem_operators hop
    exact commentLength_eq_none fun h => hhead (by rw [h]; rfl)

theorem pieceAt_append {kind : TokenKind} {piece rest : List Char} (h : Lexeme kind piece)
    (hstop : Stops piece rest kind) : pieceAt (piece ++ rest) = (.lexeme kind, piece.length) := by
  cases h with
  | string hmark hquote hbody =>
    have hlength := stringLength_append hmark hquote hbody rest
    obtain ⟨c, hc, tail, hcs⟩ := exists_stringStart hmark hquote
    rw [List.append_assoc, List.cons_append]
    rw [pieceAt_string hc hcs hlength, List.length_append, List.length_cons]
  | hexadecimal hx hne hdigits =>
    refine pieceAt_number (by decide) ?_
    simp [numberLength, hexLength_append hx hne hdigits hstop.1]
  | @decimal d whole fraction exponent hd hwhole hfraction hexponent =>
    have hlength := decimalLength_append hwhole hfraction hexponent hstop.1 hstop.2
    have hhex : hexLength (d :: (whole ++ (fraction ++ (exponent ++ rest)))) = none := by
      refine hexLength_eq_none (head?_append_of_forall (fun c hc => ?_)
        (hfraction.head?_append (by decide) (hexponent.head?_append (by decide) fun c hc => ?_)))
      · constructor <;> rintro rfl <;> exact absurd (hwhole _ hc) (by decide)
      · exact ⟨hstop.1.ne (by decide) c hc, hstop.1.ne (by decide) c hc⟩
    have happend : d :: (whole ++ (fraction ++ exponent)) ++ rest =
        d :: (whole ++ (fraction ++ (exponent ++ rest))) := by simp
    rw [happend, pieceAt_number hd]
    simp only [numberLength, hhex, hd, if_true, hlength, List.length_cons, List.length_append, Nat.add_assoc]
  | @ident c cs hc hcs =>
    have hrun := takeWhile_append_of_stop hcs fun d hd => (hstop d hd).1
    have hslash : c ≠ '/' := by
      rintro rfl
      exact absurd hc (by decide)
    have hword : ∀ d ∈ c :: cs, isIdentPart d = true :=
      List.forall_mem_cons.mpr ⟨isIdentPart_of_isIdentStart hc, hcs⟩
    have hstring := stringLength_word hword hstop
    rw [List.cons_append] at hstring
    simp [pieceAt, blankLength, isBlank_of_isIdentStart hc, commentLength_eq_none hslash, hstring,
      numberLength_eq_none (isDigit_of_isIdentStart hc), identLength, hc, hrun]
  | operator hop =>
    obtain ⟨c, cs, rfl, hc, -⟩ := isSymbol_of_mem_operators hop
    exact pieceAt_operator hc (commentLength_operator hop fun c hc => (hstop c hc).1)
      (operatorLength_append hop fun c hc => (hstop c hc).2)
  | @punct c hc =>
    obtain ⟨hsymbol, hop⟩ := isSymbol_of_isPunctuation hc
    simp [pieceAt_single hsymbol hop, hc]
  | @other c hc =>
    have hsymbol : isSymbol c = true :=
      isSymbol_iff.mpr ⟨hc.blank, hstop c List.mem_cons_self, hc.digit, hc.ident⟩
    simp [pieceAt_single hsymbol hc.operator, hc.punct]

/-! ## Tokens -/

/-- A lexeme starts with a character that is no blank. Only a number starts with a digit, only an operator
with an equals sign and only a punctuation mark with a point. -/
theorem Lexeme.first {kind : TokenKind} {piece : List Char} (h : Lexeme kind piece) :
    ∃ c cs, piece = c :: cs ∧ isBlank c = false ∧ (isDigit c = true → kind = .number) ∧
      (c = '=' → kind = .operator) ∧ (c = '.' → kind = .punct) := by
  cases h with
  | @string mark body quote hmark hquote hbody =>
    have hfirst : ∀ c ∈ stringStarts, isBlank c = false ∧ isDigit c = false ∧ c ≠ '=' ∧ c ≠ '.' := by decide
    obtain ⟨c, hc, tail, hcs⟩ := @exists_stringStart mark body quote hmark hquote
    obtain ⟨hblank, hdigit, hequals, hpoint⟩ := hfirst c hc
    exact ⟨c, tail, hcs, hblank, by simp [hdigit], by simp [hequals], by simp [hpoint]⟩
  | hexadecimal => exact ⟨'0', _, rfl, by decide, fun _ => rfl, by decide, by decide⟩
  | decimal hd =>
    refine ⟨_, _, rfl, isBlank_of_isDigit hd, fun _ => rfl, ?_, ?_⟩ <;>
    · rintro rfl
      exact absurd hd (by decide)
  | ident hc =>
    refine ⟨_, _, rfl, isBlank_of_isIdentStart hc, by simp [isDigit_of_isIdentStart hc], ?_, ?_⟩ <;>
    · rintro rfl
      exact absurd hc (by decide)
  | operator hop =>
    obtain ⟨c, cs, rfl, hc, hpoint⟩ := isSymbol_of_mem_operators hop
    obtain ⟨hblank, -, hdigit, -⟩ := isSymbol_iff.mp hc
    exact ⟨c, cs, rfl, hblank, by simp [hdigit], fun _ => rfl, by simp [hpoint]⟩
  | @punct c hc =>
    obtain ⟨hsymbol, hop⟩ := isSymbol_of_isPunctuation hc
    obtain ⟨hblank, -, hdigit, -⟩ := isSymbol_iff.mp hsymbol
    refine ⟨c, [], rfl, hblank, by simp [hdigit], ?_, fun _ => rfl⟩
    rintro rfl
    exact absurd rfl (hop ['='] (by decide))
  | @other c hc =>
    refine ⟨c, [], rfl, hc.blank, by simp [hc.digit], ?_, ?_⟩
    · rintro rfl
      exact absurd rfl (hc.operator ['='] (by decide))
    · rintro rfl
      exact absurd hc.punct (by decide)

theorem lexeme_of_mem_pieces {cs : List Char} {p : Piece} {kind : TokenKind} (h : p ∈ pieces cs)
    (hkind : p.kind = .lexeme kind) : Lexeme kind p.text := by
  fun_induction pieces cs with
  | case1 => cases h
  | case2 c cs q ih =>
    rcases List.mem_cons.mp h with rfl | h
    · have hq : pieceAt (c :: cs) = (.lexeme kind, q.2) := Prod.ext hkind rfl
      obtain ⟨piece, rest, hcut, hlength, hpiece⟩ := begins_lexeme (List.cons_ne_nil c cs) hq
      obtain ⟨d, ds, rfl, -⟩ := hpiece.first
      obtain ⟨rfl, rfl⟩ := List.cons.inj hcut
      rw [← hlength]
      simpa using hpiece
    · exact ih h

theorem exists_piece_of_mem_place {line offset : Nat} {ps : List Piece} {t : Token}
    (h : t ∈ place line offset ps) :
    ∃ p ∈ ps, p.kind = .lexeme t.kind ∧ t.text = String.ofList p.text := by
  induction ps generalizing line offset with
  | nil => cases h
  | cons p ps ih =>
    simp only [place] at h
    split at h
    · rename_i kind hkind
      rcases List.mem_cons.mp h with rfl | h
      · exact ⟨p, List.mem_cons_self, hkind, rfl⟩
      · obtain ⟨q, hq, hqk⟩ := ih h
        exact ⟨q, List.mem_cons_of_mem _ hq, hqk⟩
    · obtain ⟨q, hq, hqk⟩ := ih h
      exact ⟨q, List.mem_cons_of_mem _ hq, hqk⟩

end Lexer

/-- The text of a token is a lexeme of its kind. -/
theorem lexeme_of_mem_tokenize {text : String} {t : Token} (h : t ∈ tokenize text) :
    Lexer.Lexeme t.kind t.text.toList := by
  obtain ⟨p, hp, hkind, htext⟩ := Lexer.exists_piece_of_mem_place h
  rw [htext, String.toList_ofList]
  exact Lexer.lexeme_of_mem_pieces hp hkind

end ContractAudit
