import ContractAudit.Contract.Extract
import Mathlib.Data.List.TakeWhile

/-!
# The readers, one token at a time

The readers that jump to the end of a bracket keep, for their termination, the equation of the search that
found it. Here each of them has the equation of one step without it, so that a proof can rewrite the search.
-/

namespace ContractAudit

theorem splitSubscripts_cons (t : Token) (ts : List Token) :
    splitSubscripts (t :: ts) =
      if t.opens .square then
        (Bracket.square.enclosed? ts).bind fun e => (splitSubscripts e.rest).map fun p =>
          (t :: e.inner ++ e.close :: p.1, p.2)
      else some ([], t :: ts) := by
  rw [splitSubscripts]
  split
  · split <;> rename_i he <;> rw [he] <;> rfl
  · rfl

theorem RawFunction.splitSpecifiers_cons (t : Token) (ts : List Token) :
    splitSpecifiers (t :: ts) =
      if t.isPunct "\x7b" || t.isPunct ";" then some ([], some (t, ts))
      else if t.opens .paren then
        (Bracket.paren.enclosed? ts).bind fun e => (splitSpecifiers e.rest).map fun p =>
          (t :: e.inner ++ e.close :: p.1, p.2)
      else (splitSpecifiers ts).map fun p => (t :: p.1, p.2) := by
  rw [splitSpecifiers]
  split
  · rfl
  · split
    · split <;> rename_i he <;> rw [he] <;> rfl
    · rfl

theorem Member.isIdent_of_startsFunction {t : Token} {ts : List Token} (h : startsFunction t ts = true) :
    t.isIdent = true := by
  unfold startsFunction at h
  simp only [Token.isOneOf, Bool.or_eq_true, Bool.and_eq_true] at h
  rcases h with h | h
  · exact h.1
  · exact h.1.1

theorem Member.ofTokens_cons (t : Token) (ts : List Token) :
    Member.ofTokens (t :: ts) =
      match next t ts with
      | .error e => .error e
      | .ok (m, rest) =>
        match ofTokens rest with
        | .error e => .error e
        | .ok ms => .ok (m.toList ++ ms) := by
  rw [ofTokens]
  split
  · rename_i he
    rw [he]
  · rename_i he
    exact he ▸ rfl

theorem Specifiers.read_cons_cons (s : Specifiers) (t p : Token) (ts : List Token) :
    s.read (t :: p :: ts) =
      if p.opens .paren then
        match Bracket.paren.enclosed? ts with
        | none => s.add t
        | some e => (s.add t).read e.rest
      else (s.add t).read (p :: ts) := by
  rw [read]
  split
  · split <;> rename_i he <;> rw [he]
  · rfl

theorem accessLength_cons (t : Token) (ts : List Token) :
    accessLength (t :: ts) =
      if t.opens .square then
        match Bracket.square.enclosed? ts with
        | none => 0
        | some e => accessLength e.rest + (e.inner.length + 2)
      else if t.isPunct "." then
        match ts with
        | name :: x :: more =>
          if name.isIdent && ! x.opens .paren then accessLength (x :: more) + 2 else 0
        | _ => 0
      else 0 := by
  rw [accessLength.eq_def]
  simp only
  split
  · split <;> rename_i he <;> rw [he]
  · rfl

/-- The bracket that a token closes, of the kinds that can end a receiver. -/
def Token.receiverEnd? (t : Token) : Option Bracket :=
  if t.closes .paren then some .paren else if t.closes .square then some .square else none

theorem receiverLength_cons (t : Token) (ts : List Token) :
    receiverLength (t :: ts) =
      match t.receiverEnd? with
      | some b =>
        (b.enclosedBack? ts).bind fun e =>
          if (e.rest.head?.map (·.isIdent)).getD false then
            (receiverLength e.rest).map (· + (e.inner.length + 2))
          else some (e.inner.length + 2)
      | none =>
        if t.isIdent then
          match ts with
          | dot :: x :: more =>
            if dot.isPunct "." then (receiverLength (x :: more)).map (· + 2) else some 1
          | _ => some 1
        else none := by
  rw [receiverLength.eq_def]
  cases hb : t.receiverEnd? with
  | some b =>
    unfold Token.receiverEnd? at hb
    simp only [hb]
    split
    · rename_i he
      simp only [he, Option.bind_none]
    · rename_i e he
      simp only [he, Option.bind_some]
      split <;> rename_i hr <;> simp only [hr] <;> rfl
  | none =>
    unfold Token.receiverEnd? at hb
    rcases ts with _ | ⟨_, _ | ⟨_, _⟩⟩ <;> simp only [hb]

theorem Contract.allFrom_cons (unit : SourceUnit) (prev : Option Token) (t : Token) (ts : List Token) :
    allFrom unit prev (t :: ts) =
      match headAt? prev t ts with
      | some (kind, name, rest) =>
        match ofTokens unit kind name rest with
        | .error e => .error e
        | .ok (c, rest') =>
          match allFrom unit none rest' with
          | .error e => .error e
          | .ok cs => .ok (c :: cs)
      | none =>
        if t.opens .brace then
          match Bracket.brace.enclosed? ts with
          | none => .error (.unbalancedBraces t.line)
          | some e => allFrom unit none e.rest
        else allFrom unit (some t) ts := by
  rw [allFrom]
  split
  · rename_i hh
    rw [hh]
    simp only
    split
    · rename_i he
      rw [he]
    · rename_i he
      exact he ▸ rfl
  · rename_i hh
    rw [hh]
    simp only
    split
    · split <;> rename_i he <;> rw [he]
    · rfl

/-! ## Source texts -/

theorem Text.isBlank_of_trim {cs : List Char} (h : trim cs = []) : ∀ c ∈ cs, isBlank c = true := by
  have hend : ∀ c ∈ trimStart cs, isBlank c = true := by
    have : (trimStart cs).reverse.dropWhile isBlank = [] := by simpa [trim, trimEnd] using h
    simpa [List.dropWhile_eq_nil_iff] using this
  -- What is left of the text does not start with a blank, and so nothing is left.
  have hstart : trimStart cs = [] := by
    by_contra hne
    have hblank : isBlank ((cs.dropWhile isBlank).head hne) = true := hend _ (List.head_mem hne)
    rw [List.head_dropWhile_not isBlank hne] at hblank
    cases hblank
  simpa [trimStart, List.dropWhile_eq_nil_iff] using hstart

theorem Lexer.place_pieces_of_isBlank {cs : List Char} (h : ∀ c ∈ cs, Text.isBlank c = true)
    (line offset : Nat) : place line offset (pieces cs) = [] := by
  cases cs with
  | nil => simp [pieces, place]
  | cons c cs =>
    obtain ⟨hc, hcs⟩ := List.forall_mem_cons.mp h
    have hall : cs.takeWhile Text.isBlank = cs := List.takeWhile_eq_self_iff.mpr hcs
    have hat : pieceAt (c :: cs) = (.blank, cs.length + 1) := by simp [pieceAt, blankLength, hc, hall]
    rw [pieces]
    simp [hat, place, pieces]

theorem tokenize_of_trim {text : String} (h : (Text.trim text.toList).isEmpty = true) :
    tokenize text = [] :=
  Lexer.place_pieces_of_isBlank (Text.isBlank_of_trim (List.isEmpty_iff.mp h)) 1 0

/-- The model of a source is what its tokens declare. A blank text has no tokens, and so the test for it
only chooses the error. -/
theorem SourceUnit.contracts_eq (unit : SourceUnit) :
    unit.contracts =
      match Contract.allFrom unit none (tokenize unit.text) with
      | .error e => .error e
      | .ok [] => .error (if (Text.trim unit.text.toList).isEmpty then .emptySource else .noDeclaration)
      | .ok (c :: cs) => .ok (c :: cs) := by
  rw [contracts]
  split
  · rename_i hblank
    simp [tokenize_of_trim hblank, Contract.allFrom]
  · cases Contract.allFrom unit none (tokenize unit.text) with
    | error e => rfl
    | ok cs => cases cs <;> rfl

end ContractAudit
