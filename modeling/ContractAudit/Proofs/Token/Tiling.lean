import ContractAudit.Proofs.Token.Order

/-!
# Tokens tile the text

`Filler rest piece`: in front of `rest`, the piece is one of those that make no token, which are runs of
blanks and comments. `Gap rest text` is a concatenation of fillers. A piece of the text is either a filler or
a token, so the text is a gap, a token, a gap, a token and so on, and ends with a gap. `TilesFrom cs start ts`
says this of the part of the text from `start` on; there is one lemma for each kind of piece in front of that
part, and the whole text follows by induction on its pieces.
-/

namespace ContractAudit

open Text

/-- The offset behind the last character of a token. -/
def Token.stop (t : Token) : Nat := t.offset + t.text.length

namespace Lexer

/-- The end mark of a block comment. -/
def blockEnd : List Char := ['*', '/']

/-- The piece makes no token where it stands in front of `rest`. A run of blanks goes on as far as it can, a
line comment up to the end of its line, a block comment up to its first end mark. Only at the end of the text
can it lack the mark. -/
inductive Filler : (rest piece : List Char) → Prop where
  | blanks {rest run : List Char} (hne : run ≠ []) (hrun : ∀ c ∈ run, isBlank c = true)
      (hrest : ∀ c ∈ rest.head?, isBlank c = false) : Filler rest run
  | lineComment {rest body : List Char} (hbody : '\n' ∉ body) (hrest : ∀ c ∈ rest.head?, c = '\n') :
      Filler rest ('/' :: '/' :: body)
  | blockComment {rest body : List Char} (hbody : ¬ blockEnd <:+: body ++ ['*']) :
      Filler rest ('/' :: '*' :: (body ++ blockEnd))
  | openComment {body : List Char} (hbody : ¬ blockEnd <:+: body) : Filler [] ('/' :: '*' :: body)

/-- A concatenation of fillers, in front of `rest`. -/
inductive Gap (rest : List Char) : List Char → Prop where
  | nil : Gap rest []
  | cons {piece text : List Char} (hpiece : Filler (text ++ rest) piece) (htext : Gap rest text) :
      Gap rest (piece ++ text)

/-- Where the gaps before, between and after the tokens begin and end, if the first begins at `start` and
the last ends at `stop`. -/
def gapsFrom (stop : Nat) : Nat → List Token → List (Nat × Nat)
  | start, [] => [(start, stop)]
  | start, t :: ts => (start, t.offset) :: gapsFrom stop t.stop ts

/-! ## One piece -/

theorem head?_dropWhile {p : Char → Bool} {cs : List Char} :
    ∀ c ∈ (cs.dropWhile p).head?, p c = false := by
  intro c hc
  have h := List.head?_dropWhile_not p cs
  rw [Option.mem_def.mp hc] at h
  simpa using h

theorem exists_filler_of_blankLength {cs : List Char} {n : Nat} (h : blankLength cs = some n) :
    ∃ piece rest, cs = piece ++ rest ∧ piece.length = n ∧ Filler rest piece := by
  cases cs with
  | nil => cases h
  | cons c cs =>
    simp only [blankLength] at h
    split at h
    · rename_i hc
      cases h
      refine ⟨c :: cs.takeWhile isBlank, cs.dropWhile isBlank, by simp, by simp, ?_⟩
      refine .blanks (List.cons_ne_nil _ _) (List.forall_mem_cons.mpr ⟨hc, ?_⟩) head?_dropWhile
      exact List.all_eq_true.mp List.all_takeWhile
    · cases h

/-- A block comment is read up to its first end mark, or else to the end of the text. -/
theorem blockLength_cases (cs : List Char) :
    (∃ body rest, cs = body ++ blockEnd ++ rest ∧ blockLength cs = body.length + 2 ∧
      ¬ blockEnd <:+: body ++ ['*']) ∨
    (blockLength cs = cs.length ∧ ¬ blockEnd <:+: cs) := by
  fun_induction blockLength cs with
  | case1 => exact .inr ⟨rfl, by decide⟩
  | case2 rest => exact .inl ⟨[], rest, rfl, rfl, by decide⟩
  | case3 c cs hmark ih =>
    have hfirst : ∀ {tail}, tail <+: cs → ¬ blockEnd <+: c :: tail := by
      rintro _ ⟨more, rfl⟩ ⟨tail, htail⟩
      simp only [blockEnd, List.cons_append, List.nil_append, List.cons.injEq] at htail
      obtain ⟨rfl, rfl⟩ := htail
      exact hmark _ rfl rfl
    have hgrow : ∀ {tail}, tail <+: cs → ¬ blockEnd <:+: tail → ¬ blockEnd <:+: c :: tail := by
      intro tail htail hno hin
      exact (List.infix_cons_iff.mp hin).elim (hfirst htail) hno
    rcases ih with ⟨body, rest, hcs, hlength, hno⟩ | ⟨hlength, hno⟩
    · refine .inl ⟨c :: body, rest, by simp [hcs], by simp [hlength], hgrow ?_ hno⟩
      exact ⟨'/' :: rest, by simp [hcs, blockEnd]⟩
    · exact .inr ⟨by simp [hlength], hgrow (List.prefix_refl cs) hno⟩

theorem exists_filler_of_commentLength {cs : List Char} {n : Nat} (h : commentLength cs = some n) :
    ∃ piece rest, cs = piece ++ rest ∧ piece.length = n ∧ Filler rest piece := by
  fun_cases commentLength cs with
  | case1 cs =>
    simp only [commentLength, Option.some.injEq] at h
    refine ⟨'/' :: '/' :: cs.takeWhile (· != '\n'), cs.dropWhile (· != '\n'), by simp, by simpa using h, ?_⟩
    refine .lineComment (fun hmem => ?_) fun c hc => by simpa using head?_dropWhile c hc
    simpa using List.all_eq_true.mp List.all_takeWhile _ hmem
  | case2 cs =>
    simp only [commentLength, Option.some.injEq] at h
    rcases blockLength_cases cs with ⟨body, rest, rfl, hlength, hno⟩ | ⟨hlength, hno⟩
    · refine ⟨'/' :: '*' :: (body ++ blockEnd), rest, by simp, ?_, .blockComment hno⟩
      simp only [blockEnd, List.length_cons, List.length_append, List.length_nil]
      omega
    · exact ⟨'/' :: '*' :: cs, [], by simp, by simp [← h, hlength], .openComment hno⟩
  | case3 => simp_all [commentLength]

/-- A filler is read as one. -/
theorem Filler.isSome_length {piece rest : List Char} (h : Filler rest piece) :
    (blankLength (piece ++ rest)).isSome ∨ (commentLength (piece ++ rest)).isSome := by
  cases h with
  | blanks hne hrun =>
    cases piece with
    | nil => exact absurd rfl hne
    | cons c run => exact .inl (by simp [blankLength, hrun c List.mem_cons_self])
  | lineComment => exact .inr rfl
  | blockComment => exact .inr rfl
  | openComment => exact .inr rfl

theorem Filler.ne_nil {piece rest : List Char} (h : Filler rest piece) : piece ≠ [] := by
  cases h with
  | blanks hne => exact hne
  | lineComment => exact List.cons_ne_nil _ _
  | blockComment => exact List.cons_ne_nil _ _
  | openComment => exact List.cons_ne_nil _ _

/-- The text begins with a filler. -/
def StartsFiller (cs : List Char) : Prop := ∃ piece rest, cs = piece ++ rest ∧ Filler rest piece

/-- The piece at the start of a text is a filler if the text begins with one, and otherwise a lexeme. -/
theorem pieceAt_cases (cs : List Char) :
    (∃ kind piece rest, pieceAt cs = (kind, piece.length) ∧ (kind = .blank ∨ kind = .comment) ∧
      cs = piece ++ rest ∧ Filler rest piece) ∨
    ∃ kind n, pieceAt cs = (.lexeme kind, n) ∧ ¬ StartsFiller cs := by
  unfold pieceAt
  split
  · rename_i n hn
    obtain ⟨piece, rest, hcs, rfl, hfiller⟩ := exists_filler_of_blankLength hn
    exact .inl ⟨_, piece, rest, rfl, .inl rfl, hcs, hfiller⟩
  rename_i hblank
  split
  · rename_i n hn
    obtain ⟨piece, rest, hcs, rfl, hfiller⟩ := exists_filler_of_commentLength hn
    exact .inl ⟨_, piece, rest, rfl, .inr rfl, hcs, hfiller⟩
  rename_i hcomment
  have hstart : ¬ StartsFiller cs := by
    rintro ⟨piece, rest, rfl, hfiller⟩
    have := hfiller.isSome_length
    simp [hblank, hcomment] at this
  right
  split
  · exact ⟨_, _, rfl, hstart⟩
  split
  · exact ⟨_, _, rfl, hstart⟩
  split
  · exact ⟨_, _, rfl, hstart⟩
  split
  · exact ⟨_, _, rfl, hstart⟩
  split
  · split
    · exact ⟨_, _, rfl, hstart⟩
    · exact ⟨_, _, rfl, hstart⟩
  · exact ⟨_, _, rfl, hstart⟩

/-- The first piece of a text, as it is cut off, is a filler or a lexeme. -/
theorem first_piece_cases (c : Char) (cs : List Char) :
    let p := pieceAt (c :: cs)
    ((p.1 = .blank ∨ p.1 = .comment) ∧ Filler (cs.drop (p.2 - 1)) (c :: cs.take (p.2 - 1))) ∨
      ∃ kind, p.1 = .lexeme kind ∧ ¬ StartsFiller (c :: cs) := by
  obtain ⟨kind, piece, rest, hp, hkind, hcs, hfiller⟩ | ⟨kind, n, hp, hstart⟩ := pieceAt_cases (c :: cs)
  · cases piece with
    | nil => exact absurd rfl hfiller.ne_nil
    | cons d run =>
      simp only [List.cons_append, List.cons.injEq] at hcs
      obtain ⟨rfl, rfl⟩ := hcs
      rw [hp]
      exact .inl ⟨hkind, by simpa using hfiller⟩
  · exact .inr ⟨kind, by rw [hp], hstart⟩

/-! ## All pieces -/

/-- The tokens tile the text `cs` from the offset `start` on. -/
structure TilesFrom (cs : List Char) (start : Nat) (ts : List Token) : Prop where
  text : ∀ t ∈ ts, t.text.toList = cs.extract t.offset t.stop
  line : ∀ t ∈ ts, t.line = 1 + newlines (cs.take t.offset)
  unfilled : ∀ t ∈ ts, ¬ StartsFiller (cs.drop t.offset)
  gaps : ∀ g ∈ gapsFrom cs.length start ts, g.1 ≤ g.2 ∧ Gap (cs.drop g.2) (cs.extract g.1 g.2)

namespace TilesFrom

variable {before piece rest : List Char} {ts : List Token}

theorem nil (cs : List Char) : TilesFrom cs cs.length [] where
  text := by simp
  line := by simp
  unfilled := by simp
  gaps := by simpa [gapsFrom] using Gap.nil

/-- A filler in front of a gap makes the gap longer. -/
theorem gap_extract (hpiece : Filler rest piece) {stop : Nat} (hstop : (before ++ piece).length ≤ stop)
    (h : Gap ((before ++ piece ++ rest).drop stop)
      ((before ++ piece ++ rest).extract (before ++ piece).length stop)) :
    Gap ((before ++ piece ++ rest).drop stop) ((before ++ piece ++ rest).extract before.length stop) := by
  obtain ⟨k, rfl⟩ := Nat.exists_eq_add_of_le hstop
  have hcut : (before ++ piece).length + k - before.length = piece.length + k := by
    rw [List.length_append]
    omega
  rw [List.drop_length_add_append] at h ⊢
  rw [List.extract_eq_take_drop, List.drop_left, Nat.add_sub_cancel_left] at h
  rw [List.extract_eq_take_drop, hcut, List.append_assoc, List.drop_left, List.take_length_add_append]
  exact .cons (by simpa using hpiece) h

theorem skip (hpiece : Filler rest piece)
    (h : TilesFrom (before ++ piece ++ rest) (before ++ piece).length ts) :
    TilesFrom (before ++ piece ++ rest) before.length ts where
  text := h.text
  line := h.line
  unfilled := h.unfilled
  gaps := by
    have hlength : before.length ≤ (before ++ piece).length := by simp
    cases ts with
    | nil =>
      obtain ⟨hle, hgap⟩ := h.gaps _ List.mem_cons_self
      refine List.forall_mem_singleton.mpr ⟨Nat.le_trans hlength hle, gap_extract hpiece hle hgap⟩
    | cons t ts =>
      obtain ⟨⟨hle, hgap⟩, hgaps⟩ := List.forall_mem_cons.mp h.gaps
      exact List.forall_mem_cons.mpr ⟨⟨Nat.le_trans hlength hle, gap_extract hpiece hle hgap⟩, hgaps⟩

theorem cons (kind : TokenKind) (hstart : ¬ StartsFiller (piece ++ rest))
    (h : TilesFrom (before ++ piece ++ rest) (before ++ piece).length ts) :
    TilesFrom (before ++ piece ++ rest) before.length
      (⟨kind, String.ofList piece, 1 + newlines before, before.length⟩ :: ts) where
  text := List.forall_mem_cons.mpr ⟨by simp [Token.stop], h.text⟩
  line := List.forall_mem_cons.mpr ⟨by simp, h.line⟩
  unfilled := List.forall_mem_cons.mpr ⟨by simpa using hstart, h.unfilled⟩
  gaps := by
    have hstop : (before ++ piece).length =
        Token.stop ⟨kind, String.ofList piece, 1 + newlines before, before.length⟩ := by
      simp [Token.stop]
    refine List.forall_mem_cons.mpr ⟨⟨Nat.le_refl _, by simpa using Gap.nil⟩, ?_⟩
    exact hstop ▸ h.gaps

end TilesFrom

theorem newlines_append (cs ds : List Char) : newlines (cs ++ ds) = newlines cs + newlines ds :=
  List.count_append

theorem place_of_filler {p : Piece} (h : p.kind = .blank ∨ p.kind = .comment) (line offset : Nat)
    (ps : List Piece) :
    place line offset (p :: ps) = place (line + newlines p.text) (offset + p.text.length) ps := by
  rcases h with h | h <;> simp only [place, h]

theorem place_of_lexeme {p : Piece} {kind : TokenKind} (h : p.kind = .lexeme kind) (line offset : Nat)
    (ps : List Piece) :
    place line offset (p :: ps) = ⟨kind, String.ofList p.text, line, offset⟩ ::
      place (line + newlines p.text) (offset + p.text.length) ps := by
  simp only [place, h]

/-- The invariant of the placement: what was read is `before`, and the line and the offset count its
newlines and its characters. -/
theorem tilesFrom_place (before cs : List Char) :
    TilesFrom (before ++ cs) before.length (place (1 + newlines before) before.length (pieces cs)) := by
  fun_induction pieces cs generalizing before with
  | case1 => simpa [place] using TilesFrom.nil before
  | case2 c cs p ih =>
    have hcut : before ++ c :: cs = before ++ (c :: cs.take (p.2 - 1)) ++ cs.drop (p.2 - 1) := by simp
    have hrest := ih (before ++ (c :: cs.take (p.2 - 1)))
    rw [newlines_append, ← Nat.add_assoc] at hrest
    rw [hcut]
    rcases first_piece_cases c cs with ⟨hkind, hfiller⟩ | ⟨kind, hkind, hstart⟩
    · rw [place_of_filler hkind, ← List.length_append]
      exact .skip hfiller hrest
    · rw [place_of_lexeme hkind, ← List.length_append]
      exact .cons kind (by simpa using hstart) hrest

theorem pairwise_of_gaps {stop start : Nat} {ts : List Token}
    (h : ∀ g ∈ gapsFrom stop start ts, g.1 ≤ g.2) :
    (∀ t ∈ ts, start ≤ t.offset) ∧ ts.Pairwise fun a b => a.stop ≤ b.offset := by
  induction ts generalizing start with
  | nil => exact ⟨by simp, .nil⟩
  | cons t ts ih =>
    obtain ⟨hfirst, hrest⟩ := List.forall_mem_cons.mp h
    obtain ⟨hle, hpairs⟩ := ih hrest
    refine ⟨List.forall_mem_cons.mpr ⟨hfirst, fun u hu => ?_⟩, List.pairwise_cons.mpr ⟨hle, hpairs⟩⟩
    have hu' := hle u hu
    unfold Token.stop at hu'
    exact show start ≤ u.offset by omega

end Lexer

open Lexer in
/-- The tokens of a text tile it: they stand in the order of their offsets and do not overlap, each is the
part of the text at its offset and has the line of that place, and what is left before, between and behind
them are blanks and comments, of which none begins where a token does. -/
theorem tokenize_tiles (text : String) :
    (tokenize text).Pairwise (fun a b => a.offset < b.offset) ∧
    (∀ t ∈ tokenize text, t.text.toList = text.toList.extract t.offset t.stop) ∧
    (tokenize text).Pairwise (fun a b => a.stop ≤ b.offset) ∧
    (∀ g ∈ gapsFrom text.toList.length 0 (tokenize text),
      g.1 ≤ g.2 ∧ Gap (text.toList.drop g.2) (text.toList.extract g.1 g.2)) ∧
    (∀ t ∈ tokenize text, ¬ StartsFiller (text.toList.drop t.offset)) ∧
    ∀ t ∈ tokenize text, t.line = 1 + (text.toList.take t.offset).count '\n' := by
  have tiles : TilesFrom text.toList 0 (tokenize text) := tilesFrom_place [] text.toList
  have horder := (pairwise_tokenize text).imp fun h => h.1
  have hapart := (pairwise_of_gaps fun g hg => (tiles.gaps g hg).1).2
  exact ⟨horder, tiles.text, hapart, tiles.gaps, tiles.unfilled, tiles.line⟩

end ContractAudit
