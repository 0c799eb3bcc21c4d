import ContractAudit.Proofs.Token.Nested
import ContractAudit.Token.Lexer

/-!
# Tokens in source order

The tokens of a text stand in the order of their offsets, and their lines do not decrease. What a search for a
closing bracket passes over is balanced in brackets of that kind.
-/

namespace ContractAudit

/-! ## Offsets and lines -/

/-- Stands in front of the other token of a text. -/
def Token.Precedes (a b : Token) : Prop := a.offset < b.offset ∧ a.line ≤ b.line

namespace Lexer

theorem text_ne_nil_of_mem_pieces {cs : List Char} {p : Piece} (h : p ∈ pieces cs) : p.text ≠ [] := by
  fun_induction pieces cs with
  | case1 => cases h
  | case2 c cs q ih =>
    rcases List.mem_cons.mp h with rfl | h
    · exact List.cons_ne_nil _ _
    · exact ih h

theorem le_of_mem_place {line offset : Nat} {ps : List Piece} {t : Token} (h : t ∈ place line offset ps) :
    offset ≤ t.offset ∧ line ≤ t.line := by
  induction ps generalizing line offset with
  | nil => cases h
  | cons p ps ih =>
    have hrest : t ∈ place (line + newlines p.text) (offset + p.text.length) ps →
        offset ≤ t.offset ∧ line ≤ t.line := by
      intro hmem
      have := ih hmem
      omega
    simp only [place] at h
    split at h
    · rcases List.mem_cons.mp h with rfl | h
      · exact ⟨Nat.le_refl _, Nat.le_refl _⟩
      · exact hrest h
    · exact hrest h

theorem pairwise_place {ps : List Piece} (hne : ∀ p ∈ ps, p.text ≠ []) (line offset : Nat) :
    (place line offset ps).Pairwise Token.Precedes := by
  induction ps generalizing line offset with
  | nil => exact .nil
  | cons p ps ih =>
    obtain ⟨hp, hps⟩ := List.forall_mem_cons.mp hne
    simp only [place]
    split
    · refine List.pairwise_cons.mpr ⟨fun t ht => ?_, ih hps _ _⟩
      have hle := le_of_mem_place ht
      have hpos := List.length_pos_iff.mpr hp
      exact ⟨show offset < t.offset by omega, show line ≤ t.line by omega⟩
    · exact ih hps _ _

end Lexer

theorem pairwise_tokenize (text : String) : (tokenize text).Pairwise Token.Precedes :=
  Lexer.pairwise_place (fun _ => Lexer.text_ne_nil_of_mem_pieces) 1 0

/-! ## Balance -/

/-- The run closes as many brackets of the kind as it opens, and no beginning of it closes more. -/
structure Bracket.Balanced (b : Bracket) (run : List Token) : Prop where
  total : run.countP (·.closes b) = run.countP (·.opens b)
  beginning : ∀ part, part <+: run → part.countP (·.closes b) ≤ part.countP (·.opens b)

theorem Bracket.Balanced.nil (b : Bracket) : b.Balanced [] :=
  ⟨rfl, fun _ h => by rw [List.prefix_nil.mp h]; exact Nat.le_refl _⟩

namespace Enclosed

variable {enter leave : Token → Bool} {depth : Nat} {ts : List Token} {e : Enclosed}

/-- What a search does with the first token of a run. -/
theorem find?_cons_cases {t : Token} (h : find? enter leave depth (t :: ts) = some e) :
    (enter t = false ∧ leave t = true ∧ depth = 0 ∧ e = ⟨[], t, ts⟩) ∨
      ∃ d e', find? enter leave d ts = some e' ∧ e = e'.cons t ∧
        (enter t = true ∧ d = depth + 1 ∨ enter t = false ∧ leave t = true ∧ d + 1 = depth ∨
          enter t = false ∧ leave t = false ∧ d = depth) := by
  rw [find?.eq_def] at h
  simp only at h
  split at h
  · rename_i ht
    obtain ⟨e', he', rfl⟩ := Option.map_eq_some_iff.mp h
    exact .inr ⟨_, e', he', rfl, .inl ⟨ht, rfl⟩⟩
  · rename_i ht
    rw [Bool.not_eq_true] at ht
    split at h
    · rename_i hl
      cases depth with
      | zero =>
        cases h
        exact .inl ⟨ht, hl, rfl, rfl⟩
      | succ d =>
        obtain ⟨e', he', rfl⟩ := Option.map_eq_some_iff.mp h
        exact .inr ⟨d, e', he', rfl, .inr (.inl ⟨ht, hl, rfl⟩)⟩
    · rename_i hl
      rw [Bool.not_eq_true] at hl
      obtain ⟨e', he', rfl⟩ := Option.map_eq_some_iff.mp h
      exact .inr ⟨depth, e', he', rfl, .inr (.inr ⟨ht, hl, rfl⟩)⟩

theorem leave_close_of_find? (h : find? enter leave depth ts = some e) : leave e.close = true := by
  induction ts generalizing depth e with
  | nil => simp [find?] at h
  | cons t ts ih =>
    rcases find?_cons_cases h with ⟨-, hl, -, rfl⟩ | ⟨d, e', he', rfl, -⟩
    · exact hl
    · simpa [cons] using ih he'

/-- A search that starts inside `depth + 1` brackets passes over `depth` more that are left than entered, and
at no point over more than those. -/
theorem count_of_find? (hex : ∀ t, enter t = true → leave t = false)
    (h : find? enter leave depth ts = some e) :
    e.inner.countP leave = e.inner.countP enter + depth ∧
      ∀ part, part <+: e.inner → part.countP leave ≤ part.countP enter + depth := by
  induction ts generalizing depth e with
  | nil => simp [find?] at h
  | cons t ts ih =>
    rcases find?_cons_cases h with ⟨-, -, rfl, rfl⟩ | ⟨d, e', he', rfl, hd⟩
    · refine ⟨rfl, fun part hp => ?_⟩
      rw [List.prefix_nil.mp hp]
      exact Nat.le_refl _
    · obtain ⟨htotal, hpart⟩ := ih he'
      have hstep : (if leave t then 1 else 0) + d = (if enter t then 1 else 0) + depth := by
        rcases hd with ⟨ht, rfl⟩ | ⟨ht, hl, rfl⟩ | ⟨ht, hl, rfl⟩
        · simp [ht, hex t ht, Nat.add_comm]
        · simp [ht, hl, Nat.add_comm]
        · simp [ht, hl]
      refine ⟨?_, fun part hp => ?_⟩
      · simp only [cons, List.countP_cons]
        omega
      · rcases List.prefix_cons_iff.mp hp with rfl | ⟨part', rfl, hp'⟩
        · exact Nat.zero_le _
        · have := hpart part' hp'
          simp only [List.countP_cons]
          omega

end Enclosed

namespace Bracket

variable {b : Bracket} {after : List Token} {e : Enclosed}

theorem closes_close_of_enclosed? (h : b.enclosed? after = some e) : e.close.closes b = true :=
  Enclosed.leave_close_of_find? h

theorem suffix_of_enclosed? (h : b.enclosed? after = some e) : e.rest <:+ after :=
  ⟨e.inner ++ [e.close], by simp [← Enclosed.run_of_find? h]⟩

theorem balanced_of_enclosed? (h : b.enclosed? after = some e) : b.Balanced e.inner := by
  obtain ⟨htotal, hpart⟩ := Enclosed.count_of_find? (fun t ht => Token.not_closes_of_opens ht b) h
  exact ⟨htotal, hpart⟩

end Bracket

end ContractAudit
