import ContractAudit.Proofs.Token.Order

/-!
# Brackets that match

A run that closes each bracket of a kind that it opens, in this order, is passed over by the search for the bracket
that closes it and, read backwards, by the search for the one that opens it. So each of two such brackets is found
from the other. In a nested run every bracket has its partner, and the run between the two is nested.
-/

namespace ContractAudit

namespace Enclosed

variable {enter leave : Token → Bool}

/-- A run that at no point leaves more brackets than it stands in is passed over, with `depth'` to leave behind it. -/
theorem find?_append_of_count {depth : Nat} (depth' : Nat) {run : List Token} (rest : List Token)
    (hex : ∀ t, enter t = true → leave t = false)
    (htotal : run.countP leave + depth' = run.countP enter + depth)
    (hpart : ∀ part, part <+: run → part.countP leave ≤ part.countP enter + depth) :
    find? enter leave depth (run ++ rest) = (find? enter leave depth' rest).map (prepend run) := by
  induction run generalizing depth with
  | nil =>
    have hid : prepend [] = id := rfl
    simp only [List.countP_nil, Nat.zero_add] at htotal
    simp [hid, htotal]
  | cons t run ih =>
    have hstep (d : Nat) (hd : (if leave t then 1 else 0) + d = (if enter t then 1 else 0) + depth) :
        find? enter leave d (run ++ rest) = (find? enter leave depth' rest).map (prepend run) := by
      refine ih ?_ fun part hp => ?_
      · simp only [List.countP_cons] at htotal
        omega
      · have := hpart (t :: part) (List.cons_prefix_cons.mpr ⟨rfl, hp⟩)
        simp only [List.countP_cons] at this
        omega
    rw [List.cons_append, find?.eq_def]
    simp only
    by_cases he : enter t = true
    · rw [if_pos he, hstep (depth + 1) (by simp [he, hex t he, Nat.add_comm]), Option.map_map]
      rfl
    · rw [if_neg he]
      by_cases hl : leave t = true
      · rw [if_pos hl]
        cases depth with
        | zero =>
          have := hpart [t] (List.cons_prefix_cons.mpr ⟨rfl, List.nil_prefix⟩)
          simp [hl, he] at this
        | succ d =>
          simp only
          rw [hstep d (by simp [he, hl, Nat.add_comm]), Option.map_map]
          rfl
      · rw [if_neg hl, hstep depth (by simp [he, hl]), Option.map_map]
        rfl

end Enclosed

namespace Bracket

variable {b : Bracket} {inner rest : List Token} {opening closing : Token}

/-- The brackets around a balanced run match: the closing one is found from the opening one. -/
theorem Balanced.enclosed? (h : b.Balanced inner) (hc : closing.closes b = true) :
    b.enclosed? (inner ++ closing :: rest) = some ⟨inner, closing, rest⟩ := by
  rw [Bracket.enclosed?, Enclosed.find?_append_of_count 0 _
    (fun t ht => Token.not_closes_of_opens ht b) (by rw [h.total]) h.beginning]
  simp [Enclosed.find?, Token.not_opens_of_closes hc, hc, Enclosed.prepend]

/-- Read backwards a balanced run opens at no point more brackets than it closes. -/
theorem Balanced.ending (h : b.Balanced inner) {part : List Token} (hp : part <+: inner.reverse) :
    part.countP (·.opens b) ≤ part.countP (·.closes b) := by
  obtain ⟨front, hf⟩ := hp
  have hrun : inner = front.reverse ++ part.reverse := by
    rw [← List.reverse_append, hf, List.reverse_reverse]
  have htotal := h.total
  have hfront := h.beginning front.reverse ⟨part.reverse, hrun.symm⟩
  rw [hrun, List.countP_append, List.countP_append, List.countP_reverse, List.countP_reverse,
    List.countP_reverse, List.countP_reverse] at htotal
  rw [List.countP_reverse, List.countP_reverse] at hfront
  omega

/-- The opening one is found from the closing one. -/
theorem Balanced.enclosedBack? (h : b.Balanced inner) (ho : opening.opens b = true) :
    b.enclosedBack? (inner.reverse ++ opening :: rest) = some ⟨inner.reverse, opening, rest⟩ := by
  rw [Bracket.enclosedBack?, Enclosed.find?_append_of_count 0 _
    (fun t ht => Token.not_opens_of_closes ht b) (by simp [h.total]) fun part hp => h.ending hp]
  simp [Enclosed.find?, Token.not_closes_of_opens ho, ho, Enclosed.prepend]

end Bracket

/-- Brackets of a kind that match, with the run between them. -/
structure Bracketed (b : Bracket) where
  opening : Token
  inner : List Token
  closing : Token
  opens : opening.opens b = true
  closes : closing.closes b = true
  balanced : b.Balanced inner

namespace Bracketed

variable {b : Bracket} (g : Bracketed b)

def tokens : List Token := g.opening :: (g.inner ++ [g.closing])

theorem tokens_append (rest : List Token) : g.tokens ++ rest = g.opening :: (g.inner ++ g.closing :: rest) := by
  simp [tokens]

theorem length_tokens : g.tokens.length = g.inner.length + 2 := by simp [tokens]

theorem reverse_tokens_append (rest : List Token) :
    g.tokens.reverse ++ rest = g.closing :: (g.inner.reverse ++ g.opening :: rest) := by
  simp [tokens]

theorem enclosed? (rest : List Token) :
    b.enclosed? (g.inner ++ g.closing :: rest) = some ⟨g.inner, g.closing, rest⟩ :=
  g.balanced.enclosed? g.closes

theorem enclosedBack? (rest : List Token) :
    b.enclosedBack? (g.inner.reverse ++ g.opening :: rest) = some ⟨g.inner.reverse, g.opening, rest⟩ :=
  g.balanced.enclosedBack? g.opens

end Bracketed

/-! ## Brackets of nested runs -/

/-- Of two tokens at which a run is cut one stands in front of the other, or they are the same. -/
theorem cut_cases {front after front' after' : List Token} {t t' : Token}
    (h : front ++ t :: after = front' ++ t' :: after') :
    (∃ mid, front' = front ++ t :: mid ∧ after = mid ++ t' :: after') ∨
      (front' = front ∧ t' = t ∧ after' = after) ∨
      ∃ mid, front = front' ++ t' :: mid ∧ after' = mid ++ t :: after := by
  rcases List.append_eq_append_iff.mp h with ⟨part, rfl, hpart⟩ | ⟨part, rfl, hpart⟩
  · cases part with
    | nil =>
      cases hpart
      exact .inr (.inl ⟨List.append_nil _, rfl, rfl⟩)
    | cons x part =>
      cases hpart
      exact .inl ⟨part, rfl, rfl⟩
  · cases part with
    | nil =>
      cases hpart
      exact .inr (.inl ⟨(List.append_nil _).symm, rfl, rfl⟩)
    | cons x part =>
      cases hpart
      exact .inr (.inr ⟨part, rfl, rfl⟩)

namespace Nested

variable {outside : Token → Bool} {run front after : List Token} {t : Token} {b : Bracket}

/-- In a nested run an opening bracket is closed, and what it encloses is nested. -/
theorem exists_enclosed? (h : Nested outside run) (hrun : run = front ++ t :: after) (ho : t.opens b = true) :
    ∃ e, b.enclosed? after = some e ∧ Nested (fun _ => true) e.inner := by
  induction h generalizing front after with
  | nil => simp at hrun
  | @token outside x xs hb _ _ ih =>
    cases front with
    | nil =>
      cases hrun
      rw [(Token.isBracket_eq_false.mp hb b).1] at ho
      cases ho
    | cons y front => exact ih (List.cons.inj hrun).2
  | @group outside b' opening closing inner rest ho' hc hi _ ihi ih =>
    cases front with
    | nil =>
      cases hrun
      rw [Token.opens_of_opens ho', decide_eq_true_iff] at ho
      subst ho
      exact ⟨_, Bracket.enclosed?_of_nested hi hc, hi⟩
    | cons y front =>
      rcases cut_cases (List.cons.inj hrun).2 with ⟨mid, -, hrest⟩ | ⟨-, rfl, -⟩ | ⟨mid, hinner, rfl⟩
      · exact ih hrest
      · rw [Token.not_opens_of_closes hc] at ho
        cases ho
      · obtain ⟨e, he, hn⟩ := ihi hinner
        exact ⟨_, Enclosed.find?_append_of_find? he _, hn⟩

/-- In a nested run what matching brackets enclose is nested. -/
theorem inner_of_bracketed {g : Bracketed b} (h : Nested outside (front ++ (g.tokens ++ after))) :
    Nested (fun _ => true) g.inner := by
  obtain ⟨e, he, hn⟩ := h.exists_enclosed? (by rw [Bracketed.tokens_append]) g.opens
  rw [g.enclosed? after] at he
  cases he
  exact hn

/-- In a nested run a closing bracket closes one in front of it, with a nested run between them. -/
theorem exists_group (h : Nested outside run) (hrun : run = front ++ t :: after) (hc : t.closes b = true) :
    ∃ start opening inner, front = start ++ opening :: inner ∧ opening.opens b = true ∧
      Nested (fun _ => true) inner := by
  induction h generalizing front after with
  | nil => simp at hrun
  | @token outside x xs hb _ _ ih =>
    cases front with
    | nil =>
      cases hrun
      rw [(Token.isBracket_eq_false.mp hb b).2] at hc
      cases hc
    | cons y front =>
      obtain ⟨start, opening, inner, rfl, ho, hi⟩ := ih (List.cons.inj hrun).2
      exact ⟨y :: start, opening, inner, rfl, ho, hi⟩
  | @group outside b' opening closing inner rest ho hc' hi _ ihi ih =>
    cases front with
    | nil =>
      cases hrun
      rw [Token.not_closes_of_opens ho] at hc
      cases hc
    | cons y front =>
      obtain ⟨rfl, htail⟩ := List.cons.inj hrun
      rcases cut_cases htail with ⟨mid, rfl, hrest⟩ | ⟨rfl, rfl, -⟩ | ⟨mid, hinner, rfl⟩
      · obtain ⟨start, o, i, rfl, ho', hi'⟩ := ih hrest
        exact ⟨opening :: (inner ++ closing :: start), o, i, by simp, ho', hi'⟩
      · rw [Token.closes_of_closes hc', decide_eq_true_iff] at hc
        exact ⟨[], opening, _, rfl, hc ▸ ho, hi⟩
      · obtain ⟨start, o, i, rfl, ho', hi'⟩ := ihi hinner
        exact ⟨opening :: start, o, i, rfl, ho', hi'⟩

/-- A nested run is balanced in brackets of each kind. -/
theorem balanced (h : Nested outside run) (b : Bracket) : b.Balanced run := by
  have hclose : b.enclosed? (run ++ [⟨.punct, b.closing, 0, 0⟩]) = some ⟨run, ⟨.punct, b.closing, 0, 0⟩, []⟩ :=
    Bracket.enclosed?_of_nested h (by simp [Token.closes, Token.isPunct])
  exact Bracket.balanced_of_enclosed? hclose

end Nested

end ContractAudit
