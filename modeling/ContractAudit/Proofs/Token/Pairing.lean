import ContractAudit.Proofs.Token.Matching

/-!
# Brackets in pairs

The search for a closing bracket and the search for an opening one count separately, each in its own direction and
over one kind of bracket, on runs that need not be balanced. Both find the same pairs, those with a balanced run in
between. `Bracket.height` counts the brackets that a beginning of the run leaves open: it is lowest in a pair right
behind the opening bracket, where it is as high as in front of the closing one. So two pairs of a kind do not cross.
-/

namespace ContractAudit

namespace Bracket

/-! ## Pairs -/

/-- The brackets at `i` and `j` match, with a balanced run between them. -/
def Pairs (b : Bracket) (ts : List Token) (i j : Nat) : Prop :=
  ∃ (before : List Token) (g : Bracketed b) (after : List Token), ts = before ++ (g.tokens ++ after) ∧
    i = before.length ∧ j = before.length + 1 + g.inner.length

/-- What a search for an opening bracket passes over is balanced, read forwards. -/
theorem balanced_of_enclosedBack? {b : Bracket} {before : List Token} {e : Enclosed}
    (h : b.enclosedBack? before = some e) : b.Balanced e.inner.reverse := by
  obtain ⟨htotal, hpart⟩ := Enclosed.count_of_find? (fun t ht => Token.not_opens_of_closes ht b) h
  refine ⟨by simp [htotal], ?_⟩
  rintro part ⟨rest, hrun⟩
  -- The rest of the run, read backwards, is where the search began.
  have hinner : e.inner = rest.reverse ++ part.reverse := by
    rw [← List.reverse_append, hrun, List.reverse_reverse]
  have hrest := hpart rest.reverse ⟨part.reverse, hinner.symm⟩
  rw [hinner] at htotal
  simp only [List.countP_append, List.countP_reverse] at htotal hrest
  omega

theorem opens_close_of_enclosedBack? {b : Bracket} {before : List Token} {e : Enclosed}
    (h : b.enclosedBack? before = some e) : e.close.opens b = true :=
  Enclosed.leave_close_of_find? h

end Bracket

namespace Token

variable {ts : List Token} {i j : Nat}

theorem take_append_of_drop_eq_cons {t : Token} {after : List Token} (h : ts.drop i = t :: after) :
    ts = ts.take i ++ t :: after ∧ (ts.take i).length = i := by
  have hlt : i < ts.length := by
    refine Nat.lt_of_not_le fun hge => ?_
    rw [List.drop_eq_nil_of_le hge] at h
    cases h
  exact ⟨by rw [← h, List.take_append_drop], by simp; omega⟩

theorem closingIndex?_eq_some_iff : closingIndex? ts i = some j ↔ ∃ b : Bracket, b.Pairs ts i j := by
  constructor
  · intro h
    unfold closingIndex? at h
    split at h
    · cases h
    · rename_i t after hdrop
      obtain ⟨b, hb, h⟩ := Option.bind_eq_some_iff.mp h
      obtain ⟨e, he, h⟩ := Option.bind_eq_some_iff.mp h
      cases h
      obtain ⟨hrun, hlen⟩ := take_append_of_drop_eq_cons hdrop
      let g : Bracketed b :=
        ⟨t, e.inner, e.close, opener?_eq_some_iff.mp hb, Bracket.closes_close_of_enclosed? he,
          Bracket.balanced_of_enclosed? he⟩
      refine ⟨b, ts.take i, g, e.rest, ?_, hlen.symm, by rw [hlen]⟩
      rw [Bracketed.tokens_append, Enclosed.run_of_find? he]
      exact hrun
  · rintro ⟨b, before, g, after, rfl, rfl, rfl⟩
    simp only [closingIndex?, Bracketed.tokens_append, List.drop_left, opener?_eq_some_iff.mpr g.opens,
      Option.bind_eq_bind, Option.bind_some, g.enclosed?]
    rfl

theorem openingIndex?_eq_some_iff : openingIndex? ts j = some i ↔ ∃ b : Bracket, b.Pairs ts i j := by
  constructor
  · intro h
    unfold openingIndex? at h
    split at h
    · cases h
    · rename_i t after hdrop
      obtain ⟨b, hb, h⟩ := Option.bind_eq_some_iff.mp h
      obtain ⟨e, he, h⟩ := Option.bind_eq_some_iff.mp h
      cases h
      obtain ⟨hrun, hlen⟩ := take_append_of_drop_eq_cons hdrop
      let g : Bracketed b :=
        ⟨e.close, e.inner.reverse, t, Bracket.opens_close_of_enclosedBack? he, closer?_eq_some_iff.mp hb,
          Bracket.balanced_of_enclosedBack? he⟩
      have hfront : ts.take j = e.rest.reverse ++ e.close :: e.inner.reverse := by
        rw [← List.reverse_reverse (ts.take j), ← Enclosed.run_of_find? he]
        simp
      refine ⟨b, e.rest.reverse, g, after, ?_, by simp, ?_⟩
      · rw [Bracketed.tokens_append, hrun, hfront]
        simp [g]
      · rw [← hlen, hfront]
        simp [g]
        omega
  · rintro ⟨b, before, g, after, rfl, rfl, rfl⟩
    have hrun : before ++ (g.tokens ++ after) = (before ++ g.opening :: g.inner) ++ g.closing :: after := by
      simp [Bracketed.tokens]
    have hlen : before.length + 1 + g.inner.length = (before ++ g.opening :: g.inner).length := by
      simp
      omega
    have hback : (before ++ g.opening :: g.inner).reverse = g.inner.reverse ++ g.opening :: before.reverse := by
      simp
    simp only [openingIndex?, hrun, hlen, List.drop_left, List.take_left, closer?_eq_some_iff.mpr g.closes,
      Option.bind_eq_bind, Option.bind_some, hback, g.enclosedBack?]
    simp

end Token

namespace Bracket

/-! ## Heights -/

/-- How many brackets of the kind the run opens beyond those it closes. -/
def excess (b : Bracket) (run : List Token) : Int := run.countP (·.opens b) - run.countP (·.closes b)

/-- How many brackets of the kind are open in front of position `n`. -/
def height (b : Bracket) (ts : List Token) (n : Nat) : Int := b.excess (ts.take n)

variable {b : Bracket} {run run' : List Token} {t : Token}

theorem excess_append : b.excess (run ++ run') = b.excess run + b.excess run' := by
  simp only [excess, List.countP_append]
  omega

theorem excess_cons_of_opens (h : t.opens b = true) : b.excess (t :: run) = b.excess run + 1 := by
  simp only [excess, List.countP_cons, h, Token.not_closes_of_opens h b]
  simp
  omega

theorem excess_of_closes (h : t.closes b = true) : b.excess [t] = -1 := by
  simp [excess, h, Token.not_opens_of_closes h b]

theorem Balanced.excess_eq (h : b.Balanced run) : b.excess run = 0 := by
  have := h.total
  simp only [excess]
  omega

theorem Balanced.excess_take (h : b.Balanced run) (n : Nat) : 0 ≤ b.excess (run.take n) := by
  have := h.beginning _ (List.take_prefix n run)
  simp only [excess]
  omega

/-- How high a run stands inside and around a pair. -/
structure Spans (b : Bracket) (ts : List Token) (i j : Nat) : Prop where
  opening : b.height ts (i + 1) = b.height ts i + 1
  inside : ∀ n, i < n → n ≤ j → b.height ts (i + 1) ≤ b.height ts n
  level : b.height ts j = b.height ts (i + 1)
  closing : b.height ts (j + 1) = b.height ts j - 1

variable {ts : List Token} {i j i' j' : Nat}

theorem Pairs.spans (h : b.Pairs ts i j) : b.Spans ts i j := by
  obtain ⟨before, g, after, rfl, rfl, rfl⟩ := h
  have hinner (m : Nat) (hm : m ≤ g.inner.length) :
      b.height (before ++ (g.tokens ++ after)) (before.length + 1 + m) =
        b.excess before + 1 + b.excess (g.inner.take m) := by
    have htake : (before ++ (g.tokens ++ after)).take (before.length + 1 + m) =
        before ++ g.opening :: g.inner.take m := by
      rw [Bracketed.tokens_append, Nat.add_assoc, List.take_length_add_append, Nat.add_comm 1 m,
        List.take_succ_cons, List.take_append_of_le_length hm]
    rw [height, htake, excess_append, excess_cons_of_opens g.opens]
    omega
  have hstart : b.height (before ++ (g.tokens ++ after)) before.length = b.excess before := by
    rw [height, List.take_left]
  have hfirst := hinner 0 (Nat.zero_le _)
  have hlast := hinner g.inner.length (Nat.le_refl _)
  have hend : b.height (before ++ (g.tokens ++ after)) (before.length + 1 + g.inner.length + 1) =
      b.excess before := by
    have hlen : before.length + 1 + g.inner.length + 1 = (before ++ g.tokens).length := by
      rw [List.length_append, g.length_tokens]
      omega
    have hgroup : b.excess g.tokens = 0 := by
      rw [Bracketed.tokens, excess_cons_of_opens g.opens, excess_append, g.balanced.excess_eq,
        excess_of_closes g.closes]
      omega
    rw [height, hlen, ← List.append_assoc, List.take_left, excess_append, hgroup, Int.add_zero]
  rw [List.take_length, g.balanced.excess_eq] at hlast
  rw [List.take_zero, show b.excess [] = 0 from rfl, Nat.add_zero] at hfirst
  refine ⟨by omega, fun n hlt hle => ?_, by omega, by omega⟩
  obtain ⟨m, rfl⟩ : ∃ m, n = before.length + 1 + m := ⟨n - (before.length + 1), by omega⟩
  have hm := hinner m (by omega)
  have hnonneg := g.balanced.excess_take m
  omega

/-- A pair that starts behind another of its kind stands behind it or inside it. -/
theorem Spans.behind_or_inside (h : b.Spans ts i j) (h' : b.Spans ts i' j') (hi : i < i') : j < i' ∨ j' < j := by
  rcases Nat.lt_or_ge j i' with hbehind | hle
  · exact .inl hbehind
  · refine .inr (Nat.lt_of_not_le fun hcross => ?_)
    have hopened := h.inside i' hi hle
    have hlevel := h.level
    have hclosing := h.closing
    have hopening := h'.opening
    rcases Nat.lt_or_eq_of_le hle with hlt | rfl
    · have hkept := h'.inside j hlt hcross
      omega
    · omega

/-- Two pairs of a kind stand apart, or one of them stands inside the other. -/
theorem Spans.apart_or_inside (h : b.Spans ts i j) (h' : b.Spans ts i' j') :
    (j < i' ∨ j' < i) ∨ (i ≤ i' ∧ j' ≤ j) ∨ (i' ≤ i ∧ j ≤ j') := by
  rcases Nat.lt_trichotomy i i' with hi | rfl | hi
  · rcases h.behind_or_inside h' hi with hj | hj
    · exact .inl (.inl hj)
    · exact .inr (.inl ⟨Nat.le_of_lt hi, Nat.le_of_lt hj⟩)
  · rcases Nat.le_total j j' with hj | hj
    · exact .inr (.inr ⟨Nat.le_refl _, hj⟩)
    · exact .inr (.inl ⟨Nat.le_refl _, hj⟩)
  · rcases h'.behind_or_inside h hi with hj | hj
    · exact .inl (.inr hj)
    · exact .inr (.inr ⟨Nat.le_of_lt hi, Nat.le_of_lt hj⟩)

theorem Pairs.opener? (h : b.Pairs ts i j) : ts[i]?.bind Token.opener? = some b := by
  obtain ⟨before, g, after, rfl, rfl, rfl⟩ := h
  simp [Bracketed.tokens_append, Token.opener?_eq_some_iff.mpr g.opens]

end Bracket

namespace Token

/-- In every run the closing bracket of `i` is at `j` exactly if the opening one of `j` is at `i`, which is so for
each pair around a balanced run and no other. Two pairs of one kind stand apart, or one inside the other. -/
theorem brackets_paired (ts : List Token) :
    (∀ i j, closingIndex? ts i = some j ↔ openingIndex? ts j = some i) ∧
    (∀ i j, closingIndex? ts i = some j ↔ ∃ b : Bracket, b.Pairs ts i j) ∧
    ∀ i j i' j', closingIndex? ts i = some j → closingIndex? ts i' = some j' →
      ts[i]?.bind opener? = ts[i']?.bind opener? →
      (j < i' ∨ j' < i) ∨ (i ≤ i' ∧ j' ≤ j) ∨ (i' ≤ i ∧ j ≤ j') := by
  refine ⟨fun i j => closingIndex?_eq_some_iff.trans openingIndex?_eq_some_iff.symm,
    fun i j => closingIndex?_eq_some_iff, ?_⟩
  intro i j i' j' h h' hkind
  obtain ⟨b, hb⟩ := closingIndex?_eq_some_iff.mp h
  obtain ⟨b', hb'⟩ := closingIndex?_eq_some_iff.mp h'
  rw [hb.opener?, hb'.opener?] at hkind
  cases hkind
  exact hb.spans.apart_or_inside hb'.spans

/-- Crossing kinds, a closing bracket too many and an opening one too many. -/
def crossedText : String := ") ( [ ( ) ] ] ( [ ) ] ["

theorem brackets_paired_crossedText :
    let ts := tokenize crossedText
    closingIndex? ts 7 = some 9 ∧ openingIndex? ts 9 = some 7 ∧ closingIndex? ts 8 = some 10 ∧
      openingIndex? ts 10 = some 8 ∧ closingIndex? ts 1 = none ∧ openingIndex? ts 6 = none ∧
      closingIndex? ts 2 = some 5 ∧ ts[2]?.bind opener? = ts[8]?.bind opener? ∧
      ((5 < 8 ∨ 10 < 2) ∨ (2 ≤ 8 ∧ 10 ≤ 5) ∨ (8 ≤ 2 ∧ 5 ≤ 10)) := by
  intro ts
  obtain ⟨hround, hsquare, houter, hopen, hclose, hkind⟩ :
      closingIndex? ts 7 = some 9 ∧ closingIndex? ts 8 = some 10 ∧ closingIndex? ts 2 = some 5 ∧
        closingIndex? ts 1 = none ∧ openingIndex? ts 6 = none ∧
        ts[2]?.bind opener? = ts[8]?.bind opener? := by decide +kernel
  obtain ⟨hback, -, hapart⟩ := brackets_paired ts
  exact ⟨hround, (hback 7 9).mp hround, hsquare, (hback 8 10).mp hsquare, hopen, hclose, houter, hkind,
    hapart 2 5 8 10 houter hsquare hkind⟩

end Token

end ContractAudit
