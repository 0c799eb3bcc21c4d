import ContractAudit.Contract.Member

/-!
# Properly nested runs

`Nested outside run`: the brackets of `run` are properly nested, whatever their kinds, and every token
outside all brackets is in the class `outside`. A search that counts brackets passes over such a run and
goes on behind it as it would have gone on before it. This holds of the search for a closing bracket, of
the end of a statement and of the words outside parentheses.
-/

namespace ContractAudit

/-! ## One token, one bracket -/

namespace Bracket

theorem opening_inj {b b' : Bracket} (h : b.opening = b'.opening) : b = b' := by
  revert h
  cases b <;> cases b' <;> decide

theorem closing_inj {b b' : Bracket} (h : b.closing = b'.closing) : b = b' := by
  revert h
  cases b <;> cases b' <;> decide

theorem opening_ne_closing (b b' : Bracket) : b.opening ≠ b'.closing := by
  cases b <;> cases b' <;> decide

end Bracket

namespace Token

variable {t : Token} {b b' : Bracket}

theorem isPunct_iff {text : String} : t.isPunct text = true ↔ t.kind = .punct ∧ t.text = text := by
  simp [isPunct]

theorem isPunct_of_isPunct {x y : String} (h : t.isPunct x = true) : t.isPunct y = (x == y) := by
  obtain ⟨hk, rfl⟩ := isPunct_iff.mp h
  simp [isPunct, hk]

theorem not_isPunct_of_isIdent (h : t.isIdent = true) (text : String) : t.isPunct text = false := by
  have hk : t.kind = .ident := by simpa [isIdent] using h
  simp [isPunct, hk]

theorem not_isIdent_of_isPunct {text : String} (h : t.isPunct text = true) : t.isIdent = false := by
  simp [isIdent, (isPunct_iff.mp h).1]

theorem opens_of_opens (h : t.opens b = true) : t.opens b' = decide (b' = b) := by
  rw [opens, isPunct_of_isPunct h, Bool.eq_iff_iff, beq_iff_eq, decide_eq_true_iff]
  exact ⟨fun he => (Bracket.opening_inj he).symm, fun he => he ▸ rfl⟩

theorem closes_of_closes (h : t.closes b = true) : t.closes b' = decide (b' = b) := by
  rw [closes, isPunct_of_isPunct h, Bool.eq_iff_iff, beq_iff_eq, decide_eq_true_iff]
  exact ⟨fun he => (Bracket.closing_inj he).symm, fun he => he ▸ rfl⟩

theorem not_closes_of_opens (h : t.opens b = true) (b' : Bracket) : t.closes b' = false := by
  rw [closes, isPunct_of_isPunct h, beq_eq_false_iff_ne]
  exact Bracket.opening_ne_closing b b'

theorem not_opens_of_closes (h : t.closes b = true) (b' : Bracket) : t.opens b' = false := by
  rw [opens, isPunct_of_isPunct h, beq_eq_false_iff_ne]
  exact (Bracket.opening_ne_closing b' b).symm

theorem isSome_opener?_iff : t.opener?.isSome = true ↔ ∃ b, t.opens b = true := by
  simp only [opener?, Bracket.all, List.find?_isSome, List.mem_cons, List.not_mem_nil, or_false]
  constructor
  · rintro ⟨b, -, h⟩
    exact ⟨b, h⟩
  · rintro ⟨b, h⟩
    exact ⟨b, by cases b <;> simp, h⟩

theorem isSome_closer?_iff : t.closer?.isSome = true ↔ ∃ b, t.closes b = true := by
  simp only [closer?, Bracket.all, List.find?_isSome, List.mem_cons, List.not_mem_nil, or_false]
  constructor
  · rintro ⟨b, -, h⟩
    exact ⟨b, h⟩
  · rintro ⟨b, h⟩
    exact ⟨b, by cases b <;> simp, h⟩

theorem opener?_of_opens (h : t.opens b = true) : t.opener?.isSome = true :=
  isSome_opener?_iff.mpr ⟨b, h⟩

theorem closer?_of_closes (h : t.closes b = true) : t.closer?.isSome = true :=
  isSome_closer?_iff.mpr ⟨b, h⟩

theorem opener?_of_closes (h : t.closes b = true) : t.opener?.isSome = false := by
  rw [Bool.eq_false_iff]
  intro ho
  obtain ⟨b', ho⟩ := isSome_opener?_iff.mp ho
  rw [not_opens_of_closes h] at ho
  cases ho

theorem isBracket_eq_false : t.isBracket = false ↔ ∀ b, t.opens b = false ∧ t.closes b = false := by
  rw [Bool.eq_false_iff, isBracket, Ne, Bool.or_eq_true, isSome_opener?_iff, isSome_closer?_iff]
  simp only [not_or, not_exists, Bool.not_eq_true, forall_and]

theorem not_isBracket_of_isIdent (h : t.isIdent = true) : t.isBracket = false :=
  isBracket_eq_false.mpr fun _ => ⟨not_isPunct_of_isIdent h _, not_isPunct_of_isIdent h _⟩

theorem not_isBracket_of_isPunct {text : String} (h : t.isPunct text = true)
    (hb : ∀ b : Bracket, text ≠ b.opening ∧ text ≠ b.closing) : t.isBracket = false := by
  rw [isBracket_eq_false]
  intro b
  simp only [opens, closes, isPunct_of_isPunct h, beq_eq_false_iff_ne]
  exact hb b

end Token

/-! ## Nested runs -/

inductive Nested : (outside : Token → Bool) → List Token → Prop where
  | nil (outside : Token → Bool) : Nested outside []
  | token {outside : Token → Bool} {t : Token} {ts : List Token} (hb : t.isBracket = false)
      (ho : outside t = true) (h : Nested outside ts) : Nested outside (t :: ts)
  | group {outside : Token → Bool} {b : Bracket} {opening closing : Token} {inner rest : List Token}
      (ho : opening.opens b = true) (hc : closing.closes b = true)
      (hi : Nested (fun _ => true) inner) (h : Nested outside rest) :
      Nested outside (opening :: (inner ++ closing :: rest))

namespace Nested

variable {outside wider : Token → Bool} {run run' : List Token}

theorem append (h : Nested outside run) (h' : Nested outside run') : Nested outside (run ++ run') := by
  induction h with
  | nil => exact h'
  | token hb ho _ ih => exact .token hb ho (ih h')
  | group ho hc hi _ _ ih => simpa using Nested.group ho hc hi (ih h')

theorem mono (h : Nested outside run) (hw : ∀ t, outside t = true → wider t = true) :
    Nested wider run := by
  induction h with
  | nil => exact .nil wider
  | token hb ho _ ih => exact .token hb (hw _ ho) (ih hw)
  | group ho hc hi _ _ ih => exact .group ho hc hi (ih hw)

theorem any (h : Nested outside run) : Nested (fun _ => true) run := h.mono fun _ _ => rfl

theorem flatMap {α : Type} {xs : List α} {f : α → List Token} (h : ∀ x ∈ xs, Nested outside (f x)) :
    Nested outside (xs.flatMap f) := by
  induction xs with
  | nil => exact .nil outside
  | cons x xs ih =>
    obtain ⟨hx, hxs⟩ := List.forall_mem_cons.mp h
    rw [List.flatMap_cons]
    exact hx.append (ih hxs)

end Nested

/-! ## Searches that count brackets -/

/-- The run stands in front of what is enclosed. -/
def Enclosed.prepend (run : List Token) (e : Enclosed) : Enclosed := { e with inner := run ++ e.inner }

theorem Enclosed.find?_append_of_nested {outside : Token → Bool} {run : List Token}
    (h : Nested outside run) (b : Bracket) (depth : Nat) (rest : List Token) :
    find? (·.opens b) (·.closes b) depth (run ++ rest) =
      (find? (·.opens b) (·.closes b) depth rest).map (prepend run) := by
  induction h generalizing depth rest with
  | nil =>
    have hid : prepend [] = id := rfl
    simp [hid]
  | token hb _ _ ih =>
    obtain ⟨ho, hc⟩ := Token.isBracket_eq_false.mp hb b
    simp only [List.cons_append, find?, ho, hc, Bool.false_eq_true, ↓reduceIte, ih, Option.map_map]
    rfl
  | @group outside b' opening closing inner rest' ho hc hi _ ihi ih =>
    simp only [List.cons_append, List.append_assoc, find?, Token.opens_of_opens ho,
      Token.not_closes_of_opens ho, ihi, ih, Token.not_opens_of_closes hc, Token.closes_of_closes hc]
    -- Brackets of the kind looked for are counted up and down again, others are not seen.
    by_cases hb : b = b'
    · simp only [hb, decide_true, Bool.false_eq_true, ↓reduceIte, Option.map_map]
      congr 1
      funext e
      simp [prepend, cons]
    · simp only [hb, decide_false, Bool.false_eq_true, ↓reduceIte, Option.map_map]
      congr 1
      funext e
      simp [prepend, cons]

/-- A nested run in brackets is what its brackets enclose. -/
theorem Bracket.enclosed?_of_nested {outside : Token → Bool} {b : Bracket} {inner rest : List Token}
    {closing : Token} (h : Nested outside inner) (hc : closing.closes b = true) :
    b.enclosed? (inner ++ closing :: rest) = some ⟨inner, closing, rest⟩ := by
  rw [enclosed?, Enclosed.find?_append_of_nested h]
  simp [Enclosed.find?, Token.not_opens_of_closes hc, hc, Enclosed.prepend]

theorem Enclosed.find?_append_of_find? {enter leave : Token → Bool} {depth : Nat} {run : List Token}
    {e : Enclosed} (h : find? enter leave depth run = some e) (rest : List Token) :
    find? enter leave depth (run ++ rest) = some { e with rest := e.rest ++ rest } := by
  induction run generalizing depth e with
  | nil => cases h
  | cons t ts ih =>
    have step : ∀ {d : Nat}, (find? enter leave d ts).map (cons t) = some e →
        (find? enter leave d (ts ++ rest)).map (cons t) = some { e with rest := e.rest ++ rest } := by
      intro d hd
      obtain ⟨e', he', rfl⟩ := Option.map_eq_some_iff.mp hd
      rw [ih he']
      rfl
    rw [find?.eq_def] at h
    rw [List.cons_append, find?.eq_def]
    simp only at h ⊢
    split at h
    · rename_i he
      rw [if_pos he]
      exact step h
    · rename_i he
      rw [if_neg he]
      split at h
      · rename_i hl
        rw [if_pos hl]
        split at h
        · cases h
          rfl
        · exact step h
      · rename_i hl
        rw [if_neg hl]
        exact step h

/-- A nested run that is cut short closes no bracket that it does not open. -/
theorem Bracket.enclosed?_prefix_of_nested {outside : Token → Bool} {run part : List Token}
    (h : Nested outside run) (hp : part <+: run) (b : Bracket) : b.enclosed? part = none := by
  obtain ⟨rest, rfl⟩ := hp
  have hnone : b.enclosed? (part ++ rest) = none := by
    have hfind := Enclosed.find?_append_of_nested h b 0 []
    rw [List.append_nil] at hfind
    exact hfind
  cases he : b.enclosed? part with
  | none => rfl
  | some e =>
    rw [enclosed?, Enclosed.find?_append_of_find? he] at hnone
    cases hnone

/-- Inside brackets every nested run is passed over, outside only one without a semicolon. -/
theorem statementEnd?_append_of_nested {outside : Token → Bool} {run : List Token}
    (h : Nested outside run) {depth : Nat}
    (hs : depth = 0 → ∀ t, outside t = true → t.isPunct ";" = false) (rest : List Token) :
    statementEnd? depth (run ++ rest) = (statementEnd? depth rest).map (· + run.length) := by
  induction h generalizing depth rest with
  | nil => simp
  | @token outside t ts hb ho _ ih =>
    rw [Token.isBracket, Bool.or_eq_false_iff] at hb
    have hsemi : (t.isPunct ";" && depth == 0) = false := by
      by_cases hd : depth = 0
      · rw [hs hd t ho, Bool.false_and]
      · simp [hd]
    simp only [List.cons_append, statementEnd?, hb.1, hb.2, hsemi, Bool.false_eq_true, ↓reduceIte,
      ih hs, Option.map_map, List.length_cons]
    rfl
  | @group outside b opening closing inner rest' ho hc hi _ ihi ih =>
    have hi' := @ihi (depth + 1) (fun hd => absurd hd (Nat.succ_ne_zero depth))
      (closing :: (rest' ++ rest))
    simp only [List.cons_append, List.append_assoc, statementEnd?, Token.opener?_of_opens ho, ↓reduceIte,
      hi', Token.opener?_of_closes hc, Token.closer?_of_closes hc, Bool.false_eq_true, ih hs,
      Option.map_map]
    congr 1
    funext n
    simp only [Function.comp_apply, List.length_cons, List.length_append]
    omega

theorem statementEnd_of_nested {run rest : List Token} {t : Token}
    (h : Nested (! ·.isPunct ";") run) (ht : t.isPunct ";" = true) :
    statementEnd (run ++ t :: rest) = run.length := by
  have hb : t.opener?.isSome = false ∧ t.closer?.isSome = false := by
    rw [← Bool.or_eq_false_iff, ← Token.isBracket, Token.isBracket_eq_false]
    intro b
    rw [Token.opens, Token.closes, Token.isPunct_of_isPunct ht, Token.isPunct_of_isPunct ht]
    cases b <;> decide
  have hend : statementEnd? 0 (t :: rest) = some 0 := by simp [statementEnd?, hb, ht]
  rw [statementEnd, statementEnd?_append_of_nested h (by simp), hend]
  simp

/-- Inside parentheses no word counts. -/
theorem topWords_append_of_nested {outside : Token → Bool} {run : List Token} (h : Nested outside run)
    {depth : Int} (hd : 0 < depth) (rest : List Token) :
    topWords depth (run ++ rest) = topWords depth rest := by
  induction h generalizing depth rest with
  | nil => rfl
  | token hb _ _ ih =>
    obtain ⟨ho, hc⟩ := Token.isBracket_eq_false.mp hb .paren
    have hne : (depth == 0) = false := by simp; omega
    simp only [List.cons_append, topWords, ho, hc, hne, Bool.false_and, Bool.false_eq_true, ↓reduceIte,
      ih hd]
  | @group outside b opening closing inner rest' ho hc _ _ ihi ih =>
    have hident : opening.isIdent = false ∧ closing.isIdent = false :=
      ⟨Token.not_isIdent_of_isPunct ho, Token.not_isIdent_of_isPunct hc⟩
    simp only [List.cons_append, List.append_assoc, topWords, Token.opens_of_opens ho,
      Token.not_closes_of_opens ho, hident, Bool.and_false, Bool.false_eq_true, ↓reduceIte]
    by_cases hb : Bracket.paren = b
    · rw [if_pos (by simpa using hb), ihi (by omega)]
      simp only [topWords, Token.not_opens_of_closes hc, Token.closes_of_closes hc, hb, decide_true,
        Bool.false_eq_true, ↓reduceIte, Int.add_sub_cancel, ih hd]
    · rw [if_neg (by simpa using hb), ihi hd]
      simp only [topWords, Token.not_opens_of_closes hc, Token.closes_of_closes hc, hb, decide_false,
        hident, Bool.and_false, Bool.false_eq_true, ↓reduceIte, ih hd]

theorem exists_topWords_append (depth : Int) (run rest : List Token) :
    ∃ depth', topWords depth (run ++ rest) = topWords depth run ++ topWords depth' rest := by
  induction run generalizing depth with
  | nil => exact ⟨depth, rfl⟩
  | cons t ts ih =>
    simp only [List.cons_append, topWords]
    split
    · exact ih (depth + 1)
    · split
      · exact ih (depth - 1)
      · split
        · obtain ⟨depth', h⟩ := ih depth
          exact ⟨depth', by rw [h, List.cons_append]⟩
        · exact ih depth

theorem topWords_prefix_of_nested {outside : Token → Bool} {run part : List Token}
    (h : Nested outside run) (hp : part <+: run) {depth : Int} (hd : 0 < depth) :
    topWords depth part = [] := by
  obtain ⟨rest, rfl⟩ := hp
  have hnil := topWords_append_of_nested h hd []
  obtain ⟨depth', happ⟩ := exists_topWords_append depth part rest
  rw [List.append_nil, happ] at hnil
  exact (List.append_eq_nil_iff.mp hnil).1

/-! ## Deciding whether a run is nested -/

namespace Token

variable {t : Token} {b : Bracket}

theorem opener?_eq_some_iff : t.opener? = some b ↔ t.opens b = true := by
  constructor
  · exact fun h => List.find?_some (p := fun b => t.opens b) h
  · intro h
    obtain ⟨b', hb'⟩ := Option.isSome_iff_exists.mp (opener?_of_opens h)
    have hopens : t.opens b' = true := List.find?_some (p := fun b => t.opens b) hb'
    rw [opens_of_opens h, decide_eq_true_iff] at hopens
    rw [hb', hopens]

theorem closer?_eq_some_iff : t.closer? = some b ↔ t.closes b = true := by
  constructor
  · exact fun h => List.find?_some (p := fun b => t.closes b) h
  · intro h
    obtain ⟨b', hb'⟩ := Option.isSome_iff_exists.mp (closer?_of_closes h)
    have hcloses : t.closes b' = true := List.find?_some (p := fun b => t.closes b) hb'
    rw [closes_of_closes h, decide_eq_true_iff] at hcloses
    rw [hb', hcloses]

/-- The brackets of a run are properly nested when those in `opened`, innermost first, are open in front of it. -/
def areNested (opened : List Bracket) : List Token → Bool
  | [] => opened.isEmpty
  | t :: ts =>
    match t.opener?, t.closer? with
    | some b, _ => areNested (b :: opened) ts
    | none, some b => opened.head? == some b && areNested opened.tail ts
    | none, none => areNested opened ts

end Token

/-- The run closes the brackets in `opened`, innermost first, with a nested run in front of each. -/
def Nested.Closing : (opened : List Bracket) → List Token → Prop
  | [], ts => Nested (fun _ => true) ts
  | b :: outer, ts => ∃ inner closing rest, ts = inner ++ closing :: rest ∧ Nested (fun _ => true) inner ∧
      closing.closes b = true ∧ Closing outer rest

namespace Nested

theorem Closing.prepend {opened : List Bracket} {run ts : List Token} (hrun : Nested (fun _ => true) run)
    (h : Closing opened ts) : Closing opened (run ++ ts) := by
  cases opened with
  | nil => exact hrun.append h
  | cons b outer =>
    obtain ⟨inner, closing, rest, rfl, hinner, hc, hrest⟩ := h
    exact ⟨run ++ inner, closing, rest, by simp, hrun.append hinner, hc, hrest⟩

theorem closing_of_areNested {opened : List Bracket} {ts : List Token} (h : Token.areNested opened ts = true) :
    Closing opened ts := by
  induction ts generalizing opened with
  | nil =>
    rw [List.isEmpty_iff.mp h]
    exact .nil _
  | cons t ts ih =>
    rw [Token.areNested] at h
    cases ho : t.opener? with
    | some b =>
      rw [ho] at h
      obtain ⟨inner, closing, rest, rfl, hinner, hc, hrest⟩ := ih h
      have hgroup : Nested (fun _ => true) (t :: (inner ++ [closing])) :=
        .group (Token.opener?_eq_some_iff.mp ho) hc hinner (.nil _)
      simpa using hrest.prepend hgroup
    | none =>
      cases hc : t.closer? with
      | some b =>
        rw [ho, hc, Bool.and_eq_true, beq_iff_eq] at h
        cases opened with
        | nil => cases h.1
        | cons b' outer =>
          cases h.1
          exact ⟨[], t, ts, rfl, .nil _, Token.closer?_eq_some_iff.mp hc, ih h.2⟩
      | none =>
        rw [ho, hc] at h
        have hb : t.isBracket = false := by simp [Token.isBracket, ho, hc]
        have htoken : Nested (fun _ => true) [t] := .token hb rfl (.nil _)
        exact (ih h).prepend htoken

theorem areNested_append {outside : Token → Bool} {run : List Token} (h : Nested outside run) (opened : List Bracket)
    (rest : List Token) : Token.areNested opened (run ++ rest) = Token.areNested opened rest := by
  induction h generalizing opened rest with
  | nil => rfl
  | token hb _ _ ih =>
    rw [Token.isBracket, Bool.or_eq_false_iff, Option.isSome_eq_false_iff, Option.isSome_eq_false_iff,
      Option.isNone_iff_eq_none, Option.isNone_iff_eq_none] at hb
    rw [List.cons_append, Token.areNested, hb.1, hb.2]
    exact ih opened rest
  | @group outside b opening closing inner rest' ho hc _ _ ihi ih =>
    have hclosing : closing.opener? = none := by
      simpa [Option.isSome_eq_false_iff] using Token.opener?_of_closes hc
    rw [List.cons_append, Token.areNested, Token.opener?_eq_some_iff.mpr ho, List.append_assoc]
    simp only [ihi, List.cons_append, Token.areNested, hclosing, Token.closer?_eq_some_iff.mpr hc, List.head?_cons,
      List.tail_cons, ih, beq_self_eq_true, Bool.true_and]

theorem areNested_iff {ts : List Token} : Token.areNested [] ts = true ↔ Nested (fun _ => true) ts := by
  refine ⟨closing_of_areNested, fun h => ?_⟩
  have happend := h.areNested_append [] []
  rw [List.append_nil] at happend
  rw [happend]
  rfl

instance (ts : List Token) : Decidable (Nested (fun _ => true) ts) := decidable_of_iff _ areNested_iff

end Nested

end ContractAudit
