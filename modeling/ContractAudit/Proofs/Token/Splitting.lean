import ContractAudit.Proofs.Token.Nested
import ContractAudit.Token.Lexer

/-!
# Parts between separators

A run is cut at the separators that have as many opening as closing brackets in front of them. One count serves all
kinds of brackets, and on a run that is not nested it can fall below zero. `Focus.isCut` says where a cut is without
the running count. A part starts at level zero, as the run does, so that a token has the same level in its part as in
the run: no part has a cut of its own. In a nested run no cut is inside a group, so every part is nested too.
-/

namespace ContractAudit

/-- A separator with as many opening as closing brackets in front of it, all kinds taken together. -/
def Focus.isCut (separator : String) (f : Focus) : Bool :=
  f.token.isPunct separator &&
    f.before.countP (·.opener?.isSome) == f.before.countP (·.closer?.isSome)

namespace Token

variable {separator : String} {t : Token} {before ts : List Token} {depth : Int} {b : Bracket}

/-! ## Levels -/

/-- How many brackets the run opens beyond those it closes, all kinds taken together. -/
def level (run : List Token) : Int := run.countP (·.opener?.isSome) - run.countP (·.closer?.isSome)

theorem closer?_of_opens (h : t.opens b = true) : t.closer?.isSome = false := by
  rw [Bool.eq_false_iff]
  intro hc
  obtain ⟨b', hc⟩ := isSome_closer?_iff.mp hc
  rw [not_closes_of_opens h] at hc
  cases hc

theorem nesting_of_opens (h : t.opens b = true) : t.nesting = 1 := by
  simp [nesting, opener?_of_opens h]

theorem nesting_of_closes (h : t.closes b = true) : t.nesting = -1 := by
  simp [nesting, opener?_of_closes h, closer?_of_closes h]

theorem nesting_of_not_isBracket (h : t.isBracket = false) : t.nesting = 0 := by
  rw [isBracket, Bool.or_eq_false_iff] at h
  simp [nesting, h]

theorem level_cons (t : Token) (run : List Token) : level (t :: run) = level run + t.nesting := by
  simp only [level, List.countP_cons]
  cases ho : t.opener?.isSome with
  | true =>
    obtain ⟨b, hb⟩ := isSome_opener?_iff.mp ho
    simp only [nesting_of_opens hb, closer?_of_opens hb]
    simp
    omega
  | false =>
    cases hc : t.closer?.isSome with
    | true =>
      obtain ⟨b, hb⟩ := isSome_closer?_iff.mp hc
      simp only [nesting_of_closes hb]
      simp
      omega
    | false => simp [nesting, ho, hc]

/-! ## One token at a time -/

theorem partsFrom_ne_nil (separator : String) (depth : Int) (ts : List Token) : partsFrom separator depth ts ≠ [] := by
  cases ts with
  | nil => simp [partsFrom]
  | cons t ts =>
    rw [partsFrom]
    split
    · exact List.cons_ne_nil _ _
    · cases partsFrom separator (depth + t.nesting) ts <;> exact List.cons_ne_nil _ _

theorem consFirst_partsFrom (t : Token) :
    consFirst t (partsFrom separator depth ts) = (partsFrom separator depth ts).modifyHead (t :: ·) := by
  cases h : partsFrom separator depth ts with
  | nil => exact absurd h (partsFrom_ne_nil separator depth ts)
  | cons part parts => rfl

theorem forall_mem_modifyHead {P : List Token → Prop} {f : List Token → List Token} {parts : List (List Token)}
    (h : ∀ part ∈ parts, P part) (hf : ∀ part, P part → P (f part)) : ∀ part ∈ parts.modifyHead f, P part := by
  cases parts with
  | nil => exact h
  | cons part parts =>
    obtain ⟨hpart, hparts⟩ := List.forall_mem_cons.mp h
    exact List.forall_mem_cons.mpr ⟨hf part hpart, hparts⟩

theorem subset_of_mem_partsFrom : ∀ part ∈ partsFrom separator depth ts, part ⊆ ts := by
  induction ts generalizing depth with
  | nil => exact List.forall_mem_singleton.mpr (List.Subset.refl [])
  | cons t ts ih =>
    rw [partsFrom]
    split
    · exact List.forall_mem_cons.mpr ⟨List.nil_subset _, fun part hp => List.subset_cons_of_subset t (ih part hp)⟩
    · rw [consFirst_partsFrom]
      exact forall_mem_modifyHead (fun part hp => List.subset_cons_of_subset t (ih part hp))
        fun part hp => List.cons_subset.mpr ⟨List.mem_cons_self, hp⟩

/-- Inside brackets no token is a cut. -/
theorem partsFrom_cons_of_ne_zero (hd : depth ≠ 0) :
    partsFrom separator depth (t :: ts) = (partsFrom separator (depth + t.nesting) ts).modifyHead (t :: ·) := by
  rw [partsFrom, if_neg (by simp [hd]), consFirst_partsFrom]

theorem partsFrom_cons_of_not_isPunct (h : t.isPunct separator = false) :
    partsFrom separator depth (t :: ts) = (partsFrom separator (depth + t.nesting) ts).modifyHead (t :: ·) := by
  rw [partsFrom, if_neg (by simp [h]), consFirst_partsFrom]

theorem partsFrom_cons_of_not_isCut {after : List Token} (h : Focus.isCut separator ⟨before, t, after⟩ = false) :
    partsFrom separator (level before) (t :: ts) =
      (partsFrom separator (level (t :: before)) ts).modifyHead (t :: ·) := by
  rw [level_cons]
  cases ht : t.isPunct separator with
  | false => exact partsFrom_cons_of_not_isPunct ht
  | true =>
    simp only [Focus.isCut, ht, Bool.true_and, beq_eq_false_iff_ne] at h
    refine partsFrom_cons_of_ne_zero ?_
    rw [level]
    omega

section
variable (hs : ∀ b : Bracket, separator ≠ b.opening ∧ separator ≠ b.closing)
include hs

/-- Behind a cut the run starts anew, at level zero. -/
theorem partsFrom_cons_of_isCut {after : List Token} (h : Focus.isCut separator ⟨before, t, after⟩ = true) :
    partsFrom separator (level before) (t :: ts) = [] :: partsFrom separator 0 ts ∧ level (t :: before) = 0 := by
  simp only [Focus.isCut, Bool.and_eq_true, beq_iff_eq] at h
  obtain ⟨ht, hcount⟩ := h
  have hb := not_isBracket_of_isPunct ht hs
  have hlevel : level before = 0 := by rw [level, hcount, Int.sub_self]
  constructor
  · rw [hlevel, partsFrom, if_pos (by simp [ht, hb])]
  · rw [level_cons, hlevel, nesting_of_not_isBracket hb, Int.add_zero]

/-! ## Cuts -/

theorem partsFrom_eq_splitOnP (before ts : List Token) :
    partsFrom separator (level before) ts =
      ((Focus.focusesFrom before ts).splitOnP (·.isCut separator)).map (List.map Focus.token) := by
  induction ts generalizing before with
  | nil => rfl
  | cons t ts ih =>
    rw [Focus.focusesFrom, List.splitOnP_cons_eq_if_modifyHead]
    cases hcut : Focus.isCut separator ⟨before, t, ts⟩ with
    | true =>
      obtain ⟨hparts, hlevel⟩ := partsFrom_cons_of_isCut hs hcut
      rw [hparts, if_pos rfl, List.map_cons, ← ih (t :: before), hlevel]
      rfl
    | false =>
      rw [partsFrom_cons_of_not_isCut hcut, ih, if_neg Bool.false_ne_true]
      cases (Focus.focusesFrom (t :: before) ts).splitOnP (·.isCut separator) <;> rfl

/-- The first part goes on at the level at which the run starts, every other part starts at level zero. -/
theorem not_isCut_of_partsFrom {first : List Token} {parts : List (List Token)}
    (h : partsFrom separator (level before) ts = first :: parts) :
    (∀ f ∈ Focus.focusesFrom before first, f.isCut separator = false) ∧
      ∀ part ∈ parts, ∀ f ∈ Focus.all part, f.isCut separator = false := by
  induction ts generalizing before first parts with
  | nil =>
    cases h
    exact ⟨fun _ hf => absurd hf List.not_mem_nil, fun _ hpart => absurd hpart List.not_mem_nil⟩
  | cons t ts ih =>
    cases hcut : Focus.isCut separator ⟨before, t, ts⟩ with
    | true =>
      -- The rest is as a run of its own: what stands in front of the cut counts no more.
      rw [(partsFrom_cons_of_isCut hs hcut).1] at h
      obtain ⟨rfl, hparts⟩ := List.cons.inj h
      refine ⟨fun _ hf => absurd hf List.not_mem_nil, ?_⟩
      cases parts with
      | nil => exact fun _ hpart => absurd hpart List.not_mem_nil
      | cons second parts => exact List.forall_mem_cons.mpr (@ih [] second parts hparts)
    | false =>
      rw [partsFrom_cons_of_not_isCut hcut] at h
      cases hp : partsFrom separator (level (t :: before)) ts with
      | nil => exact absurd hp (partsFrom_ne_nil _ _ _)
      | cons part others =>
        rw [hp] at h
        cases h
        obtain ⟨hfirst, hothers⟩ := ih hp
        exact ⟨List.forall_mem_cons.mpr ⟨hcut, hfirst⟩, hothers⟩

theorem not_isCut_of_mem_partsFrom {part : List Token} (h : part ∈ partsFrom separator 0 ts) :
    ∀ f ∈ Focus.all part, f.isCut separator = false := by
  cases hp : partsFrom separator 0 ts with
  | nil => exact absurd hp (partsFrom_ne_nil _ _ _)
  | cons first parts =>
    obtain ⟨hfirst, hparts⟩ := @not_isCut_of_partsFrom separator [] ts hs first parts hp
    rw [hp] at h
    rcases List.mem_cons.mp h with rfl | h
    · exact hfirst
    · exact hparts part h

end

theorem flatten_splitOnP {α : Type} (p : α → Bool) (xs : List α) : (xs.splitOnP p).flatten = xs.filter (! p ·) := by
  induction xs with
  | nil => rfl
  | cons x xs ih =>
    rw [List.splitOnP_cons_eq_if_modifyHead]
    cases hx : p x with
    | true => simp [hx, ih]
    | false =>
      cases hp : xs.splitOnP p with
      | nil => exact absurd hp (List.splitOnP_ne_nil p xs)
      | cons part parts =>
        rw [hp] at ih
        simp [hx, ← ih]

/-! ## Nested runs -/

/-- Inside brackets a nested run is passed over as a whole. -/
theorem partsFrom_append_of_nested {outside : Token → Bool} {run : List Token} (h : Nested outside run)
    (hd : 0 < depth) (rest : List Token) :
    partsFrom separator depth (run ++ rest) = (partsFrom separator depth rest).modifyHead (run ++ ·) := by
  induction h generalizing depth rest with
  | nil => exact (congrFun List.modifyHead_id (partsFrom separator depth rest)).symm
  | token hb _ _ ih =>
    rw [List.cons_append, partsFrom_cons_of_ne_zero (by omega), nesting_of_not_isBracket hb, Int.add_zero, ih hd,
      List.modifyHead_modifyHead]
    rfl
  | @group _ b opening closing inner rest' ho hc _ _ ihi ih =>
    rw [List.cons_append, partsFrom_cons_of_ne_zero (by omega), nesting_of_opens ho, List.append_assoc,
      ihi (by omega), List.cons_append, partsFrom_cons_of_ne_zero (by omega), nesting_of_closes hc,
      Int.add_neg_cancel_right, ih hd]
    simp only [List.modifyHead_modifyHead]
    congr 1
    funext part
    simp

/-- A group is passed over as a whole. -/
theorem partsFrom_group {opening closing : Token} {inner : List Token} (ho : opening.opens b = true)
    (hc : closing.closes b = true) (hi : Nested (fun _ => true) inner)
    (hs : ∀ b : Bracket, separator ≠ b.opening ∧ separator ≠ b.closing) (rest : List Token) :
    partsFrom separator 0 (opening :: (inner ++ closing :: rest)) =
      (partsFrom separator 0 rest).modifyHead (fun part => opening :: (inner ++ closing :: part)) := by
  have hnot : opening.isPunct separator = false := by
    rw [isPunct_of_isPunct ho, beq_eq_false_iff_ne]
    exact (hs b).1.symm
  -- The opening bracket lifts the count off zero, which the inner run does not bring back.
  rw [partsFrom_cons_of_not_isPunct hnot, nesting_of_opens ho, partsFrom_append_of_nested hi (by omega),
    partsFrom_cons_of_ne_zero (by omega), nesting_of_closes hc]
  simp only [List.modifyHead_modifyHead]
  rfl

theorem nested_of_mem_partsFrom (hs : ∀ b : Bracket, separator ≠ b.opening ∧ separator ≠ b.closing)
    {outside : Token → Bool} (h : Nested outside ts) :
    ∀ part ∈ partsFrom separator 0 ts, Nested (! ·.isPunct separator) part := by
  induction h with
  | nil => exact List.forall_mem_singleton.mpr (.nil _)
  | @token _ t ts hb _ _ ih =>
    cases ht : t.isPunct separator with
    | true =>
      rw [partsFrom, if_pos (by simp [ht, hb])]
      exact List.forall_mem_cons.mpr ⟨.nil _, ih⟩
    | false =>
      rw [partsFrom_cons_of_not_isPunct ht, nesting_of_not_isBracket hb, Int.add_zero]
      exact forall_mem_modifyHead ih fun part hp => .token hb (by simp [ht]) hp
  | group ho hc hi _ _ ih =>
    rw [partsFrom_group ho hc hi hs]
    exact forall_mem_modifyHead ih fun part hp => .group ho hc hi hp

/-- A run is split at its cuts: the parts are what stands between two cuts, as far as that is not empty. Together they
are the run without its cuts, and no part has a cut of its own. The parts of a nested run are nested, with no separator
outside brackets. -/
theorem split_exact {separator : String} (hs : ∀ b : Bracket, separator ≠ b.opening ∧ separator ≠ b.closing)
    (ts : List Token) :
    split separator ts =
      (((Focus.all ts).splitOnP (·.isCut separator)).map (List.map Focus.token)).filter (! ·.isEmpty) ∧
    (split separator ts).flatten = ((Focus.all ts).filter (! ·.isCut separator)).map Focus.token ∧
    (∀ part ∈ split separator ts, part ≠ [] ∧ ∀ f ∈ Focus.all part, f.isCut separator = false) ∧
    (Nested (fun _ => true) ts → ∀ part ∈ split separator ts, Nested (! ·.isPunct separator) part) := by
  have hparts : partsFrom separator 0 ts =
      ((Focus.all ts).splitOnP (·.isCut separator)).map (List.map Focus.token) := partsFrom_eq_splitOnP hs [] ts
  refine ⟨by rw [split, hparts], ?_, fun part hpart => ?_, fun hn part hpart => ?_⟩
  · rw [split, List.flatten_filter_not_isEmpty, hparts, ← List.map_flatten, flatten_splitOnP]
  · obtain ⟨hmem, hne⟩ := List.mem_filter.mp hpart
    exact ⟨by simpa using hne, not_isCut_of_mem_partsFrom hs hmem⟩
  · exact nested_of_mem_partsFrom hs hn part (List.mem_filter.mp hpart).1

/-- An empty part, separators in brackets of each kind and a separator at the end. -/
def listText : String := "a, f(b, c), , d[1, \x7b2, 3\x7d],"

theorem split_exact_listText :
    let ts := tokenize listText
    Nested (fun _ => true) ts ∧ (split "," ts).map (·.length) = [1, 6, 10] ∧
      (split "," ts).flatten = ((Focus.all ts).filter (! ·.isCut ",")).map Focus.token ∧
      ∀ part ∈ split "," ts, part ≠ [] ∧ Nested (! ·.isPunct ",") part := by
  intro ts
  have hs : ∀ b : Bracket, "," ≠ b.opening ∧ "," ≠ b.closing := fun b => by cases b <;> decide
  obtain ⟨hn, hlengths⟩ : Nested (fun _ => true) ts ∧ (split "," ts).map (·.length) = [1, 6, 10] := by decide +kernel
  obtain ⟨-, hflatten, hparts, hnested⟩ := split_exact hs ts
  exact ⟨hn, hlengths, hflatten, fun part hpart => ⟨(hparts part hpart).1, hnested hn part hpart⟩⟩

/-- Behind a closing bracket too many the first separator is no cut, the second one is. -/
example : (split "," (tokenize ") a, (b, c")).map (·.map (·.text)) = [[")", "a", ",", "(", "b"], ["c"]] := by
  decide +kernel

end Token

end ContractAudit
