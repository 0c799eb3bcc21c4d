import ContractAudit.Proofs.Position
import ContractAudit.Proofs.Token.Splitting

/-!
# Brackets by position

The search for the bracket that closes or opens another, and the parts of a run between separators, with a
depth that is counted along the way.
-/

namespace ContractAudit.Position

open Attempt

/-! ## Searches to the right -/

def closingTurn (b : Bracket) (ts : List Token) : Int × Int → Attempt (Turn (Int × Int) Int)
  | (i, depth) =>
    if i < ts.length then do
      let t ← elementAt ts i
      if t.opens b then return .again (i + 1, depth + 1)
      else if t.closes b then
        if depth - 1 = 0 then return .done i else return .again (i + 1, depth - 1)
      else return .again (i + 1, depth)
    else return .done (-1)

/-- Where the bracket at position `i` closes. -/
def closing (ts : List Token) (i : Int) : Attempt Int := do
  let t ← elementAt ts i
  match Bracket.all.find? (·.opening == t.text) with
  | none => return -1
  | some b => loop (fun s => ahead ts s.1) (closingTurn b ts) (i, 0)

theorem find?_opening {t : Token} {b : Bracket} (h : t.opens b = true) :
    Bracket.all.find? (·.opening == t.text) = some b := by
  rw [(Token.isPunct_iff.mp h).2]
  cases b <;> decide

theorem find?_closing {t : Token} {b : Bracket} (h : t.closes b = true) :
    Bracket.all.find? (·.closing == t.text) = some b := by
  rw [(Token.isPunct_iff.mp h).2]
  cases b <;> decide

/-- What a search to the right takes, and what it leaves. -/
def cut (e : Enclosed) : List Token × List Token := (e.inner, e.close :: e.rest)

theorem map_cut_cons (t : Token) (o : Option Enclosed) :
    (o.map (Enclosed.cons t)).map cut = (o.map cut).map fun p => ([t] ++ p.1, p.2) := by
  cases o <;> rfl

variable {b : Bracket} {ts before after : List Token} {t : Token} {i : Int}

theorem ahead_next (h : Stands ts i before (t :: after)) : ahead ts (i + 1) < ahead ts i :=
  h.ahead_lt h.next (Nat.lt_succ_self _)

/-- At depth `d + 1` the search takes what the search that starts inside `d + 1` brackets takes. -/
theorem loop_closing_finds {d : Nat} (h : Stands ts i before after) :
    Finds ts before (loop (fun s => ahead ts s.1) (closingTurn b ts) (i, (d : Int) + 1))
      ((Enclosed.find? (·.opens b) (·.closes b) d after).map cut) := by
  refine loop_spec
    (fun (k : Nat × List Token × List Token) s => Stands ts s.1 k.2.1 k.2.2 ∧ s.2 = (k.1 : Int) + 1)
    (fun k r => Finds ts k.2.1 r ((Enclosed.find? (·.opens b) (·.closes b) k.1 k.2.2).map cut))
    ?_ (d, before, after) ⟨h, rfl⟩
  rintro ⟨d, before, after⟩ ⟨i, depth⟩ ⟨h, hd⟩
  simp only at h hd
  subst hd
  cases after with
  | nil => exact .done (-1) (by simp [closingTurn, h.not_lt]) rfl
  | cons t after =>
    -- A token that is passed over stands in front of what is taken from the next token on.
    have hpass : ∀ d', Enclosed.find? (·.opens b) (·.closes b) d (t :: after) =
          (Enclosed.find? (·.opens b) (·.closes b) d' after).map (Enclosed.cons t) →
        ∀ r, Finds ts (t :: before) r
            ((Enclosed.find? (·.opens b) (·.closes b) d' after).map cut) →
          Finds ts before r ((Enclosed.find? (·.opens b) (·.closes b) d (t :: after)).map cut) := by
      intro d' hd' r hr
      rw [hd', map_cut_cons]
      exact (finds_map [t]).mpr hr
    cases ho : t.opens b with
    | true =>
      refine .again (i + 1, (d : Int) + 1 + 1) (d + 1, t :: before, after) ?_ (ahead_next h)
        ⟨h.next, by simp⟩ (hpass (d + 1) ?_)
      · simp [closingTurn, h.lt, h.elementAt_eq, ho]
      · simp [Enclosed.find?, ho]
    | false =>
      cases hc : t.closes b with
      | false =>
        refine .again (i + 1, (d : Int) + 1) (d, t :: before, after) ?_ (ahead_next h)
          ⟨h.next, rfl⟩ (hpass d ?_)
        · simp [closingTurn, h.lt, h.elementAt_eq, ho, hc]
        · simp [Enclosed.find?, ho, hc]
      | true =>
        cases d with
        | zero =>
          refine .done i ?_ ?_
          · simp [closingTurn, h.lt, h.elementAt_eq, ho, hc]
          · simp only [Enclosed.find?, ho, hc, Bool.false_eq_true, ↓reduceIte]
            exact ⟨i, rfl, h⟩
        | succ d =>
          have hdepth : ¬ ((d : Int) + 1 = 0) := by omega
          refine .again (i + 1, (d : Int) + 1) (d, t :: before, after) ?_ (ahead_next h)
            ⟨h.next, rfl⟩ (hpass d ?_)
          · simp [closingTurn, h.lt, h.elementAt_eq, ho, hc, hdepth]
          · simp [Enclosed.find?, ho, hc]

theorem closing_finds (h : Stands ts i before (t :: after)) (ho : t.opens b = true) :
    Finds ts (t :: before) (closing ts i) ((b.enclosed? after).map cut) := by
  have hfirst : closing ts i =
      loop (fun s => ahead ts s.1) (closingTurn b ts) (i + 1, ((0 : Nat) : Int) + 1) := by
    rw [closing, h.elementAt_eq]
    simp only [ok_bind, find?_opening ho]
    rw [loop]
    simp [closingTurn, h.lt, h.elementAt_eq, ho, ahead_next h]
  rw [hfirst]
  exact loop_closing_finds h.next

theorem closing_of_none (h : Stands ts i before (t :: after)) (ho : t.opens b = true)
    (he : b.enclosed? after = none) : closing ts i = .ok (-1) := by
  simpa [he, Finds] using closing_finds h ho

theorem closing_of_some {e : Enclosed} (h : Stands ts i before (t :: after)) (ho : t.opens b = true)
    (he : b.enclosed? after = some e) :
    ∃ j, closing ts i = .ok j ∧ Stands ts j (e.inner.reverse ++ t :: before) (e.close :: e.rest) := by
  simpa [he, Finds, cut] using closing_finds h ho

/-- The position behind a bracket is further than where it opens. -/
theorem ahead_close {e : Enclosed} {j : Int} {before' : List Token} (h : Stands ts i before (t :: after))
    (he : b.enclosed? after = some e) (hj : Stands ts j before' (e.close :: e.rest)) :
    ahead ts (j + 1) < ahead ts i := by
  have hlength := Bracket.enclosed?_length he
  refine h.ahead_lt hj.next ?_
  rw [List.length_cons]
  omega

/-! ## Searches to the left -/

def openingTurn (b : Bracket) (ts : List Token) : Int × Int → Attempt (Turn (Int × Int) Int)
  | (i, depth) =>
    if 0 ≤ i then do
      let t ← elementAt ts i
      if t.closes b then return .again (i - 1, depth + 1)
      else if t.opens b then
        if depth - 1 = 0 then return .done i else return .again (i - 1, depth - 1)
      else return .again (i - 1, depth)
    else return .done (-1)

/-- Where the bracket at position `i` opens. -/
def opening (ts : List Token) (i : Int) : Attempt Int := do
  let t ← elementAt ts i
  match Bracket.all.find? (·.closing == t.text) with
  | none => return -1
  | some b => loop (fun s => (s.1 + 1).toNat) (openingTurn b ts) (i, 0)

/-- The position that a search to the left gives: that of the bracket it finds. -/
def FindsBack (ts after : List Token) (r : Attempt Int) : Option Enclosed → Prop
  | none => r = .ok (-1)
  | some e => ∃ j, r = .ok j ∧ Stands ts j e.rest (e.close :: (e.inner.reverse ++ after))

theorem findsBack_cons {r : Attempt Int} {o : Option Enclosed} :
    FindsBack ts after r (o.map (Enclosed.cons t)) ↔ FindsBack ts (t :: after) r o := by
  cases o with
  | none => rfl
  | some e => simp [FindsBack, Enclosed.cons]

/-- As to the right, with the tokens before the position from right to left. -/
theorem loop_opening_finds {d : Nat} (h : Stands ts (i + 1) before after) :
    FindsBack ts after (loop (fun s => (s.1 + 1).toNat) (openingTurn b ts) (i, (d : Int) + 1))
      (Enclosed.find? (·.closes b) (·.opens b) d before) := by
  refine loop_spec
    (fun (k : Nat × List Token × List Token) s =>
      Stands ts (s.1 + 1) k.2.1 k.2.2 ∧ s.2 = (k.1 : Int) + 1)
    (fun k r => FindsBack ts k.2.2 r (Enclosed.find? (·.closes b) (·.opens b) k.1 k.2.1))
    ?_ (d, before, after) ⟨h, rfl⟩
  rintro ⟨d, before, after⟩ ⟨i, depth⟩ ⟨h, hd⟩
  simp only at h hd
  subst hd
  cases before with
  | nil =>
    have hi : ¬ 0 ≤ i := by
      have := h.position
      simp at this
      omega
    exact .done (-1) (by simp [openingTurn, hi]) rfl
  | cons t before =>
    have hback : Stands ts i before (t :: after) := by simpa using h.back
    have hi := hback.nonneg
    have hnext : Stands ts (i - 1 + 1) before (t :: after) := by simpa using hback
    have hsize : (i - 1 + 1).toNat < (i + 1).toNat := by omega
    have hpass : ∀ d', Enclosed.find? (·.closes b) (·.opens b) d (t :: before) =
          (Enclosed.find? (·.closes b) (·.opens b) d' before).map (Enclosed.cons t) →
        ∀ r, FindsBack ts (t :: after) r (Enclosed.find? (·.closes b) (·.opens b) d' before) →
          FindsBack ts after r (Enclosed.find? (·.closes b) (·.opens b) d (t :: before)) := by
      intro d' hd' r hr
      rw [hd']
      exact findsBack_cons.mpr hr
    cases hc : t.closes b with
    | true =>
      refine .again (i - 1, (d : Int) + 1 + 1) (d + 1, before, t :: after) ?_ hsize
        ⟨hnext, by simp⟩ (hpass (d + 1) ?_)
      · simp [openingTurn, hi, hback.elementAt_eq, hc]
      · simp [Enclosed.find?, hc]
    | false =>
      cases ho : t.opens b with
      | false =>
        refine .again (i - 1, (d : Int) + 1) (d, before, t :: after) ?_ hsize ⟨hnext, rfl⟩ (hpass d ?_)
        · simp [openingTurn, hi, hback.elementAt_eq, ho, hc]
        · simp [Enclosed.find?, ho, hc]
      | true =>
        cases d with
        | zero =>
          refine .done i ?_ ?_
          · simp [openingTurn, hi, hback.elementAt_eq, ho, hc]
          · simp only [Enclosed.find?, ho, hc, Bool.false_eq_true, ↓reduceIte]
            exact ⟨i, rfl, hback⟩
        | succ d =>
          have hdepth : ¬ ((d : Int) + 1 = 0) := by omega
          refine .again (i - 1, (d : Int) + 1) (d, before, t :: after) ?_ hsize ⟨hnext, rfl⟩ (hpass d ?_)
          · simp [openingTurn, hi, hback.elementAt_eq, ho, hc, hdepth]
          · simp [Enclosed.find?, ho, hc]

theorem opening_finds (h : Stands ts i before (t :: after)) (hc : t.closes b = true) :
    FindsBack ts (t :: after) (opening ts i) (b.enclosedBack? before) := by
  have hi := h.nonneg
  have hsize : i.toNat < (i + 1).toNat := by omega
  have hfirst : opening ts i =
      loop (fun s => (s.1 + 1).toNat) (openingTurn b ts) (i - 1, ((0 : Nat) : Int) + 1) := by
    rw [opening, h.elementAt_eq]
    simp only [ok_bind, find?_closing hc]
    rw [loop]
    simp [openingTurn, hi, h.elementAt_eq, hc, hsize]
  rw [hfirst]
  exact loop_opening_finds (by simpa using h)

/-! ## Parts between separators -/

/-- One more token for the parts so far: a new part after a separator, else the last part grows. -/
def splitStep (separator : String) : List (List Token) × Int → Token → Attempt (List (List Token) × Int)
  | (parts, depth), t =>
    if t.isPunct separator && ! t.isBracket && depth == 0 then return (parts ++ [[]], depth)
    else do
      let part ← last parts
      return (parts.dropLast ++ [part ++ [t]], depth + t.nesting)

def split (separator : String) (ts : List Token) : Attempt (List (List Token)) := do
  let (parts, _) ← ts.foldlM (splitStep separator) ([[]], 0)
  return parts.filter (! ·.isEmpty)

/-- A run put in front of the first part. -/
def extendFirst (run : List Token) : List (List Token) → List (List Token)
  | [] => [run]
  | part :: parts => (run ++ part) :: parts

theorem extendFirst_consFirst (run : List Token) (t : Token) (parts : List (List Token)) :
    extendFirst run (Token.consFirst t parts) = extendFirst (run ++ [t]) parts := by
  cases parts <;> simp [extendFirst, Token.consFirst]

theorem extendFirst_nil {parts : List (List Token)} (h : parts ≠ []) : extendFirst [] parts = parts := by
  cases parts with
  | nil => exact absurd rfl h
  | cons part parts => rfl

/-- The part that is not complete yet goes in front of the first part of the rest. -/
theorem foldlM_splitStep (separator : String) (ts : List Token) (parts : List (List Token))
    (part : List Token) (depth : Int) :
    ∃ depth', ts.foldlM (splitStep separator) (parts ++ [part], depth) =
      .ok (parts ++ extendFirst part (Token.partsFrom separator depth ts), depth') := by
  induction ts generalizing parts part depth with
  | nil => exact ⟨depth, by simp [Token.partsFrom, extendFirst]⟩
  | cons t ts ih =>
    rw [List.foldlM_cons, splitStep, Token.partsFrom]
    split
    · obtain ⟨depth', h⟩ := ih (parts ++ [part]) [] depth
      refine ⟨depth', ?_⟩
      rw [pure_eq, ok_bind, h, extendFirst_nil (Token.partsFrom_ne_nil separator depth ts)]
      simp [extendFirst]
    · obtain ⟨depth', h⟩ := ih parts (part ++ [t]) (depth + t.nesting)
      refine ⟨depth', ?_⟩
      rw [extendFirst_consFirst]
      simpa [last] using h

theorem split_eq (separator : String) (ts : List Token) :
    split separator ts = .ok (Token.split separator ts) := by
  obtain ⟨depth, h⟩ := foldlM_splitStep separator ts [] [] 0
  rw [List.nil_append, List.nil_append, extendFirst_nil (Token.partsFrom_ne_nil separator 0 ts)] at h
  rw [split, h]
  rfl

end ContractAudit.Position
