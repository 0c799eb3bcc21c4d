import ContractAudit.Contract.Extract
import ContractAudit.Proofs.Contract.Reading
import ContractAudit.Proofs.Position

/-!
# Type texts by position

Where a type is looked at as text, its first word is taken, and there must be one. A type that is written in
a source starts with an identifier, and an identifier has a character that is no blank.
-/

namespace ContractAudit

/-! ## Words -/

namespace Text

/-- The words of a text. -/
def words (cs : List Char) : List (List Char) :=
  match _h : trimStart cs with
  | [] => []
  | c :: rest => (c :: rest.takeWhile (! isBlank ·)) :: words (rest.dropWhile (! isBlank ·))
termination_by cs.length
decreasing_by
  have h1 := (List.dropWhile_sublist (l := rest) (! isBlank ·)).length_le
  have h2 := (List.dropWhile_sublist (l := cs) isBlank).length_le
  simp only [trimStart] at _h
  rw [_h, List.length_cons] at h2
  omega

theorem isBlank_of_trimStart {cs rest : List Char} {c : Char} (h : trimStart cs = c :: rest) :
    isBlank c = false := by
  have hne : cs.dropWhile isBlank ≠ [] := by
    rw [show cs.dropWhile isBlank = c :: rest from h]
    exact List.cons_ne_nil _ _
  have hhead := List.head_dropWhile_not isBlank hne
  simpa [show cs.dropWhile isBlank = c :: rest from h] using hhead

theorem firstWord_eq_nil_iff {cs : List Char} : firstWord cs = [] ↔ trimStart cs = [] := by
  unfold firstWord
  cases h : trimStart cs with
  | nil => simp
  | cons c rest => simp [isBlank_of_trimStart h]

theorem first_words {cs : List Char} (h : firstWord cs ≠ []) :
    Position.first (words cs) = .ok (firstWord cs) := by
  unfold firstWord at h ⊢
  rw [words]
  cases ht : trimStart cs with
  | nil => simp [ht] at h
  | cons c rest => simp [Position.first, Position.Attempt.known, isBlank_of_trimStart ht]

theorem firstWord_ne_nil_iff {cs : List Char} : firstWord cs ≠ [] ↔ ∃ c ∈ cs, isBlank c = false := by
  rw [Ne, firstWord_eq_nil_iff, trimStart, List.dropWhile_eq_nil_iff]
  simp

/-- What is cut off at the end of a text is blank. -/
theorem exists_trimEnd_append (cs : List Char) :
    ∃ blanks, trimEnd cs ++ blanks = cs ∧ ∀ c ∈ blanks, isBlank c = true := by
  refine ⟨(cs.reverse.takeWhile isBlank).reverse, ?_, fun c hc => ?_⟩
  · rw [trimEnd, ← List.reverse_append, List.takeWhile_append_dropWhile, List.reverse_reverse]
  · exact List.mem_takeWhile_imp (List.mem_reverse.mp hc)

theorem takeWhile_append_blanks {cs blanks : List Char} (h : ∀ c ∈ blanks, isBlank c = true) :
    (cs ++ blanks).takeWhile (! isBlank ·) = cs.takeWhile (! isBlank ·) := by
  have hnone : blanks.takeWhile (! isBlank ·) = [] := by
    cases blanks with
    | nil => rfl
    | cons c blanks => simp [h c List.mem_cons_self]
  rw [List.takeWhile_append, hnone, List.append_nil]
  split
  · rename_i hall
    exact (List.IsPrefix.eq_of_length (List.takeWhile_prefix _) hall).symm
  · rfl

theorem firstWord_trim (cs : List Char) : firstWord (trim cs) = firstWord cs := by
  obtain ⟨blanks, hrun, hblank⟩ := exists_trimEnd_append (trimStart cs)
  have hword : firstWord cs = (trim cs).takeWhile (! isBlank ·) := by
    rw [firstWord, ← hrun, takeWhile_append_blanks hblank]
    rfl
  -- What is left of the text starts with a character that is no blank, and so nothing more is cut off.
  have hstart : trimStart (trim cs) = trim cs := by
    cases ht : trim cs with
    | nil => rfl
    | cons c rest =>
      rw [show trimEnd (trimStart cs) = c :: rest from ht] at hrun
      simp [trimStart, isBlank_of_trimStart hrun.symm]
  rw [hword, firstWord, hstart]

theorem trim_eq_nil_iff {cs : List Char} : trim cs = [] ↔ firstWord cs = [] := by
  constructor
  · intro h
    rw [← firstWord_trim, h]
    rfl
  · intro h
    rw [trim, firstWord_eq_nil_iff.mp h]
    rfl

end Text

namespace Position

open Attempt Text TypeText

/-! ## Mappings -/

def innermostTurn (s : List Char) : Attempt (Turn (List Char) (Option (List Char))) :=
  if isMapping s then
    match mappingValue? s with
    | some v => return .again v
    | none => return .done none
  else return .done (some s)

/-- The user-defined name that a declared type finally refers to. -/
def referencedName (declared : String) : Attempt (Option String) := do
  match ← loop List.length innermostTurn (trim declared.toList) with
  | none => return none
  | some inner =>
    let text := trim (removeSubscripts inner)
    if text.isEmpty then return none
    else
      let name ← first (words text)
      if isElementaryName name then return none else return some (String.ofList name)

def valueTurn (s : List Char) : Attempt (Turn (List Char) (List Char)) :=
  if isMapping s then
    match valueOf? s with
    | some v => return .again v
    | none => return .done s
  else return .done s

/-- The type of an element of a variable of the declared type. -/
def valueType (declared : String) : Attempt String := do
  let value ← loop List.length valueTurn declared.toList
  return String.ofList (trim (removeSubscripts value))

def isAddressType (type : String) : Attempt Bool := do
  if type.isEmpty then return false
  else return (← first (words type.toList)) == "address".toList

theorem innermost_eq (s : List Char) :
    innermost s = if isMapping s then (mappingValue? s).bind innermost else some s := by
  rw [innermost.eq_def]
  split
  · split <;> rename_i hv <;> rw [hv] <;> rfl
  · rfl

theorem valueFrom_eq (s : List Char) :
    valueFrom s = if isMapping s then ((valueOf? s).map valueFrom).getD s else s := by
  rw [valueFrom.eq_def]
  split
  · split <;> rename_i hv <;> rw [hv] <;> rfl
  · rfl

theorem loop_innermost (s : List Char) : loop List.length innermostTurn s = .ok (innermost s) := by
  refine loop_spec (fun (k : List Char) s => s = k) (fun k r => r = .ok (innermost k)) ?_ s rfl
  rintro _ s rfl
  cases hm : isMapping s with
  | false => exact .done (some s) (by simp [innermostTurn, hm]) (by simp [innermost_eq s, hm])
  | true =>
    cases hv : mappingValue? s with
    | none => exact .done none (by simp [innermostTurn, hm, hv]) (by simp [innermost_eq s, hm, hv])
    | some v =>
      refine .again v v (by simp [innermostTurn, hm, hv]) (length_mappingValue? hv) rfl fun r hr => ?_
      simpa [innermost_eq s, hm, hv] using hr

theorem loop_value (s : List Char) : loop List.length valueTurn s = .ok (valueFrom s) := by
  refine loop_spec (fun (k : List Char) s => s = k) (fun k r => r = .ok (valueFrom k)) ?_ s rfl
  rintro _ s rfl
  cases hm : isMapping s with
  | false => exact .done s (by simp [valueTurn, hm]) (by simp [valueFrom_eq s, hm])
  | true =>
    cases hv : valueOf? s with
    | none => exact .done s (by simp [valueTurn, hm, hv]) (by simp [valueFrom_eq s, hm, hv])
    | some v =>
      refine .again v v (by simp [valueTurn, hm, hv]) (length_valueOf? hv) rfl fun r hr => ?_
      simpa [valueFrom_eq s, hm, hv] using hr

theorem referencedName_eq (declared : String) :
    referencedName declared = .ok (referencedName? declared) := by
  unfold referencedName referencedName?
  rw [loop_innermost, ok_bind]
  cases innermost (trim declared.toList) with
  | none => rfl
  | some inner =>
    simp only [Option.bind_eq_bind, Option.bind_some]
    by_cases hne : firstWord (removeSubscripts inner) = []
    · simp [trim_eq_nil_iff.mpr hne, hne]
    · have htrim : (trim (removeSubscripts inner)).isEmpty = false := by
        simpa [trim_eq_nil_iff] using hne
      have hfirst : first (words (trim (removeSubscripts inner))) =
          .ok (firstWord (removeSubscripts inner)) := by
        rw [first_words (by rwa [firstWord_trim]), firstWord_trim]
      simp only [htrim, hfirst, ok_bind, Bool.false_eq_true, ↓reduceIte, List.isEmpty_eq_false_iff.mpr hne,
        Bool.false_or]
      split <;> rfl

theorem valueType_eq (declared : String) : valueType declared = .ok (TypeText.valueType declared) := by
  rw [valueType, loop_value]
  rfl

/-- A text with a character that is no blank. -/
def HasWord (text : String) : Prop := ∃ c ∈ text.toList, isBlank c = false

theorem HasWord.append_left {a : String} (h : HasWord a) (b : String) : HasWord (a ++ b) := by
  obtain ⟨c, hc, hb⟩ := h
  exact ⟨c, by simp [hc], hb⟩

theorem HasWord.firstWord_ne_nil {text : String} (h : HasWord text) : firstWord text.toList ≠ [] :=
  firstWord_ne_nil_iff.mpr h

theorem isAddressType_eq {type : String} (h : type = "" ∨ HasWord type) :
    isAddressType type = .ok (isAddress type) := by
  rcases h with rfl | h
  · rfl
  · have hne : type ≠ "" := by
      rintro rfl
      obtain ⟨c, hc, -⟩ := h
      simp at hc
    simp [isAddressType, hne, first_words h.firstWord_ne_nil, isAddress]

/-- The type of an element is blank only if it is empty. -/
theorem hasWord_valueType (declared : String) :
    TypeText.valueType declared = "" ∨ HasWord (TypeText.valueType declared) := by
  unfold TypeText.valueType
  generalize removeSubscripts _ = text
  by_cases hne : firstWord text = []
  · exact .inl (by rw [trim_eq_nil_iff.mpr hne])
  · refine .inr ?_
    have hword : firstWord (trim text) ≠ [] := by rwa [firstWord_trim]
    simpa [HasWord] using firstWord_ne_nil_iff.mp hword

end Position

end ContractAudit
