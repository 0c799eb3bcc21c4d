/-!
# Search in text
-/

namespace ContractAudit.Text

/-- The characters `needle` stand somewhere in the text. -/
def occurs (needle : List Char) : List Char → Bool
  | [] => needle.isEmpty
  | c :: cs => needle.isPrefixOf (c :: cs) || occurs needle cs

def contains (text needle : String) : Bool := occurs needle.toList text.toList

theorem occurs_iff {needle text : List Char} :
    occurs needle text = true ↔ ∃ before after, text = before ++ needle ++ after := by
  induction text with
  | nil =>
    simp only [occurs, List.isEmpty_iff]
    constructor
    · rintro rfl; exact ⟨[], [], rfl⟩
    · rintro ⟨b, a, h⟩
      have h := h.symm
      simp only [List.append_eq_nil_iff] at h
      exact h.1.2
  | cons c cs ih =>
    simp only [occurs, Bool.or_eq_true, List.isPrefixOf_iff_prefix, ih]
    constructor
    · rintro (⟨a, h⟩ | ⟨b, a, h⟩)
      · exact ⟨[], a, by simp [h]⟩
      · exact ⟨c :: b, a, by simp [h]⟩
    · rintro ⟨b, a, h⟩
      cases b with
      | nil => exact .inl ⟨a, by simpa using h.symm⟩
      | cons d b =>
        simp only [List.cons_append, List.cons.injEq] at h
        exact .inr ⟨b, a, by simpa using h.2⟩

end ContractAudit.Text
