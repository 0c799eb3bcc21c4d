import ContractAudit.Vendored

/-!
# Folders of vendored code

What lies in a folder of vendored code is vendored code. The test compares paths in lower case, and the
lower-case form of a capital sigma depends on what follows it, so the form of a longer path need not extend
that of a shorter one. A slash is no part of a word: what follows it does not change what stands before it.
-/

namespace ContractAudit

namespace Text

theorem isCaseIgnorable_slash : isCaseIgnorable '/' = false := by decide +kernel

theorem lowerChar_slash : lowerChar '/' = '/' := by decide +kernel

/-- Behind a slash nothing counts for the form of a sigma before it. -/
theorem isFinalSigma_append (before ds rest : List Char) :
    isFinalSigma before (ds ++ '/' :: rest) = isFinalSigma before (ds ++ ['/']) := by
  obtain ⟨c, tail, tail', hlong, hshort⟩ : ∃ c tail tail',
      (ds ++ '/' :: rest).dropWhile isCaseIgnorable = c :: tail ∧
        (ds ++ ['/']).dropWhile isCaseIgnorable = c :: tail' := by
    induction ds with
    | nil => exact ⟨'/', rest, [], by simp [isCaseIgnorable_slash], by simp [isCaseIgnorable_slash]⟩
    | cons d ds ih =>
      by_cases hd : isCaseIgnorable d = true
      · simpa [hd] using ih
      · exact ⟨d, ds ++ '/' :: rest, ds ++ ['/'], by simp [hd], by simp [hd]⟩
  simp only [isFinalSigma, hlong, hshort]

/-- The lower-case form of a text extends that of its part up to a slash. -/
theorem lowerFrom_prefix (before ds rest : List Char) :
    lowerFrom before (ds ++ ['/']) <+: lowerFrom before (ds ++ '/' :: rest) := by
  induction ds generalizing before with
  | nil => exact ⟨lowerFrom ('/' :: before) rest, by simp [lowerFrom]⟩
  | cons d ds ih =>
    obtain ⟨tail, htail⟩ := ih (d :: before)
    refine ⟨tail, ?_⟩
    simp only [List.cons_append, lowerFrom, isFinalSigma_append before ds rest, List.append_assoc, htail]

theorem getLast?_lowerFrom (before ds : List Char) :
    (lowerFrom before (ds ++ ['/'])).getLast? = some '/' := by
  induction ds generalizing before with
  | nil => simp [lowerFrom, lowerChar_slash]
  | cons d ds ih => simp [lowerFrom, ih]

/-- What stands in a text stands in every longer one. -/
theorem occurs_of_prefix {needle text longer : List Char} (hp : text <+: longer)
    (h : occurs needle text = true) : occurs needle longer = true := by
  obtain ⟨before, after, rfl⟩ := occurs_iff.mp h
  obtain ⟨tail, rfl⟩ := hp
  exact occurs_iff.mpr ⟨before, after ++ tail, by simp⟩

end Text

namespace Vendored

open Text

/-- Marks of the present folder are dropped from a longer path as from a shorter one, unless the shorter one
is nothing else. A path that ends with a slash does not end within a mark. -/
theorem dropHere_append {cs : List Char} (hlast : cs.getLast? = some '/') (hne : dropHere cs ≠ [])
    (rest : List Char) : dropHere (cs ++ rest) = dropHere cs ++ rest := by
  fun_induction dropHere cs with
  | case1 cs ih =>
    cases cs with
    | nil => exact absurd rfl hne
    | cons c cs => exact ih (by simpa using hlast) hne
  | case2 cs hmark =>
    rcases cs with _ | ⟨a, _ | ⟨b, cs⟩⟩
    · exact absurd rfl hne
    · obtain rfl : a = '/' := by simpa using hlast
      rfl
    · refine dropHere.eq_2 _ fun tail htail => ?_
      simp only [List.cons_append, List.cons.injEq] at htail
      exact hmark cs (by rw [htail.1, htail.2.1])

/-- A path with slashes only. -/
def slashed (path : String) : List Char := path.toList.map fun c => if c = '\\' then '/' else c

theorem normalize_folder (d : String) :
    normalize (d ++ "/") = dropHere (lowerFrom [] (slashed d ++ ['/'])) := by
  simp [normalize, lower, slashed]

theorem normalize_in_folder (d r : String) :
    normalize (d ++ "/" ++ r) = dropHere (lowerFrom [] (slashed d ++ '/' :: slashed r)) := by
  simp [normalize, lower, slashed]

theorem normalize_prefix {d : String} (hne : normalize (d ++ "/") ≠ []) (r : String) :
    normalize (d ++ "/") <+: normalize (d ++ "/" ++ r) := by
  rw [normalize_folder] at hne
  obtain ⟨tail, htail⟩ := lowerFrom_prefix [] (slashed d) (slashed r)
  rw [normalize_folder, normalize_in_folder, ← htail, dropHere_append (getLast?_lowerFrom [] _) hne]
  exact List.prefix_append _ _

/-- What lies in a folder of vendored code is vendored code. -/
theorem holds_append {d : String} (h : holds (d ++ "/") = true) (r : String) :
    holds (d ++ "/" ++ r) = true := by
  have hne : normalize (d ++ "/") ≠ [] := by
    intro hnil
    rw [holds, hnil] at h
    revert h
    decide
  have hp := normalize_prefix hne r
  rw [holds, Bool.or_eq_true, List.any_eq_true, List.any_eq_true] at h ⊢
  rcases h with ⟨b, hb, h⟩ | ⟨l, hl, h⟩
  · rw [List.isPrefixOf_iff_prefix] at h
    exact .inl ⟨b, hb, List.isPrefixOf_iff_prefix.mpr (h.trans hp)⟩
  · exact .inr ⟨l, hl, occurs_of_prefix hp h⟩

end Vendored

end ContractAudit
