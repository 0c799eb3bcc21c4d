import ContractAudit.Proofs.Parts
import ContractAudit.Report
import Mathlib.Data.List.Nodup

/-!
# The findings of a report

Merging leaves one finding for each key, and no two findings with different keys rank alike. So the
findings of a report depend only on the findings with each key and their order, and not on how those
of different contracts stand to each other.
-/

namespace ContractAudit

namespace Report

/-! ## Merging keeps the key -/

/-- The contract and the function of the first of some places. -/
def firstPlace (ls : List Location) : String × String :=
  ((ls.head?.map (·.contract)).getD "", (ls.head?.map (·.function)).getD "")

def subject (f : Finding) : String :=
  if f.vulnerabilityClass.isEmpty then f.title else f.vulnerabilityClass

theorem key_eq_iff {f : Finding} {k : FindingKey} :
    f.key = k ↔ firstPlace f.locations = (k.contract, k.function) ∧ subject f = k.subject := by
  cases k
  simp [Finding.key, Finding.primaryLocation?, firstPlace, subject, and_assoc]

theorem firstPlace_eraseDups (ls : List Location) : firstPlace ls.eraseDups = firstPlace ls := by
  cases ls with
  | nil => rfl
  | cons l ls => rw [List.eraseDups_cons]; rfl

theorem firstPlace_flatMap {f : Finding} {gs : List Finding} {place : String × String}
    (h : ∀ g ∈ f :: gs, firstPlace g.locations = place) :
    firstPlace ((f :: gs).flatMap (·.locations)) = place := by
  induction gs generalizing f with
  | nil => simpa using h
  | cons g gs ih =>
    rw [List.flatMap_cons]
    cases hf : f.locations with
    | nil => exact ih fun g' hg => h g' (List.mem_cons_of_mem _ hg)
    | cons l ls =>
      rw [← h f List.mem_cons_self, hf]
      rfl

theorem lead_mem (f : Finding) (gs : List Finding) : lead f gs ∈ f :: gs := by
  induction gs generalizing f with
  | nil => exact List.mem_cons_self
  | cons g gs ih =>
    simp only [lead]
    split
    · exact List.mem_cons_of_mem _ (ih g)
    · rcases List.mem_cons.mp (ih f) with h | h
      · rw [h]
        exact List.mem_cons_self
      · exact List.mem_cons_of_mem _ (List.mem_cons_of_mem _ h)

theorem key_merge {f : Finding} {gs : List Finding} {k : FindingKey}
    (h : ∀ g ∈ f :: gs, g.key = k) : (merge f gs).key = k := by
  unfold merge
  split
  · exact h f List.mem_cons_self
  · refine key_eq_iff.mpr ⟨?_, (key_eq_iff.mp (h _ (lead_mem f gs))).2⟩
    rw [firstPlace_eraseDups]
    exact firstPlace_flatMap fun g hg => (key_eq_iff.mp (h g hg)).1

/-! ## One finding for each key -/

/-- The findings with a key made into one. -/
def group? (fs : List Finding) (k : FindingKey) : Option Finding :=
  match fs.filter (·.key == k) with
  | [] => none
  | f :: gs => some (merge f gs)

theorem deduplicate_eq (fs : List Finding) :
    deduplicate fs = (fs.map (·.key)).eraseDups.filterMap (group? fs) := rfl

theorem exists_group? {fs : List Finding} {k : FindingKey} (hk : k ∈ fs.map (·.key)) :
    ∃ f, group? fs k = some f ∧ f.key = k := by
  obtain ⟨f, hf, rfl⟩ := List.mem_map.mp hk
  have hmem : f ∈ fs.filter (·.key == f.key) := by simp [hf]
  unfold group?
  split
  · rename_i h
    rw [h] at hmem
    cases hmem
  · rename_i g gs h
    refine ⟨_, rfl, key_merge fun g' hg => ?_⟩
    rw [← h] at hg
    simpa using (List.mem_filter.mp hg).2

theorem map_key_deduplicate (fs : List Finding) :
    (deduplicate fs).map (·.key) = (fs.map (·.key)).eraseDups := by
  have hall : ∀ k ∈ (fs.map (·.key)).eraseDups, k ∈ fs.map (·.key) :=
    fun k hk => List.mem_eraseDups.mp hk
  rw [deduplicate_eq]
  generalize (fs.map (·.key)).eraseDups = ks at hall
  induction ks with
  | nil => rfl
  | cons k ks ih =>
    obtain ⟨f, hf, hk⟩ := exists_group? (hall k List.mem_cons_self)
    rw [List.filterMap_cons_some hf, List.map_cons, hk,
      ih fun k hk => hall k (List.mem_cons_of_mem _ hk)]

theorem nodup_key_deduplicate (fs : List Finding) : ((deduplicate fs).map (·.key)).Nodup := by
  rw [map_key_deduplicate]
  exact nodup_eraseDups _

theorem deduplicate_perm {fs fs' : List Finding} (h : SameParts Finding.key fs fs') :
    (deduplicate fs).Perm (deduplicate fs') := by
  have hgroup : group? fs = group? fs' := by
    funext k
    simp only [group?, h k]
  rw [deduplicate_eq, deduplicate_eq, hgroup]
  refine (perm_eraseDups fun k => ?_).filterMap _
  exact (h.perm.map _).mem_iff

/-! ## Ranking -/

instance : Std.TransCmp RankKey.compare :=
  inferInstanceAs (Std.TransCmp (compareLex (compareOn RankKey.severity) <|
    compareLex (compareOn RankKey.exploit) <| compareLex (compareOn RankKey.confidence) <|
    compareLex (compareOn RankKey.contract) <| compareLex (compareOn RankKey.function) <|
    compareLex (compareOn RankKey.line) <| compareLex (compareOn RankKey.vulnerabilityClass) <|
    compareOn RankKey.title))

theorem RankKey.eq_of_compare {a b : RankKey} (h : a.compare b = .eq) : a = b := by
  cases a
  cases b
  simp only [RankKey.compare, Ordering.then_eq_eq, Std.LawfulEqOrd.compare_eq_iff_eq] at h
  simp only [h]

/-- What two findings are ranked by tells their keys apart. -/
theorem key_eq_of_rankKey_eq {f g : Finding} (h : rankKey f = rankKey g) : f.key = g.key := by
  simp only [rankKey, RankKey.mk.injEq] at h
  obtain ⟨-, -, -, hc, hf, -, hv, ht⟩ := h
  simp only [Finding.key, hc, hf, hv, ht]

theorem rank_le_trans (a b c : Finding) (hab : ((rankKey a).compare (rankKey b)).isLE = true)
    (hbc : ((rankKey b).compare (rankKey c)).isLE = true) :
    ((rankKey a).compare (rankKey c)).isLE = true :=
  Std.TransCmp.isLE_trans hab hbc

theorem rank_le_total (a b : Finding) :
    (((rankKey a).compare (rankKey b)).isLE || ((rankKey b).compare (rankKey a)).isLE) = true := by
  have hs : (rankKey a).compare (rankKey b) = ((rankKey b).compare (rankKey a)).swap :=
    Std.OrientedCmp.eq_swap
  rw [hs]
  cases (rankKey b).compare (rankKey a) <;> rfl

theorem rank_eq_of_perm {fs fs' : List Finding} (h : fs.Perm fs')
    (hk : (fs.map (·.key)).Nodup) : rank fs = rank fs' := by
  refine mergeSort_eq_of_perm rank_le_trans rank_le_total h fun a ha b hb hab hba => ?_
  have he := RankKey.eq_of_compare (Std.OrientedCmp.isLE_antisymm hab hba)
  exact List.inj_on_of_nodup_map hk ha hb (key_eq_of_rankKey_eq he)

end Report

namespace ReportPolicy

theorem kept_sameParts {τ : Type} [DecidableEq τ] {tag : Finding → τ} {fs fs' : List Finding}
    (p : ReportPolicy) (h : SameParts tag fs fs') : SameParts tag (p.kept fs) (p.kept fs') := by
  unfold kept
  split
  · exact h.filter _
  · exact h

/-- The findings of a report depend only on the findings with each key. -/
theorem reduce_eq_of_sameKeys {fs fs' : List Finding} (p : ReportPolicy)
    (h : SameParts Finding.key fs fs') : p.reduce fs = p.reduce fs' := by
  unfold reduce
  rw [Report.rank_eq_of_perm (Report.deduplicate_perm (p.kept_sameParts h))
    (Report.nodup_key_deduplicate _)]

/-- The findings of a report depend only on the findings of each contract. -/
theorem reduce_eq_of_sameParts {fs fs' : List Finding} (p : ReportPolicy)
    (h : SameParts (·.key.contract) fs fs') : p.reduce fs = p.reduce fs' :=
  p.reduce_eq_of_sameKeys (h.of_coarse fun _ => rfl)

end ReportPolicy

end ContractAudit
