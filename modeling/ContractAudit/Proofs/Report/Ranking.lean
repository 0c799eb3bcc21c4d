import ContractAudit.CommandLine
import ContractAudit.Proofs.Report.Arrival
import Mathlib.Data.Prod.Lex
import Mathlib.Data.String.Basic

/-!
# The order of a report

`Finding.standing` is what a finding is ranked by, as one element of a lexicographic product. The key of a
finding can be read off its standing, so two findings with different keys never stand alike. Merging leaves
one finding for each key: the findings of a report stand in strictly increasing order, which is the same
order whatever the one they came in. The most severe come first, so a least severity and a limit on the
number of findings both cut a report off at its end.
-/

namespace ContractAudit

/-- Where a finding stands in a report. The most severe come first, of these the ones that show the damage,
of these the confirmed ones, and then place, class and title decide. -/
def Finding.standing (f : Finding) : ℤ ×ₗ Bool ×ₗ Bool ×ₗ String ×ₗ String ×ₗ ℤ ×ₗ String ×ₗ String :=
  toLex (-(f.severity.rank : ℤ), toLex (! f.hasExploitContext, toLex (f.confidence != .confirmed,
    toLex (f.key.contract, toLex (f.key.function, toLex ((f.primaryLocation?.bind (·.line)).getD 0,
      toLex (f.vulnerabilityClass, f.title)))))))

namespace Report

/-! ## Ranks as standings -/

/-- What comes first is ranked zero, the rest one. -/
theorem compare_first (a b : Bool) :
    Ord.compare (if a then 0 else 1) (if b then 0 else 1) = Ord.compare (! a) (! b) := by
  cases a <;> cases b <;> rfl

theorem compare_eq_lt_iff {f g : Finding} :
    (rankKey f).compare (rankKey g) = .lt ↔ f.standing < g.standing := by
  have hf := f.severity.rank_le
  have hg := g.severity.rank_le
  have hlt : 4 - f.severity.rank < 4 - g.severity.rank ↔
      -(f.severity.rank : ℤ) < -(g.severity.rank : ℤ) := by omega
  have heq : 4 - f.severity.rank = 4 - g.severity.rank ↔
      -(f.severity.rank : ℤ) = -(g.severity.rank : ℤ) := by omega
  simp only [RankKey.compare, rankKey, Ordering.then_eq_lt, compare_first, compare_lt_iff_lt,
    compare_eq_iff_eq, hlt, heq, Finding.standing, Prod.Lex.toLex_lt_toLex, Finding.key, bne]

/-- Findings with different keys that are in order are strictly in order. -/
theorem standing_lt_of_isLE {f g : Finding} (h : ((rankKey f).compare (rankKey g)).isLE = true)
    (hkey : f.key ≠ g.key) : f.standing < g.standing := by
  rw [← compare_eq_lt_iff]
  cases hc : (rankKey f).compare (rankKey g) with
  | lt => rfl
  | eq => exact absurd (key_eq_of_rankKey_eq (RankKey.eq_of_compare hc)) hkey
  | gt =>
    rw [hc] at h
    cases h

theorem rank_perm (fs : List Finding) : (rank fs).Perm fs := List.mergeSort_perm _ _

theorem pairwise_standing_rank {fs : List Finding} (hn : (fs.map (·.key)).Nodup) :
    (rank fs).Pairwise fun f g => f.standing < g.standing := by
  have hsorted := List.pairwise_mergeSort rank_le_trans rank_le_total fs
  have hkeys : (rank fs).Pairwise fun f g => f.key ≠ g.key :=
    List.pairwise_map.mp (((rank_perm fs).map _).nodup_iff.mpr hn)
  exact (hsorted.and hkeys).imp fun h => standing_lt_of_isLE h.1 h.2

end Report

/-! ## What a scan shows -/

/-- A filter cuts a list off at its end if it passes everything in front of what it passes. -/
theorem filter_prefix_of_pairwise {α : Type} {p : α → Bool} {xs : List α}
    (h : xs.Pairwise fun a b => p b = true → p a = true) : xs.filter p <+: xs := by
  induction xs with
  | nil => exact List.prefix_rfl
  | cons x xs ih =>
    obtain ⟨hx, hxs⟩ := List.pairwise_cons.mp h
    by_cases hp : p x = true
    · rw [List.filter_cons_of_pos hp]
      exact List.cons_prefix_cons.mpr ⟨rfl, ih hxs⟩
    · have hnone : xs.filter p = [] := List.filter_eq_nil_iff.mpr fun y hy hpy => hp (hx y hy hpy)
      rw [List.filter_cons_of_neg hp, hnone]
      exact List.nil_prefix

namespace CommandLine

theorem ScanRequest.select_prefix (r : ScanRequest) {fs : List Finding}
    (h : fs.Pairwise fun f g => g.severity.rank ≤ f.severity.rank) : r.select fs <+: fs := by
  have hlimit (kept : List Finding) :
      (if 0 < r.maxFindings then kept.take r.maxFindings.toNat else kept) <+: kept := by
    split
    · exact List.take_prefix _ _
    · exact List.prefix_rfl
  refine (hlimit _).trans ?_
  split
  · refine filter_prefix_of_pairwise (h.imp fun hle hleast => ?_)
    rw [decide_eq_true_eq] at hleast ⊢
    exact Nat.le_trans hleast hle
  · exact List.prefix_rfl

end CommandLine

namespace ReportPolicy

open CommandLine in
/-- Ranking puts merged findings into strictly increasing order, and so into the same order from any other.
What a scan shows of a report is the first part of it, whatever the least severity and the limit. -/
theorem report_ranked (p : ReportPolicy) (fs : List Finding) (diagnostics : List Diagnostic)
    (metadata : Table String Json) :
    (Report.rank (Report.deduplicate fs)).Perm (Report.deduplicate fs) ∧
    (Report.rank (Report.deduplicate fs)).Pairwise (fun f g => f.standing < g.standing) ∧
    (∀ gs, gs.Perm (Report.deduplicate fs) → Report.rank gs = Report.rank (Report.deduplicate fs)) ∧
    ((∃ e, riskScore p.weights p.damping (p.reduce fs) = .error e ∧
        p.report fs diagnostics metadata = .error e) ∨
      ∃ report, p.report fs diagnostics metadata = .ok report ∧
        ∀ r : ScanRequest, r.select report.findings <+: report.findings) := by
  have hkeys := Report.nodup_key_deduplicate fs
  refine ⟨Report.rank_perm _, Report.pairwise_standing_rank hkeys, fun gs h => ?_, ?_⟩
  · exact (Report.rank_eq_of_perm h.symm hkeys).symm
  · cases hs : riskScore p.weights p.damping (p.reduce fs) with
    | error e => exact .inl ⟨e, rfl, report_of_error hs diagnostics metadata⟩
    | ok score =>
      refine .inr ⟨_, report_of_score hs diagnostics metadata, fun r => r.select_prefix ?_⟩
      exact List.pairwise_map.mp (p.pairwise_severity_reduce fs)

/-- A finding of another class at the place of `nameless`. -/
def unbounded : Finding := { nameless with vulnerabilityClass := "unbounded-loop", confidence := .confirmed }

theorem report_ranked_reversed :
    let merged := Report.deduplicate [placeless, nameless, unbounded]
    merged.length = 2 ∧ merged.reverse.Perm merged ∧ Report.rank merged.reverse = Report.rank merged ∧
      (Report.rank merged.reverse).Pairwise fun f g => f.standing < g.standing := by
  intro merged
  obtain ⟨-, hstrict, hsame, -⟩ :=
    report_ranked (.ofSettings {} true) [placeless, nameless, unbounded] [] []
  have hp := List.reverse_perm merged
  exact ⟨by decide, hp, hsame _ hp, (hsame _ hp).symm ▸ hstrict⟩

end ReportPolicy

end ContractAudit
