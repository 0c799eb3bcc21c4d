import ContractAudit.Proofs.Audit
import ContractAudit.Proofs.Batch.Merge
import ContractAudit.Proofs.Report.Reduction

/-!
# Units without a model

A unit that cannot be modelled takes part in no stage after the extraction. The audit of the batch
without it gives the same report, but for the number of units and the one diagnostic on the unit.
-/

namespace ContractAudit

/-- The report `r` is `r'` with one more diagnostic, on a unit without a model, and another count of
units. -/
structure Report.AddsFailure (unit : SourceUnit) (count : Nat) (r r' : Report) : Prop where
  findings : r.findings = r'.findings
  riskScore : r.riskScore = r'.riskScore
  summary : r.summary = r'.summary
  metadata : r.metadata = r'.metadata.put "units" (.ofNat count)
  diagnostics : ∃ before d after, r'.diagnostics = before ++ after ∧
    r.diagnostics = before ++ d :: after ∧ d.code = .parseWarning ∧ d.source = unit.name

namespace Audit

namespace Analysis

variable {units units' : List SourceUnit}

/-- All that is found rests on the contracts of the batch. -/
theorem findings_eq_of_contracts (s : Settings)
    (h : (Extraction.ofUnits units).contracts = (Extraction.ofUnits units').contracts) :
    (analyze s units).findings = (analyze s units').findings := by
  simp only [findings, analyze, h]

theorem metadata_eq_put (s : Settings)
    (h : (Extraction.ofUnits units).contracts = (Extraction.ofUnits units').contracts) :
    (analyze s units).metadata = (analyze s units').metadata.put "units" (.ofNat units.length) := by
  simp only [metadata, analyze, h, Table.put, beq_self_eq_true, ↓reduceIte]

/-- The diagnostics are those on the extraction and then those that rest on the contracts. -/
theorem diagnostics_eq_of_contracts (s : Settings)
    (h : (Extraction.ofUnits units).contracts = (Extraction.ofUnits units').contracts) :
    ∃ rest, (analyze s units).diagnostics =
        (Extraction.ofUnits units).warnings.map Warning.toDiagnostic ++ rest ∧
      (analyze s units').diagnostics =
        (Extraction.ofUnits units').warnings.map Warning.toDiagnostic ++ rest := by
  simp only [diagnostics, analyze, h, List.append_assoc]
  exact ⟨_, rfl, rfl⟩

end Analysis

/-- The metadata of an analysis counts the units, and no count of the report has that key. -/
theorem counted_put_units (p : ReportPolicy) (fs : List Finding) (a : Analysis) (count : Json) :
    p.counted fs (a.metadata.put "units" count) = (p.counted fs a.metadata).put "units" count := by
  refine Table.putAll_put_of_mem ?_ ?_ count
  · simp [Analysis.metadata]
  · simp

/-- A unit without a model changes nothing but the number of units and its own diagnostic. -/
theorem parseFailure_contained (s : Settings) (applyFilter : Bool) (extra : List Finding)
    (before after : List SourceUnit) {unit : SourceUnit} {e : ParseError}
    (hu : unit.contracts = .error e) (hne : before ++ after ≠ [])
    (hcap : ((before ++ unit :: after).length : Int) ≤ s.maxFiles) :
    Report.Both (Report.AddsFailure unit (before ++ unit :: after).length)
      (report s applyFilter (.ok (before ++ unit :: after)) extra)
      (report s applyFilter (.ok (before ++ after)) extra) := by
  obtain ⟨ws, ws', hrest, hall⟩ := Extraction.ofUnits_of_unreadable hu before after
  have hcontracts : (Extraction.ofUnits (before ++ unit :: after)).contracts =
      (Extraction.ofUnits (before ++ after)).contracts := by rw [hall]
  have hwarnings : (Extraction.ofUnits (before ++ after)).warnings = ws ++ ws' := by rw [hrest]
  have hwarnings' : (Extraction.ofUnits (before ++ unit :: after)).warnings =
      ws ++ Warning.ofError unit e :: ws' := by rw [hall]
  have hfindings := Analysis.findings_eq_of_contracts s hcontracts
  have hmetadata := Analysis.metadata_eq_put s hcontracts
  obtain ⟨rest, hd, hd'⟩ := Analysis.diagnostics_eq_of_contracts s hcontracts
  have hcap' : ((before ++ after).length : Int) ≤ s.maxFiles := by
    simp only [List.length_append, List.length_cons] at hcap ⊢
    omega
  rw [report_of_le_cap s applyFilter extra (by simp) hcap, report_of_le_cap s applyFilter extra hne hcap',
    hfindings, hmetadata]
  refine ReportPolicy.report_both rfl fun score => ?_
  exact {
    findings := rfl
    riskScore := rfl
    summary := rfl
    metadata := counted_put_units _ _ _ _
    diagnostics := by
      refine ⟨ws.map Warning.toDiagnostic, (Warning.ofError unit e).toDiagnostic,
        ws'.map Warning.toDiagnostic ++ rest, ?_, ?_, rfl, rfl⟩
      · simp only [hd', hwarnings, List.map_append, List.append_assoc]
      · simp only [hd, hwarnings', List.map_append, List.map_cons, List.append_assoc, List.cons_append] }

/-- A vault that is never closed. -/
def openVault : SourceUnit where
  name := "Open.sol"
  path := ""
  text := "contract Vault \x7b Token token;"

theorem parseFailure_contained_openVault :
    openVault.contracts = .error (.unbalancedContract .contract "Vault" 1) ∧
      Report.Both (Report.AddsFailure openVault 3)
        (report {} true (.ok [lateVault, openVault, knownToken]) [])
        (report {} true (.ok [lateVault, knownToken]) []) := by
  have hu : openVault.contracts = .error (.unbalancedContract .contract "Vault" 1) := by
    decide +kernel
  exact ⟨hu, parseFailure_contained {} true [] [lateVault] [knownToken] hu (by decide) (by decide)⟩

end Audit

end ContractAudit
