import ContractAudit.Audit
import ContractAudit.Proofs.Detection
import ContractAudit.Proofs.Report
import ContractAudit.Proofs.StateFlow

/-!
# The order of a batch

The report of a batch within the file cap whose declarations differ by their normalized names does not
depend on the order of the units. Each stage keeps what it says about each contract; the report merges
by contract and ranks without ties, and the counts, cycles and critical contracts forget the order.
-/

namespace ContractAudit

/-- Two reports that differ at most in the order of their diagnostics. -/
structure Report.Agrees (r r' : Report) : Prop where
  findings : r.findings = r'.findings
  riskScore : r.riskScore = r'.riskScore
  summary : r.summary = r'.summary
  metadata : r.metadata = r'.metadata
  diagnostics : r.diagnostics.Perm r'.diagnostics

/-- Two results of making a report that agree: the same error, or reports that agree. -/
inductive Report.AgreeingResults : Except ScoreError Report → Except ScoreError Report → Prop where
  | error (e : ScoreError) : AgreeingResults (.error e) (.error e)
  | ok {r r' : Report} (h : r.Agrees r') : AgreeingResults (.ok r) (.ok r')

theorem ReportPolicy.report_agrees (p : ReportPolicy) {fs fs' : List Finding}
    {ds ds' : List Diagnostic} (h : SameParts (·.key.contract) fs fs') (hd : ds.Perm ds')
    (metadata : Table String Json) :
    Report.AgreeingResults (p.report fs ds metadata) (p.report fs' ds' metadata) := by
  have hred := p.reduce_eq_of_sameParts h
  have hlen := h.perm.length_eq
  have hkept := (p.kept_sameParts h).perm.length_eq
  simp only [report, hred, hlen, hkept]
  cases riskScore p.weights p.damping (p.reduce fs') with
  | error e => exact .error e
  | ok score => exact .ok ⟨rfl, rfl, rfl, rfl, hd⟩

namespace Audit

/-- The declarations of the batch differ by their normalized names. -/
def DistinctDeclarations (units : List SourceUnit) : Prop :=
  ((units.flatMap (·.declared)).map fun c => Dependency.normalize c.name).Nodup

instance (units : List SourceUnit) : Decidable (DistinctDeclarations units) :=
  inferInstanceAs (Decidable (List.Nodup _))

variable {units units' : List SourceUnit}

theorem extraction_of_distinct (h : DistinctDeclarations units) :
    Extraction.ofUnits units = ⟨units.flatMap (·.declared), units.flatMap (·.unreadable)⟩ := by
  refine Extraction.ofUnits_of_nodup (List.Nodup.of_map Dependency.normalize ?_)
  rw [List.map_map]
  exact h

theorem distinct_of_perm (hp : units.Perm units') (h : DistinctDeclarations units) :
    DistinctDeclarations units' :=
  ((hp.flatMap_right _).map _).nodup_iff.mp h

theorem reordered (hp : units.Perm units') (h : DistinctDeclarations units) :
    Reordered (Extraction.ofUnits units).contracts (Extraction.ofUnits units').contracts := by
  rw [extraction_of_distinct h, extraction_of_distinct (distinct_of_perm hp h)]
  exact ⟨hp.flatMap_right _, h⟩

namespace Analysis

theorem findings_sameParts (s : Settings) (hp : units.Perm units')
    (h : DistinctDeclarations units) :
    SameParts (·.key.contract) (analyze s units).findings (analyze s units').findings := by
  have hr := reordered hp h
  exact (StateFlow.findings_sameParts hr _ _).append
    (Detection.findings_sameParts hr.names fun d hd => Registry.isLocal_of_mem_standard hd)

theorem diagnostics_perm (s : Settings) (hp : units.Perm units') (h : DistinctDeclarations units) :
    (analyze s units).diagnostics.Perm (analyze s units').diagnostics := by
  have hr := reordered hp h
  have hwarnings : (Extraction.ofUnits units).warnings.Perm (Extraction.ofUnits units').warnings := by
    rw [extraction_of_distinct h, extraction_of_distinct (distinct_of_perm hp h)]
    exact hp.flatMap_right _
  have hflows := (Flow.all_sameParts hr s.maxFlowDepth).perm
  refine .append (.append (.append (hwarnings.map _) ?_) ?_) (Detection.diagnostics_perm hr.perm)
  · exact (DependencyGraph.unresolved_sameParts hr).perm.map _
  · exact (hflows.filter _).map _

theorem metadata_eq (s : Settings) (hp : units.Perm units') (h : DistinctDeclarations units) :
    (analyze s units).metadata = (analyze s units').metadata := by
  have hr := reordered hp h
  have hedges := (DependencyGraph.edges_sameParts hr).perm
  have hflows := (Flow.all_sameParts hr s.maxFlowDepth).perm.length_eq
  have hjudged := (Invariant.check_sameParts Invariant.catalogue hr).perm.length_eq
  simp only [metadata, analyze, StateFlow.ofContracts, hp.length_eq, hr.perm.length_eq,
    hedges.length_eq, (hedges.filter (·.tier == .namingConvention)).length_eq, hflows, hjudged,
    DependencyGraph.cycles_ofContracts_eq hr, DependencyGraph.critical_eq hr]

end Analysis

/-- Within the cap nothing is cut off. -/
theorem report_of_le_cap (s : Settings) (applyFilter : Bool) (extra : List Finding)
    (hne : units ≠ []) (hcap : (units.length : Int) ≤ s.maxFiles) :
    report s applyFilter (.ok units) extra =
      (ReportPolicy.ofSettings s applyFilter).report ((analyze s units).findings ++ extra)
        (analyze s units).diagnostics (analyze s units).metadata := by
  have htake : units.take s.maxFiles.toNat = units := List.take_of_length_le (by omega)
  cases units with
  | nil => exact absurd rfl hne
  | cons u us => simp only [report, Intake.ofBatch, htake, Intake.capDiagnostics, Nat.lt_irrefl,
      ↓reduceIte, List.nil_append]

/-- The report does not depend on the order of the batch, the order of its diagnostics apart. -/
theorem report_order_invariant (s : Settings) (applyFilter : Bool) (extra : List Finding)
    (hp : units.Perm units') (hcap : (units.length : Int) ≤ s.maxFiles)
    (h : DistinctDeclarations units) :
    Report.AgreeingResults (report s applyFilter (.ok units) extra)
      (report s applyFilter (.ok units') extra) := by
  by_cases hne : units = []
  · subst hne
    obtain rfl := hp.nil_eq
    cases report s applyFilter (.ok []) extra with
    | error e => exact .error e
    | ok r => exact .ok ⟨rfl, rfl, rfl, rfl, .refl _⟩
  · have hne' : units' ≠ [] := fun he => hne (List.perm_nil.mp (he ▸ hp))
    have hcap' : (units'.length : Int) ≤ s.maxFiles := hp.length_eq ▸ hcap
    rw [report_of_le_cap s applyFilter extra hne hcap,
      report_of_le_cap s applyFilter extra hne' hcap', Analysis.metadata_eq s hp h]
    exact ReportPolicy.report_agrees _ ((Analysis.findings_sameParts s hp h).append (.refl _ extra))
      (Analysis.diagnostics_perm s hp h) _

/-- A vault that pays out through a token before it writes its books. -/
def lateVault : SourceUnit where
  name := "Vault.sol"
  path := ""
  text := "contract Vault \x7b Token token; uint shares; " ++
    "function exit() public \x7b token.send(shares); shares = 0; \x7d \x7d"

/-- The token, which knows its vault by convention only. -/
def knownToken : SourceUnit where
  name := "Token.sol"
  path := ""
  text := "contract Token \x7b address _vault; function send(uint n) public \x7b \x7d \x7d"

theorem report_order_invariant_vault :
    [lateVault, knownToken].Perm [knownToken, lateVault] ∧
      DistinctDeclarations [lateVault, knownToken] ∧
      Report.AgreeingResults (report {} true (.ok [lateVault, knownToken]) [])
        (report {} true (.ok [knownToken, lateVault]) []) := by
  have hp : [lateVault, knownToken].Perm [knownToken, lateVault] := .swap _ _ _
  have h : DistinctDeclarations [lateVault, knownToken] := by decide +kernel
  exact ⟨hp, h, report_order_invariant {} true [] hp (by decide) h⟩

end Audit

end ContractAudit
