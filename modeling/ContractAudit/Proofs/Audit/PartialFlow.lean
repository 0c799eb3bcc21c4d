import ContractAudit.Proofs.Audit
import ContractAudit.Proofs.Reentrancy.DepthBound
import ContractAudit.Proofs.Report.Reduction

/-!
# Findings of truncated flows

A reentrancy finding of a truncated flow carries a flag and is heuristic; one of a whole flow has no such
flag and is confirmed. Merging joins the flags and the confidences of an entry point's findings each on
their own. So an entry of the report that carries the flag is confirmed exactly if a finding of a whole
flow was merged into it.
-/

namespace ContractAudit

theorem Finding.subject_key {x : Finding} (h : x.vulnerabilityClass ≠ "") :
    x.key.subject = x.vulnerabilityClass := by
  simp [key, h]

namespace Reentrancy

/-- The class of the findings on reentrancy. -/
def category : String := "cross-contract-reentrancy"

/-- Only a finding on reentrancy carries the flag of a truncated flow, and of these exactly the heuristic
ones do. -/
structure FlagsTruncation (x : Finding) : Prop where
  category : flagPartial ∈ x.flags → x.key.subject = category
  heuristic : x.key.subject = Reentrancy.category → (flagPartial ∈ x.flags ↔ x.confidence = .heuristic)

theorem flagsTruncation_of_class {x : Finding} (hf : x.flags = [])
    (hc : x.vulnerabilityClass ≠ "" ∧ x.vulnerabilityClass ≠ category) : FlagsTruncation x := by
  refine ⟨fun h => ?_, fun h => ?_⟩
  · rw [hf] at h
    cases h
  · rw [Finding.subject_key hc.1] at h
    exact absurd h hc.2

theorem flagPartial_mem_finding (policy : Policy) (g : Option DependencyGraph) (flow : Flow)
    (v : Violation) :
    flagPartial ∈ (finding policy g flow v).flags ↔ flow.isTruncated = true := by
  have hne : flagPartial ≠ flagUnresolved := by decide
  simp only [finding, List.mem_append, List.mem_ite_nil_right, List.mem_singleton, hne, and_false,
    or_false, and_true]

theorem flagsTruncation_finding (policy : Policy) (g : Option DependencyGraph) (flow : Flow)
    (v : Violation) : FlagsTruncation (finding policy g flow v) := by
  have hclass : category ≠ "" := by decide
  refine ⟨fun _ => Finding.subject_key hclass, fun _ => ?_⟩
  rw [flagPartial_mem_finding, confidence_finding]
  cases flow.isTruncated <;> simp

theorem flagsTruncation_of_mem {policy : Policy} {g : Option DependencyGraph} {flows : List Flow}
    {x : Finding} (hx : x ∈ findings policy g flows) : FlagsTruncation x := by
  obtain ⟨key, flow, -, hit⟩ := exists_isHit_of_mem hx
  obtain ⟨v, -, -, rfl⟩ := hit.made
  exact flagsTruncation_finding policy g flow v

end Reentrancy

open Reentrancy (flagPartial FlagsTruncation)

theorem Invariant.flagsTruncation_of_mem {g : Option DependencyGraph} {judged : List JudgedInvariant}
    {x : Finding} (hx : x ∈ findings catalogue g judged) : FlagsTruncation x := by
  have hids : ∀ p ∈ catalogue.reverse,
      Text.lower p.id ≠ "" ∧ Text.lower p.id ≠ Reentrancy.category := by decide +kernel
  obtain ⟨i, -, hx⟩ := List.mem_filterMap.mp hx
  obtain ⟨p, hp, rfl⟩ := Option.map_eq_some_iff.mp hx
  have hid : p.id = i.id := by simpa using List.find?_some hp
  refine Reentrancy.flagsTruncation_of_class rfl ?_
  have h := hids p (List.mem_of_find?_eq_some hp)
  rw [hid] at h
  exact h

theorem Registry.flagsTruncation_of_mem {cs : List Contract} {x : Finding}
    (hx : x ∈ (Detection.ofContracts standard.sorted cs).findings) : FlagsTruncation x := by
  have hcategories : ∀ d ∈ Bridge.detectors ++ OutboundCall.detectors ++ Signature.detectors,
      d.category ≠ "" ∧ d.category ≠ Reentrancy.category := by decide
  obtain ⟨c, -, d, hd, fs, hfs, hx⟩ := Detection.exists_of_mem_findings hx
  have marks := isMarked_of_mem_standard hd c fs hfs x hx
  refine Reentrancy.flagsTruncation_of_class marks.flags ?_
  rw [marks.category]
  exact hcategories d (mem_detectors_of_mem_standard hd)

namespace ReportPolicy

variable {p : ReportPolicy} {fs : List Finding} {x : Finding}

/-- One flagged finding in the group of an entry puts all of them under the pairing of flag and
confidence. -/
theorem confirmed_iff_of_mem_reduce (h : ∀ f ∈ fs, FlagsTruncation f) (hx : x ∈ p.reduce fs)
    (hflag : flagPartial ∈ x.flags) :
    x.confidence = .confirmed ↔ ∃ y ∈ p.kept fs, y.key = x.key ∧ flagPartial ∉ y.flags := by
  have stands := standsFor_of_mem_reduce hx
  obtain ⟨f, ⟨hf, hkey⟩, hflag⟩ := (stands.flags _).mp hflag
  have hsubject : x.key.subject = Reentrancy.category := by
    rw [← hkey]
    exact (h f (mem_kept.mp hf).1).category hflag
  have hpair : ∀ y ∈ p.kept fs, y.key = x.key →
      (flagPartial ∉ y.flags ↔ y.confidence = .confirmed) := by
    intro y hy hk
    rw [(h y (mem_kept.mp hy).1).heuristic (by rw [hk, hsubject])]
    cases y.confidence <;> simp
  rw [stands.confirmed]
  constructor
  · rintro ⟨y, ⟨hy, hk⟩, hc⟩
    exact ⟨y, hy, hk, (hpair y hy hk).mpr hc⟩
  · rintro ⟨y, hy, hk, hc⟩
    exact ⟨y, ⟨hy, hk⟩, (hpair y hy hk).mp hc⟩

end ReportPolicy

namespace Audit

theorem Analysis.flagsTruncation_of_mem {s : Settings} {units : List SourceUnit} {x : Finding}
    (hx : x ∈ (analyze s units).findings) : FlagsTruncation x := by
  rcases List.mem_append.mp hx with hx | hx
  · rcases List.mem_append.mp hx with hx | hx
    · exact Reentrancy.flagsTruncation_of_mem hx
    · exact Invariant.flagsTruncation_of_mem hx
  · exact Registry.flagsTruncation_of_mem hx

/-- Where no invariant is judged and no detector finds anything, all findings are on reentrancy. -/
theorem Analysis.findings_eq_reentrancy (s : Settings) (units : List SourceUnit)
    (hi : Invariant.check Invariant.catalogue (Extraction.ofUnits units).contracts = [])
    (hd : ∀ c ∈ (Extraction.ofUnits units).contracts,
      ∀ d ∈ Bridge.detectors ++ OutboundCall.detectors ++ Signature.detectors,
        (d.analyze c).toOption = some []) :
    (analyze s units).findings =
      Reentrancy.findings ⟨s.reentrancyGuards, s.accountingKeywords⟩
        (some (.ofContracts (Extraction.ofUnits units).contracts))
        (Flow.all (.ofContracts (Extraction.ofUnits units).contracts) s.maxFlowDepth
          (Extraction.ofUnits units).contracts) := by
  have hdetection : (Detection.ofContracts Registry.standard.sorted
      (Extraction.ofUnits units).contracts).findings = [] := by
    refine List.eq_nil_iff_forall_not_mem.mpr fun x hx => ?_
    obtain ⟨c, hc, d, hmem, fs, hfs, hx⟩ := Detection.exists_of_mem_findings hx
    have h := hd c hc d (Registry.mem_detectors_of_mem_standard hmem)
    rw [hfs] at h
    cases h
    cases hx
  simp only [findings, analyze, StateFlow.ofContracts, hi, hdetection, List.append_nil]
  exact List.append_nil _

/-- What is found in the units that were taken in. -/
def Intake.findings (s : Settings) : Intake → List Finding
  | accepted units _ => (analyze s units).findings
  | _ => []

theorem Intake.flagsTruncation_of_mem {s : Settings} {i : Intake} {x : Finding}
    (hx : x ∈ i.findings s) : FlagsTruncation x := by
  cases i with
  | invalid e => cases hx
  | empty => cases hx
  | accepted units total => exact Analysis.flagsTruncation_of_mem hx

theorem report_eq (s : Settings) (applyFilter : Bool)
    (batch : Except BatchError (List SourceUnit)) :
    ∃ diagnostics metadata, report s applyFilter batch [] =
      (ReportPolicy.ofSettings s applyFilter).report ((Intake.ofBatch s batch).findings s) diagnostics
        metadata := by
  unfold report
  cases Intake.ofBatch s batch with
  | invalid e => exact ⟨_, _, rfl⟩
  | empty => exact ⟨_, _, rfl⟩
  | accepted units total =>
    simp only [List.append_nil]
    exact ⟨_, _, rfl⟩

/-- Before they are merged, the findings that carry the flag of a truncated flow are the heuristic ones on
reentrancy. An entry of the report with the flag is confirmed exactly if a finding without it was merged
into the entry. -/
theorem partialFlow_confirmed_iff (s : Settings) (applyFilter : Bool)
    (batch : Except BatchError (List SourceUnit)) :
    let p := ReportPolicy.ofSettings s applyFilter
    let found := (Intake.ofBatch s batch).findings s
    (∀ y ∈ found, FlagsTruncation y) ∧
    ((∃ e, riskScore p.weights p.damping (p.reduce found) = .error e ∧
        report s applyFilter batch [] = .error e) ∨
      ∃ r, report s applyFilter batch [] = .ok r ∧
        ∀ x ∈ r.findings, flagPartial ∈ x.flags →
          (x.confidence = .confirmed ↔
            ∃ y ∈ p.kept found, y.key = x.key ∧ flagPartial ∉ y.flags)) := by
  intro p found
  have hfound : ∀ y ∈ found, FlagsTruncation y := fun y hy => Intake.flagsTruncation_of_mem hy
  obtain ⟨diagnostics, metadata, hr⟩ := report_eq s applyFilter batch
  refine ⟨hfound, ?_⟩
  rw [hr]
  cases hs : riskScore p.weights p.damping (p.reduce found) with
  | error e => exact .inl ⟨e, rfl, ReportPolicy.report_of_error hs diagnostics metadata⟩
  | ok score =>
    refine .inr ⟨_, ReportPolicy.report_of_score hs diagnostics metadata, fun x hx hflag => ?_⟩
    exact ReportPolicy.confirmed_iff_of_mem_reduce hfound hx hflag

/-- Room for two frames, and a damping so small that one finding makes the score full. -/
def twoFrames : Settings := { maxFlowDepth := 2, riskDamping := 5e-324 }

theorem merged_hookedVault :
    (Report.deduplicate (analyze twoFrames Reentrancy.hookedVault).findings).map
      (fun x => (x.severity, x.flags, x.confidence)) =
        [(.critical, [flagPartial], .confirmed)] := by
  obtain ⟨hi, hd, hmerged⟩ :
      Invariant.check Invariant.catalogue
        (Extraction.ofUnits Reentrancy.hookedVault).contracts = [] ∧
      (∀ c ∈ (Extraction.ofUnits Reentrancy.hookedVault).contracts,
        ∀ d ∈ Bridge.detectors ++ OutboundCall.detectors ++ Signature.detectors,
          (d.analyze c).toOption = some []) ∧
      (Report.deduplicate (Reentrancy.findings
        ⟨twoFrames.reentrancyGuards, twoFrames.accountingKeywords⟩
        (some (.ofContracts (Extraction.ofUnits Reentrancy.hookedVault).contracts))
        (Flow.all (.ofContracts (Extraction.ofUnits Reentrancy.hookedVault).contracts)
          twoFrames.maxFlowDepth (Extraction.ofUnits Reentrancy.hookedVault).contracts))).map
            (fun x => (x.severity, x.flags, x.confidence)) =
        [(.critical, [flagPartial], .confirmed)] := by decide +kernel
  rw [Analysis.findings_eq_reentrancy twoFrames _ hi hd]
  exact hmerged

/-- With room for two frames the flow into the hook is cut off and that into the feed is whole. The entry
on both is as severe as the first, and confirmed by the second. -/
theorem partialFlow_confirmed_hookedVault :
    ∃ r, report twoFrames false (.ok Reentrancy.hookedVault) [] = .ok r ∧
      ∃ x ∈ r.findings, x.severity = .critical ∧ flagPartial ∈ x.flags ∧
        x.confidence = .confirmed := by
  obtain ⟨x, hx, hfields⟩ := List.map_eq_singleton_iff.mp merged_hookedVault
  obtain ⟨hseverity, hrest⟩ := Prod.mk.inj hfields
  obtain ⟨hflags, hconfidence⟩ := Prod.mk.inj hrest
  rw [report_of_le_cap twoFrames false [] (by decide) (by decide), List.append_nil]
  have hreduce : (ReportPolicy.ofSettings twoFrames false).reduce
      (analyze twoFrames Reentrancy.hookedVault).findings = [x.numbered] :=
    ReportPolicy.reduce_of_singleton hx
  have hsum : weightSum twoFrames.severityWeights [x.numbered] = 0.0 + 10.0 := by
    simp only [weightSum, List.foldl_cons, List.foldl_nil, Finding.numbered, hseverity]
    rfl
  -- The exponential has no value that a proof can compute; its argument is infinite here.
  obtain ⟨score, hscore⟩ : ∃ score, riskScore (ReportPolicy.ofSettings twoFrames false).weights
      (ReportPolicy.ofSettings twoFrames false).damping [x.numbered] = .ok score :=
    exists_riskScore_of_isInf (by decide +kernel) (hsum ▸ by decide +kernel)
  rw [← hreduce] at hscore
  refine ⟨_, ReportPolicy.report_of_score hscore _ _, x.numbered, ?_, hseverity, ?_, hconfidence⟩
  · rw [hreduce]
    exact List.mem_singleton_self _
  · exact hflags ▸ List.mem_singleton_self _

end Audit

end ContractAudit
