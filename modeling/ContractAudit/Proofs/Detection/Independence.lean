import ContractAudit.Proofs.Detection
import ContractAudit.Proofs.Report.Reduction
import Mathlib.Data.List.ProdSigma

/-!
# Detectors do not depend on each other

The standard detectors have distinct classes and never fail, and each finding bears the class of its
detector. So findings with one key come from one detector, and the order of the detectors does not show
in a report. Detectors that fail or find nothing leave no trace in the findings; each failure is one
diagnostic.
-/

namespace ContractAudit

namespace Detector

/-- What the detector finds in the contract; nothing if it fails. -/
def found (d : Detector) (c : Contract) : List Finding :=
  match d.analyze c with
  | .ok fs => fs
  | .error _ => []

/-- The diagnostic on the detector, if it fails on the contract. -/
def failure? (d : Detector) (c : Contract) : Option Diagnostic :=
  match d.analyze c with
  | .ok _ => none
  | .error reason =>
    some { code := .detectorFailed, message := d.id ++ " failed: " ++ reason, source := c.name }

/-- The detector fails on the contract or finds nothing. -/
def IsQuiet (d : Detector) (c : Contract) : Prop := ∀ fs, d.analyze c = .ok fs → fs = []

theorem found_of_isQuiet {d : Detector} {c : Contract} (h : d.IsQuiet c) : d.found c = [] := by
  unfold found
  split
  · rename_i fs hfs
    exact h fs hfs
  · rfl

theorem subject_of_mem_found {d : Detector} {c : Contract} {x : Finding} (h : d.IsMarked)
    (hn : d.category ≠ "") (hx : x ∈ d.found c) : x.key.subject = d.category := by
  unfold found at hx
  split at hx
  · rename_i fs hfs
    have hc := (h c fs hfs x hx).category
    simp [Finding.key, hc, hn]
  · cases hx

end Detector

namespace Detection

variable (detectors : List Detector) (cs : List Contract)

theorem findings_eq :
    (ofContracts detectors cs).findings =
      (cs.filter (·.kind != .interface)).flatMap fun c => detectors.flatMap (·.found c) := by
  rw [findings, ofContracts, List.flatMap_assoc]
  simp only [List.flatMap_map]
  rfl

theorem diagnostics_eq :
    (ofContracts detectors cs).diagnostics =
      (cs.filter (·.kind != .interface)).flatMap fun c => detectors.filterMap (·.failure? c) := by
  rw [diagnostics, ofContracts, List.filterMap_flatMap]
  simp only [List.filterMap_map]
  rfl

end Detection

/-- Detectors that tell their findings apart by their classes and never fail. -/
structure Detector.Independent (ds : List Detector) : Prop where
  marked : ∀ d ∈ ds, d.IsMarked
  named : ∀ d ∈ ds, d.category ≠ ""
  distinct : (ds.map (·.category)).Nodup
  total : ∀ d ∈ ds, ∀ c, ∃ fs, d.analyze c = .ok fs

theorem Registry.independent_standard : Detector.Independent standard.sorted where
  marked _ := isMarked_of_mem_standard
  named d hd := by
    have hall : ∀ e ∈ Bridge.detectors ++ OutboundCall.detectors ++ Signature.detectors,
        e.category ≠ "" := by decide
    exact hall d (mem_detectors_of_mem_standard hd)
  distinct := by
    have hp : standard.sorted.Perm standard.values := List.mergeSort_perm _ _
    rw [(hp.map _).nodup_iff]
    decide +kernel
  total d hd c := by
    have hd := mem_detectors_of_mem_standard hd
    simp only [Bridge.detectors, OutboundCall.detectors, Signature.detectors, List.cons_append,
      List.nil_append, List.mem_cons, List.not_mem_nil, or_false] at hd
    rcases hd with rfl | rfl | rfl | rfl | rfl | rfl | rfl | rfl | rfl | rfl <;> exact ⟨_, rfl⟩

namespace Detector.Independent

variable {ds detectors additional : List Detector} {c : Contract} {cs : List Contract}

/-- The detectors that find something change places, and the others do not show. -/
theorem found_sameParts (h : Independent ds) (hp : detectors.Perm (ds ++ additional))
    (hq : ∀ d ∈ additional, d.IsQuiet c) :
    SameParts Finding.key (detectors.flatMap (·.found c)) (ds.flatMap (·.found c)) := by
  have hloud : ∀ es : List Detector,
      es.flatMap (·.found c) = (es.filter fun d => ! (d.found c).isEmpty).flatMap (·.found c) := by
    intro es
    induction es with
    | nil => rfl
    | cons d es ih =>
      by_cases hd : d.found c = []
      · simp [hd, ih]
      · simp [hd, ih]
  have hquiet : additional.filter (fun d => ! (d.found c).isEmpty) = [] := by
    rw [List.filter_eq_nil_iff]
    intro d hd
    simp [found_of_isQuiet (hq d hd)]
  have hperm : (ds.filter fun d => ! (d.found c).isEmpty).Perm
      (detectors.filter fun d => ! (d.found c).isEmpty) := by
    have hf := hp.filter fun d => ! (d.found c).isEmpty
    rw [List.filter_append, hquiet, List.append_nil] at hf
    exact hf.symm
  have hnodup : ((ds.filter fun d => ! (d.found c).isEmpty).map (·.category)).Nodup :=
    h.distinct.sublist (List.filter_sublist.map _)
  have hsubject : SameParts (·.key.subject) (ds.flatMap (·.found c)) (detectors.flatMap (·.found c)) := by
    rw [hloud ds, hloud detectors]
    refine (SameParts.of_perm hperm hnodup).flatMap fun d hd x hx => ?_
    have hmem := (List.mem_filter.mp hd).1
    exact subject_of_mem_found (h.marked d hmem) (h.named d hmem) hx
  have hkey : SameParts Finding.key (ds.flatMap (·.found c)) (detectors.flatMap (·.found c)) :=
    hsubject.of_coarse fun _ => rfl
  exact fun k => (hkey k).symm

theorem findings_sameParts (h : Independent ds) (hp : detectors.Perm (ds ++ additional))
    (hq : ∀ d ∈ additional, ∀ c ∈ cs, d.IsQuiet c) :
    SameParts Finding.key (Detection.ofContracts detectors cs).findings
      (Detection.ofContracts ds cs).findings := by
  rw [Detection.findings_eq, Detection.findings_eq]
  refine SameParts.flatMap_congr fun c hc => h.found_sameParts hp fun d hd => ?_
  exact hq d hd c (List.mem_filter.mp hc).1

theorem failures_eq_nil (h : Independent ds) (c : Contract) : ds.filterMap (·.failure? c) = [] := by
  rw [List.filterMap_eq_nil_iff]
  intro d hd
  obtain ⟨fs, hfs⟩ := h.total d hd c
  rw [failure?, hfs]

/-- There is one diagnostic for each contract with code and each detector that fails on it. -/
theorem diagnostics_perm (h : Independent ds) (hp : detectors.Perm (ds ++ additional)) :
    (Detection.ofContracts detectors cs).diagnostics.Perm
      (((cs.filter (·.kind != .interface)).product additional).filterMap fun (c, d) => d.failure? c) := by
  have hpairs : ((cs.filter (·.kind != .interface)).product additional).filterMap
      (fun (c, d) => d.failure? c) =
      (cs.filter (·.kind != .interface)).flatMap fun c => additional.filterMap (·.failure? c) := by
    rw [List.product, List.filterMap_flatMap]
    simp only [List.filterMap_map]
    rfl
  rw [Detection.diagnostics_eq, hpairs]
  refine List.Perm.flatMap_left _ fun c _ => ?_
  have hf := hp.filterMap (·.failure? c)
  rwa [List.filterMap_append, h.failures_eq_nil, List.nil_append] at hf

end Detector.Independent

/-- Two reports that differ at most in their diagnostics. -/
def Report.DiffersInDiagnostics (r r' : Report) : Prop := r = { r' with diagnostics := r.diagnostics }

theorem ReportPolicy.report_of_sameKeys (p : ReportPolicy) {fs fs' : List Finding}
    (h : SameParts Finding.key fs fs') (ds ds' : List Diagnostic) (metadata : Table String Json) :
    Report.Both Report.DiffersInDiagnostics (p.report fs ds metadata) (p.report fs' ds' metadata) := by
  have hred := p.reduce_eq_of_sameKeys h
  refine report_both (by rw [hred]) fun score => ?_
  have hcount : p.counted fs metadata = p.counted fs' metadata := by
    rw [counted, counted, hred, h.perm.length_eq, (p.kept_sameParts h).perm.length_eq]
  rw [Report.DiffersInDiagnostics, hred, hcount]

/-- However the standard detectors are ordered and whatever detectors that fail or find nothing stand
between them, the report says the same, and each failure is one diagnostic. -/
theorem Detection.detectors_independent {detectors additional : List Detector} {cs : List Contract}
    (hp : detectors.Perm (Registry.standard.sorted ++ additional))
    (hq : ∀ d ∈ additional, ∀ c ∈ cs, d.IsQuiet c) (p : ReportPolicy) (flow extra : List Finding)
    (ds ds' : List Diagnostic) (metadata : Table String Json) :
    Report.Both Report.DiffersInDiagnostics
      (p.report (flow ++ (ofContracts detectors cs).findings ++ extra) ds metadata)
      (p.report (flow ++ (ofContracts Registry.standard.sorted cs).findings ++ extra) ds' metadata) ∧
    (ofContracts detectors cs).diagnostics.Perm
      (((cs.filter (·.kind != .interface)).product additional).filterMap fun (c, d) => d.failure? c) := by
  have hind := Registry.independent_standard
  have hkeys := hind.findings_sameParts hp hq
  have hall : SameParts Finding.key (flow ++ (ofContracts detectors cs).findings ++ extra)
      (flow ++ (ofContracts Registry.standard.sorted cs).findings ++ extra) :=
    ((SameParts.refl _ flow).append hkeys).append (SameParts.refl _ extra)
  exact ⟨p.report_of_sameKeys hall ds ds' metadata, hind.diagnostics_perm hp⟩

namespace Detection

def failing : Detector where
  id := "TEST-BOOM"
  name := "Exploding"
  category := "test"
  analyze _ := .error "boom"

def silent : Detector where
  id := "XC-TEST-001"
  name := "Custom"
  category := "custom"
  analyze _ := .ok []

/-- The standard detectors from the last to the first, a failing one before and a silent one after. -/
def surrounded : List Detector := failing :: (Registry.standard.sorted.reverse ++ [silent])

def emptyVault : Contract where
  name := "Vault"
  kind := .contract
  sourceName := "Vault.sol"
  sourcePath := ""
  bases := []
  stateVariables := []
  functions := []
  modifierNames := []
  typeNames := []
  line := 1

theorem detectors_independent_surrounded :
    Report.Both Report.DiffersInDiagnostics
      (ReportPolicy.report ⟨[], [], 1, true⟩
        ([] ++ (ofContracts surrounded [emptyVault, { emptyVault with kind := .interface }]).findings ++ [])
        [] [])
      (ReportPolicy.report ⟨[], [], 1, true⟩
        ([] ++ (ofContracts Registry.standard.sorted
          [emptyVault, { emptyVault with kind := .interface }]).findings ++ []) [] []) ∧
    (ofContracts surrounded [emptyVault, { emptyVault with kind := .interface }]).diagnostics =
      [{ code := .detectorFailed, message := "TEST-BOOM failed: boom", source := "Vault" }] := by
  have hp : surrounded.Perm (Registry.standard.sorted ++ [failing, silent]) :=
    List.perm_middle.symm.trans ((List.reverse_perm _).append_right _)
  have hq : ∀ d ∈ [failing, silent], ∀ c ∈ [emptyVault, { emptyVault with kind := .interface }],
      d.IsQuiet c := by
    intro d hd c _ fs hfs
    simp only [List.mem_cons, List.not_mem_nil, or_false] at hd
    rcases hd with rfl | rfl
    · cases hfs
    · cases hfs
      rfl
  obtain ⟨hreport, hdiagnostics⟩ := detectors_independent hp hq ⟨[], [], 1, true⟩ [] [] [] [] []
  exact ⟨hreport, List.perm_singleton.mp hdiagnostics⟩

end Detection

end ContractAudit
