import ContractAudit.Detection
import ContractAudit.Proofs.Parts
import ContractAudit.Proofs.Table

/-!
# What detectors report

Every detector looks at one contract and reports on the functions of that contract, with the class of its
profile and without flags. So each contract has the same detector findings in whatever order the contracts come.
-/

namespace ContractAudit

/-- The finding is about the contract, of the class in the profile and without a flag. -/
structure DetectorProfile.Marks (p : DetectorProfile) (c : Contract) (x : Finding) : Prop where
  contract : x.key.contract = c.name
  category : x.vulnerabilityClass = p.category
  flags : x.flags = []

/-- Every finding of the detector bears the marks of its profile. -/
def Detector.IsMarked (d : Detector) : Prop :=
  ∀ c fs, d.analyze c = .ok fs → ∀ x ∈ fs, d.Marks c x

/-- Every finding of the detector is about the contract it looks at. -/
def Detector.IsLocal (d : Detector) : Prop :=
  ∀ c fs, d.analyze c = .ok fs → ∀ x ∈ fs, x.key.contract = c.name

theorem Detector.IsMarked.isLocal {d : Detector} (h : d.IsMarked) : d.IsLocal :=
  fun c fs hfs x hx => (h c fs hfs x hx).contract

/-- The finding bears the marks of the profile and is on a function of the contract. -/
structure DetectorProfile.Places (p : DetectorProfile) (c : Contract) (x : Finding) : Prop extends
    p.Marks c x where
  function : ∃ f ∈ c.functions, x.key.function = f.name

/-- Every finding of the detector has its place in a function of the contract it looks at. -/
def Detector.IsPlaced (d : Detector) : Prop :=
  ∀ c fs, d.analyze c = .ok fs → ∀ x ∈ fs, d.Places c x

theorem Detector.IsPlaced.isMarked {d : Detector} (h : d.IsPlaced) : d.IsMarked :=
  fun c fs hfs x hx => (h c fs hfs x hx).toMarks

theorem Detector.isPlaced_ofFindings (p : DetectorProfile) {find : Contract → List Finding}
    (h : ∀ c, ∀ x ∈ find c, p.Places c x) : (ofFindings p find).IsPlaced := by
  intro c fs hfs
  cases hfs
  exact h c

/-- One look at each implemented function. -/
theorem Detector.isPlaced_of_functions (p : DetectorProfile)
    {find? : Contract → Function → Option Finding}
    (h : ∀ c, ∀ f ∈ c.functions, ∀ x, find? c f = some x → p.Places c x) :
    (ofFindings p fun c => c.implemented.filterMap (find? c)).IsPlaced := by
  refine isPlaced_ofFindings p fun c x hx => ?_
  obtain ⟨f, hf, hx⟩ := List.mem_filterMap.mp hx
  exact h c f (List.mem_of_mem_filter hf) x hx

theorem CoLocation.isPlaced_detector (r : CoLocation) : r.detector.IsPlaced := by
  refine Detector.isPlaced_of_functions r.profile fun c f hf x hx => ?_
  unfold finding? at hx
  split at hx
  · cases hx
  · split at hx
    · cases hx
    · cases hx
      exact ⟨⟨rfl, rfl, rfl⟩, f, hf, rfl⟩

theorem Bridge.isPlaced_sourceValidation : sourceValidation.IsPlaced := by
  refine Detector.isPlaced_of_functions sourceProfile fun c f hf x hx => ?_
  unfold sourceFinding? at hx
  split at hx
  · cases hx
  · cases hx
    exact ⟨⟨rfl, rfl, rfl⟩, f, hf, rfl⟩

namespace OutboundCall

theorem isPlaced_storageCollision : storageCollision.IsPlaced := by
  refine Detector.isPlaced_ofFindings storageProfile fun c x hx => ?_
  split at hx
  · cases hx
  · obtain ⟨f, hf, hx⟩ := List.mem_filterMap.mp hx
    obtain ⟨s, -, rfl⟩ := Option.map_eq_some_iff.mp hx
    exact ⟨⟨rfl, rfl, rfl⟩, f, List.mem_of_mem_filter hf, rfl⟩

theorem isPlaced_uncheckedCall : uncheckedCall.IsPlaced := by
  refine Detector.isPlaced_of_functions uncheckedProfile fun c f hf x hx => ?_
  obtain ⟨s, -, rfl⟩ := Option.map_eq_some_iff.mp hx
  exact ⟨⟨rfl, rfl, rfl⟩, f, hf, rfl⟩

theorem isPlaced_missingAccess : missingAccess.IsPlaced := by
  refine Detector.isPlaced_of_functions accessProfile fun c f hf x hx => ?_
  unfold accessFinding? at hx
  split at hx
  · cases hx
  · obtain ⟨s, -, rfl⟩ := Option.map_eq_some_iff.mp hx
    exact ⟨⟨rfl, rfl, rfl⟩, f, hf, rfl⟩

end OutboundCall

namespace Signature

variable {c : Contract} {f : Function}

theorem mem_of_mem_callerContexts {enter : Function → Nat → List String → Contexts} {callee : String}
    (henter : ∀ f ∈ c.functions, ∀ line seen, ∀ p ∈ (enter f line seen).found, p.1 ∈ c.functions)
    {fs : List Function} (hfs : ∀ f ∈ fs, f ∈ c.functions) (seen : List String) :
    ∀ p ∈ (callerContexts enter callee fs seen).found, p.1 ∈ c.functions := by
  induction fs generalizing seen with
  | nil => simp [callerContexts]
  | cons f fs ih =>
    obtain ⟨hf, hfs⟩ := List.forall_mem_cons.mp hfs
    refine List.forall_mem_append.mpr ⟨?_, ih hfs _⟩
    split
    · simp
    · split
      · exact henter f hf _ _
      · simp

theorem mem_of_mem_contexts (hf : f ∈ c.functions) (depth line : Nat) (seen : List String) :
    ∀ p ∈ (contexts c depth f line seen).found, p.1 ∈ c.functions := by
  induction depth generalizing f line seen with
  | zero => simpa [contexts] using hf
  | succ depth ih =>
    have hcallers : ∀ p ∈ (callerContexts (contexts c depth) f.name c.implemented (f.name :: seen)).found,
        p.1 ∈ c.functions :=
      mem_of_mem_callerContexts (fun g hg line seen => ih hg line seen) (fun g hg => List.mem_of_mem_filter hg) _
    simp only [contexts]
    split
    · simpa using hf
    · split
      · simpa using hf
      · exact hcallers

theorem isPlaced_replay : replay.IsPlaced := by
  refine Detector.isPlaced_ofFindings replayProfile fun c x hx => ?_
  obtain ⟨f, hf, hx⟩ := List.mem_flatMap.mp hx
  unfold replayFindings at hx
  split at hx
  · cases hx
  · obtain ⟨⟨g, line⟩, hg, hx⟩ := List.mem_filterMap.mp hx
    simp only [replayFinding?] at hx
    split at hx
    · cases hx
    · cases hx
      have hmem := mem_of_mem_contexts (List.mem_of_mem_filter hf) _ _ _ _ hg
      exact ⟨⟨rfl, rfl, rfl⟩, g, hmem, rfl⟩

end Signature

/-! ## The registry -/

namespace Registry

theorem mem_values_foldl_register {ds : List Detector} {r : Registry} {d : Detector}
    (h : d ∈ (ds.foldl register r).values) : d ∈ r.values ∨ d ∈ ds := by
  induction ds generalizing r with
  | nil => exact .inl h
  | cons e ds ih =>
    rcases ih h with h | h
    · rcases Table.mem_values_put h with rfl | h
      · exact .inr List.mem_cons_self
      · exact .inl h
    · exact .inr (List.mem_cons_of_mem _ h)

theorem mem_detectors_of_mem_standard {d : Detector} (h : d ∈ standard.sorted) :
    d ∈ Bridge.detectors ++ OutboundCall.detectors ++ Signature.detectors :=
  (mem_values_foldl_register (List.mem_mergeSort.mp h)).resolve_left List.not_mem_nil

theorem isPlaced_of_mem_standard {d : Detector} (h : d ∈ standard.sorted) : d.IsPlaced := by
  have hd := mem_detectors_of_mem_standard h
  simp only [Bridge.detectors, OutboundCall.detectors, Signature.detectors, List.cons_append,
    List.nil_append, List.mem_cons, List.not_mem_nil, or_false] at hd
  rcases hd with rfl | rfl | rfl | rfl | rfl | rfl | rfl | rfl | rfl | rfl
  · exact CoLocation.isPlaced_detector _
  · exact CoLocation.isPlaced_detector _
  · exact CoLocation.isPlaced_detector _
  · exact CoLocation.isPlaced_detector _
  · exact Bridge.isPlaced_sourceValidation
  · exact OutboundCall.isPlaced_storageCollision
  · exact OutboundCall.isPlaced_uncheckedCall
  · exact OutboundCall.isPlaced_missingAccess
  · exact Signature.isPlaced_replay
  · exact CoLocation.isPlaced_detector _

theorem isMarked_of_mem_standard {d : Detector} (h : d ∈ standard.sorted) : d.IsMarked :=
  (isPlaced_of_mem_standard h).isMarked

theorem isLocal_of_mem_standard {d : Detector} (h : d ∈ standard.sorted) : d.IsLocal :=
  (isMarked_of_mem_standard h).isLocal

end Registry

/-! ## Runs -/

namespace Detection

variable {cs cs' : List Contract} {detectors : List Detector}

theorem findings_sameParts (h : SameParts (·.name) cs cs') (hd : ∀ d ∈ detectors, d.IsLocal) :
    SameParts (·.key.contract) (ofContracts detectors cs).findings
      (ofContracts detectors cs').findings := by
  have hruns : SameParts (·.contract) (ofContracts detectors cs) (ofContracts detectors cs') := by
    refine (h.filter _).flatMap fun c _ r hr => ?_
    obtain ⟨d, -, rfl⟩ := List.mem_map.mp hr
    rfl
  refine hruns.flatMap fun r hr x hx => ?_
  obtain ⟨c, -, hr⟩ := List.mem_flatMap.mp hr
  obtain ⟨d, hmem, rfl⟩ := List.mem_map.mp hr
  split at hx
  · rename_i fs hfs
    exact hd d hmem c fs hfs x hx
  · cases hx

theorem exists_of_mem_findings {x : Finding} (hx : x ∈ (ofContracts detectors cs).findings) :
    ∃ c ∈ cs, ∃ d ∈ detectors, ∃ fs, d.analyze c = .ok fs ∧ x ∈ fs := by
  obtain ⟨r, hr, hx⟩ := List.mem_flatMap.mp hx
  obtain ⟨c, hc, hr⟩ := List.mem_flatMap.mp hr
  obtain ⟨d, hd, rfl⟩ := List.mem_map.mp hr
  split at hx
  · rename_i fs hfs
    exact ⟨c, (List.mem_filter.mp hc).1, d, hd, fs, hfs, hx⟩
  · cases hx

theorem diagnostics_perm (h : cs.Perm cs') :
    (ofContracts detectors cs).diagnostics.Perm (ofContracts detectors cs').diagnostics :=
  ((h.filter _).flatMap_right _).filterMap _

end Detection

end ContractAudit
