import ContractAudit.Proofs.Report.Reduction
import Mathlib.Data.Finset.Dedup

/-!
# The order in which findings come

The producers may deliver their findings in any order. What a group of findings is merged into depends on
the order only in its wording: the entry is as severe as the worst of the group and says of places,
evidence and flags what any of them says. The score adds up weights from the most severe finding down, so
it does not depend on the order either.
-/

namespace ContractAudit

/-! ## What an entry says -/

/-- What an entry of a report says, its wording apart. -/
structure Finding.Outline where
  id : String
  key : FindingKey
  severity : Severity
  confidence : Confidence
  showsDamage : Bool
  locations : Finset Location
  evidence : Finset String
  flags : Finset String
  deriving DecidableEq

def Finding.outline (f : Finding) : Outline where
  id := f.id
  key := f.key
  severity := f.severity
  confidence := f.confidence
  showsDamage := f.hasExploitContext
  locations := f.locations.toFinset
  evidence := f.evidence.toFinset
  flags := f.flags.toFinset

namespace Finding.StandsFor

variable {x y : Finding} {Member : Finding → Prop}

theorem severity_eq (hx : x.StandsFor Member) (hy : y.StandsFor Member) : x.severity = y.severity := by
  obtain ⟨f, hf, hfx⟩ := hx.severity
  obtain ⟨g, hg, hgy⟩ := hy.severity
  have hxy := hy.severity_le f hf
  have hyx := hx.severity_le g hg
  rw [hfx] at hxy
  rw [hgy] at hyx
  exact Severity.rank_inj.mp (Nat.le_antisymm hxy hyx)

theorem confidence_eq (hx : x.StandsFor Member) (hy : y.StandsFor Member) :
    x.confidence = y.confidence := by
  have h : x.confidence = .confirmed ↔ y.confidence = .confirmed := hx.confirmed.trans hy.confirmed.symm
  cases hxc : x.confidence <;> cases hyc : y.confidence <;> simp_all

theorem hasExploitContext_eq (hx : x.StandsFor Member) (hy : y.StandsFor Member) :
    x.hasExploitContext = y.hasExploitContext :=
  Bool.eq_iff_iff.mpr (hx.hasExploitContext_iff.trans hy.hasExploitContext_iff.symm)

/-- Two findings that stand for one group say the same under one number and key. -/
theorem outline_eq (hx : x.StandsFor Member) (hy : y.StandsFor Member) (hid : x.id = y.id)
    (hkey : x.key = y.key) : x.outline = y.outline := by
  have hlocations : x.locations.toFinset = y.locations.toFinset := by
    ext l
    rw [List.mem_toFinset, List.mem_toFinset, hx.locations, hy.locations]
  have hevidence : x.evidence.toFinset = y.evidence.toFinset := by
    ext e
    rw [List.mem_toFinset, List.mem_toFinset, hx.evidence, hy.evidence]
  have hflags : x.flags.toFinset = y.flags.toFinset := by
    ext l
    rw [List.mem_toFinset, List.mem_toFinset, hx.flags, hy.flags]
  rw [outline, outline, hid, hkey, hx.severity_eq hy, hx.confidence_eq hy, hx.hasExploitContext_eq hy,
    hlocations, hevidence, hflags]

end Finding.StandsFor

/-! ## What the counts and the score depend on -/

theorem Summary.ofFindings_eq_of_perm {fs fs' : List Finding}
    (h : (fs.map (·.severity)).Perm (fs'.map (·.severity))) : ofFindings fs = ofFindings fs' := by
  have hlen : fs.length = fs'.length := by simpa using h.length_eq
  have hcount (s : Severity) :
      (fs.filter (·.severity == s)).length = (fs'.filter (·.severity == s)).length := by
    have hs := h.countP_eq (· == s)
    rwa [List.countP_map, List.countP_map, List.countP_eq_length_filter,
      List.countP_eq_length_filter] at hs
  simp only [ofFindings, hlen, hcount]

theorem riskScore_eq_of_severities {fs fs' : List Finding}
    (h : fs.map (·.severity) = fs'.map (·.severity)) (weights : Table String Float) (damping : Float) :
    riskScore weights damping fs = riskScore weights damping fs' := by
  have hsum (gs : List Finding) : weightSum weights gs = (gs.map (·.severity)).foldl
      (fun sum s => sum + (weights.get? s.word).getD 0.0) 0.0 := by
    rw [weightSum, List.foldl_map]
  simp only [riskScore, hsum, h]

theorem Report.severity_le_of_rank_le {f g : Finding}
    (h : ((rankKey f).compare (rankKey g)).isLE = true) : g.severity.rank ≤ f.severity.rank := by
  have hle : (rankKey f).severity ≤ (rankKey g).severity := by
    rw [RankKey.compare, Ordering.isLE_then_iff_and] at h
    exact Nat.isLE_compare.mp h.1
  have hf := f.severity.rank_le
  have hg := g.severity.rank_le
  simp only [rankKey] at hle
  omega

namespace ReportPolicy

variable {p : ReportPolicy} {fs fs' : List Finding} {x y : Finding}

theorem kept_perm (p : ReportPolicy) (h : fs.Perm fs') : (p.kept fs).Perm (p.kept fs') := by
  unfold kept
  split
  · exact h.filter _
  · exact h

theorem key_reduce_perm_of_perm (p : ReportPolicy) (h : fs.Perm fs') :
    ((p.reduce fs).map (·.key)).Perm ((p.reduce fs').map (·.key)) := by
  have hkeys : ((p.kept fs).map (·.key)).eraseDups.Perm ((p.kept fs').map (·.key)).eraseDups :=
    perm_eraseDups fun k => ((p.kept_perm h).map _).mem_iff
  exact (p.key_reduce_perm fs).trans (hkeys.trans (p.key_reduce_perm fs').symm)

theorem id_of_mem_reduce (hx : x ∈ p.reduce fs) : x.id = x.computedId := by
  obtain ⟨y, -, rfl⟩ := exists_of_mem_reduce hx
  rfl

theorem outline_eq_of_key_eq (h : fs.Perm fs') (hx : x ∈ p.reduce fs) (hy : y ∈ p.reduce fs')
    (hkey : x.key = y.key) : x.outline = y.outline := by
  have hx' := standsFor_of_mem_reduce hx
  have hy' : y.StandsFor fun f => f ∈ p.kept fs ∧ f.key = x.key :=
    (standsFor_of_mem_reduce hy).congr fun f => by rw [(p.kept_perm h).mem_iff, hkey]
  refine hx'.outline_eq hy' ?_ hkey
  rw [id_of_mem_reduce hx, id_of_mem_reduce hy, Finding.computedId, Finding.computedId, hkey]

theorem nodup_outline_reduce (p : ReportPolicy) (fs : List Finding) :
    ((p.reduce fs).map Finding.outline).Nodup := by
  refine List.Nodup.of_map Finding.Outline.key ?_
  rw [List.map_map]
  exact (p.key_reduce_perm fs).nodup_iff.mpr (nodup_eraseDups _)

theorem outline_mem_of_perm (h : fs.Perm fs') {o : Finding.Outline}
    (ho : o ∈ (p.reduce fs).map Finding.outline) : o ∈ (p.reduce fs').map Finding.outline := by
  obtain ⟨x, hx, rfl⟩ := List.mem_map.mp ho
  have hkey : x.key ∈ (p.reduce fs').map (·.key) :=
    (p.key_reduce_perm_of_perm h).mem_iff.mp (List.mem_map_of_mem hx)
  obtain ⟨y, hy, hyx⟩ := List.mem_map.mp hkey
  rw [outline_eq_of_key_eq h hx hy hyx.symm]
  exact List.mem_map_of_mem hy

theorem outline_reduce_perm (p : ReportPolicy) (h : fs.Perm fs') :
    ((p.reduce fs).map Finding.outline).Perm ((p.reduce fs').map Finding.outline) := by
  rw [List.perm_ext_iff_of_nodup (p.nodup_outline_reduce fs) (p.nodup_outline_reduce fs')]
  exact fun o => ⟨outline_mem_of_perm h, outline_mem_of_perm h.symm⟩

theorem severity_reduce_perm (p : ReportPolicy) (h : fs.Perm fs') :
    ((p.reduce fs).map (·.severity)).Perm ((p.reduce fs').map (·.severity)) := by
  have hp := (p.outline_reduce_perm h).map Finding.Outline.severity
  rw [List.map_map, List.map_map] at hp
  exact hp

theorem pairwise_severity_reduce (p : ReportPolicy) (fs : List Finding) :
    ((p.reduce fs).map (·.severity)).Pairwise fun a b => b.rank ≤ a.rank := by
  rw [reduce, List.map_map, List.pairwise_map]
  have hsorted := List.pairwise_mergeSort Report.rank_le_trans Report.rank_le_total
    (Report.deduplicate (p.kept fs))
  exact hsorted.imp fun hab => Report.severity_le_of_rank_le hab

/-- The severities of a report stand from the worst down, so their order is given by which they are. -/
theorem severity_reduce_eq (p : ReportPolicy) (h : fs.Perm fs') :
    (p.reduce fs).map (·.severity) = (p.reduce fs').map (·.severity) := by
  refine (p.severity_reduce_perm h).eq_of_pairwise (fun a b _ _ hab hba => ?_)
    (p.pairwise_severity_reduce fs) (p.pairwise_severity_reduce fs')
  exact Severity.rank_inj.mp (Nat.le_antisymm hba hab)

end ReportPolicy

/-! ## Reports -/

/-- Two reports with the same entries in other words, the same score and the same counts. -/
structure Report.SameVerdicts (r r' : Report) : Prop where
  outlines : (r.findings.map Finding.outline).Perm (r'.findings.map Finding.outline)
  /-- No two entries have one outline. -/
  distinct : (r.findings.map Finding.outline).Nodup
  riskScore : r.riskScore = r'.riskScore
  summary : r.summary = r'.summary
  /-- The counts of what was taken in, filtered out and merged are among it. -/
  metadata : r.metadata = r'.metadata

namespace ReportPolicy

variable {fs fs' : List Finding}

/-- The order in which findings come does not change what the report says about them, the wording of
merged entries apart. -/
theorem report_verdicts_of_perm (p : ReportPolicy) (h : fs.Perm fs') (diagnostics : List Diagnostic)
    (metadata : Table String Json) :
    Report.Both Report.SameVerdicts (p.report fs diagnostics metadata)
      (p.report fs' diagnostics metadata) := by
  have hseverities := p.severity_reduce_eq h
  have hlength : (p.reduce fs).length = (p.reduce fs').length := by
    simpa using congrArg List.length hseverities
  refine report_both (riskScore_eq_of_severities hseverities p.weights p.damping) fun score => ?_
  exact {
    outlines := p.outline_reduce_perm h
    distinct := p.nodup_outline_reduce fs
    riskScore := rfl
    summary := Summary.ofFindings_eq_of_perm (p.severity_reduce_perm h)
    metadata := by
      simp only [counted, h.length_eq, (p.kept_perm h).length_eq, hlength] }

/-- A finding without a place, told apart by its title. -/
def placeless : Finding where
  title := "replay"
  severity := .low
  description := "a message is accepted twice"
  confidence := .confirmed
  flags := ["manual"]

/-- A finding at a place without names, told apart by its class. -/
def nameless : Finding where
  title := "Message replay"
  severity := .high
  description := "no nonce is consumed"
  locations := [⟨"", "", some 7, "Bridge.sol"⟩]
  vulnerabilityClass := "replay"

theorem report_verdicts_of_perm_replay :
    placeless.key = nameless.key ∧ [placeless, nameless].Perm [nameless, placeless] ∧
      Report.Both Report.SameVerdicts
        ((ReportPolicy.ofSettings {} true).report [placeless, nameless] [] [])
        ((ReportPolicy.ofSettings {} true).report [nameless, placeless] [] []) := by
  have hp : [placeless, nameless].Perm [nameless, placeless] := .swap _ _ _
  exact ⟨by decide, hp, report_verdicts_of_perm (.ofSettings {} true) hp [] []⟩

end ReportPolicy

end ContractAudit
