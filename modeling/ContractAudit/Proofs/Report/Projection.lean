import ContractAudit.Proofs.Report.Reduction

/-!
# The report of a report

The findings of a report need no further reduction: a merged finding has the wording of one of its
group and the damage that any of them shows, so it gets through the filter again; no two have one key;
and they stand in order, with their numbers. A report made from them has the same findings, score and
summary, and nothing is filtered out or merged.
-/

namespace ContractAudit

namespace Report

/-! ## The filter -/

theorem title_merge (f : Finding) (gs : List Finding) : (merge f gs).title = (lead f gs).title := by
  cases gs <;> rfl

theorem description_merge (f : Finding) (gs : List Finding) :
    (merge f gs).description = (lead f gs).description := by
  cases gs <;> rfl

theorem passes_merge {p : ReportPolicy} {f : Finding} {gs : List Finding}
    (h : ∀ g ∈ f :: gs, p.Passes g) : p.Passes (merge f gs) := by
  intro hp
  have hlead := lead_mem f gs
  rcases h _ hlead hp with he | hm
  · exact .inl ((standsFor_merge f gs).hasExploitContext_iff.mpr ⟨_, hlead, he⟩)
  · refine .inr ?_
    rwa [Finding.Mentions, title_merge, description_merge]

theorem passes_of_mem_deduplicate {p : ReportPolicy} {fs : List Finding} {x : Finding}
    (h : ∀ f ∈ fs, p.Passes f) (hx : x ∈ deduplicate fs) : p.Passes x := by
  have hg := group?_of_mem_deduplicate hx
  unfold group? at hg
  split at hg
  · cases hg
  · rename_i f gs hfs
    cases hg
    refine passes_merge fun g hg => h g ?_
    rw [← hfs] at hg
    exact (List.mem_filter.mp hg).1

/-! ## Merging -/

variable {fs : List Finding} {f : Finding}

theorem filter_key_of_nodup (hn : (fs.map (·.key)).Nodup) (hf : f ∈ fs) :
    fs.filter (·.key == f.key) = [f] := by
  induction fs with
  | nil => cases hf
  | cons g fs ih =>
    rw [List.map_cons, List.nodup_cons] at hn
    rcases List.mem_cons.mp hf with rfl | hf
    · have hnone : fs.filter (·.key == f.key) = [] := by
        refine List.filter_eq_nil_iff.mpr fun g hg he => hn.1 ?_
        rw [← eq_of_beq he]
        exact List.mem_map_of_mem hg
      simp [hnone]
    · have hne : g.key ≠ f.key := fun he => hn.1 (he ▸ List.mem_map_of_mem hf)
      simp [hne, ih hn.2 hf]

/-- Where no key stands twice there is nothing to merge. -/
theorem deduplicate_of_nodup (hn : (fs.map (·.key)).Nodup) : deduplicate fs = fs := by
  have hgroup : ∀ f ∈ fs, (group? fs ∘ (·.key)) f = some f := by
    intro f hf
    simp only [Function.comp_apply, group?, filter_key_of_nodup hn hf]
    rfl
  rw [deduplicate_eq, eraseDups_of_nodup hn, List.filterMap_map, List.filterMap_congr hgroup,
    List.filterMap_some]

end Report

/-! ## The whole reduction -/

namespace ReportPolicy

variable {p : ReportPolicy} {fs : List Finding}

theorem kept_eq_self (h : ∀ f ∈ fs, p.Passes f) : p.kept fs = fs := by
  unfold kept
  split
  · rename_i hp
    exact List.filter_eq_self.mpr fun f hf => Report.isWorthy_iff.mpr (h f hf hp)
  · rfl

theorem kept_reduce (p : ReportPolicy) (fs : List Finding) : p.kept (p.reduce fs) = p.reduce fs := by
  refine kept_eq_self fun x hx => ?_
  obtain ⟨y, hy, rfl⟩ := exists_of_mem_reduce hx
  have hp : p.Passes y :=
    Report.passes_of_mem_deduplicate (fun f hf => (mem_kept.mp hf).2) hy
  exact hp

theorem deduplicate_reduce (p : ReportPolicy) (fs : List Finding) :
    Report.deduplicate (p.reduce fs) = p.reduce fs :=
  Report.deduplicate_of_nodup ((p.key_reduce_perm fs).nodup_iff.mpr (nodup_eraseDups _))

theorem rank_reduce (p : ReportPolicy) (fs : List Finding) :
    Report.rank (p.reduce fs) = p.reduce fs := by
  refine List.mergeSort_of_pairwise (List.pairwise_map.mpr ?_)
  exact List.pairwise_mergeSort Report.rank_le_trans Report.rank_le_total _

theorem numbered_reduce (p : ReportPolicy) (fs : List Finding) :
    (p.reduce fs).map Finding.numbered = p.reduce fs := by
  rw [reduce, List.map_map]
  rfl

theorem reduce_reduce (p : ReportPolicy) (fs : List Finding) : p.reduce (p.reduce fs) = p.reduce fs := by
  calc p.reduce (p.reduce fs)
      = (Report.rank (Report.deduplicate (p.kept (p.reduce fs)))).map Finding.numbered := rfl
    _ = (Report.rank (p.reduce fs)).map Finding.numbered := by rw [kept_reduce, deduplicate_reduce]
    _ = p.reduce fs := by rw [rank_reduce, numbered_reduce]

/-- A report made from the findings of a report is the same report, the diagnostics and metadata it is
given apart, and counts nothing as filtered out or merged. -/
theorem report_report (p : ReportPolicy) (fs : List Finding) (diagnostics diagnostics' : List Diagnostic)
    (metadata metadata' : Table String Json) :
    (do let r ← p.report fs diagnostics metadata
        p.report r.findings diagnostics' metadata') =
    (do let r ← p.report fs diagnostics metadata
        return { r with
          diagnostics := diagnostics'
          metadata := metadata'.putAll
            [("rawFindings", .ofNat r.findings.length), ("filteredOut", .ofNat 0),
             ("duplicatesMerged", .ofNat 0)] }) := by
  cases hs : riskScore p.weights p.damping (p.reduce fs) with
  | error e =>
    rw [report_of_error hs]
    rfl
  | ok score =>
    have hs' : riskScore p.weights p.damping (p.reduce (p.reduce fs)) = .ok score := by
      rw [reduce_reduce, hs]
    have hcounts : p.counted (p.reduce fs) metadata' = metadata'.putAll
        [("rawFindings", .ofNat (p.reduce fs).length), ("filteredOut", .ofNat 0),
         ("duplicatesMerged", .ofNat 0)] := by
      rw [counted, kept_reduce, reduce_reduce, Nat.sub_self]
    rw [report_of_score hs]
    calc p.report (p.reduce fs) diagnostics' metadata'
        = .ok ⟨p.reduce (p.reduce fs), score, .ofFindings (p.reduce (p.reduce fs)), diagnostics',
            p.counted (p.reduce fs) metadata'⟩ := report_of_score hs' diagnostics' metadata'
      _ = _ := by
        rw [reduce_reduce, hcounts]
        rfl

end ReportPolicy

end ContractAudit
