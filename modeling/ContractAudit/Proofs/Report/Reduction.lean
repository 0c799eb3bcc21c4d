import ContractAudit.Proofs.Report
import ContractAudit.Proofs.Table
import Mathlib.Algebra.GroupWithZero.Nat
import Mathlib.Data.List.Perm.Subperm

/-!
# What a report keeps

Every key of a finding that gets through the filter stands exactly once in the report, and its entry
stands for all findings with that key: the entry is as severe as the worst of them, confirmed if one of
them is, shows the damage if one of them does, and has all their places, evidence and flags. The counts
in the metadata account for every finding that was taken in.
-/

namespace ContractAudit

/-! ## The filter -/

/-- Some phrase stands in the title or the description, all in lower case. -/
def Finding.Mentions (f : Finding) (phrases : List String) : Prop :=
  ∃ phrase ∈ phrases, ∃ before after,
    (Text.lower (f.title ++ " " ++ f.description)).toList = before ++ (Text.lower phrase).toList ++ after

/-- The filter is off, or the finding shows the damage or mentions no phrase of low value. -/
def ReportPolicy.Passes (p : ReportPolicy) (f : Finding) : Prop :=
  p.applyFilter = true → f.hasExploitContext = true ∨ ¬ f.Mentions p.garbageKeywords

theorem Report.mentions_iff {f : Finding} {phrases : List String} :
    mentions phrases f = true ↔ f.Mentions phrases := by
  simp only [mentions, List.any_eq_true, Text.contains, Text.occurs_iff, Finding.Mentions]

theorem Report.isWorthy_iff {f : Finding} {phrases : List String} :
    isWorthy phrases f = true ↔ f.hasExploitContext = true ∨ ¬ f.Mentions phrases := by
  rw [← mentions_iff, isWorthy, Bool.or_eq_true, Bool.not_eq_true', Bool.not_eq_true]

theorem ReportPolicy.mem_kept {p : ReportPolicy} {fs : List Finding} {f : Finding} :
    f ∈ p.kept fs ↔ f ∈ fs ∧ p.Passes f := by
  unfold kept Passes
  split
  · rename_i h
    simp only [Report.filterGarbage, List.mem_filter, Report.isWorthy_iff, h, true_imp_iff]
  · rename_i h
    simp only [h, Bool.false_eq_true, false_imp_iff, and_true]

theorem ReportPolicy.length_kept_le (p : ReportPolicy) (fs : List Finding) :
    (p.kept fs).length ≤ fs.length := by
  unfold kept
  split
  · exact List.length_filter_le _ _
  · exact Nat.le_refl _

/-! ## Merging -/

/-- The finding stands for those of a group. -/
structure Finding.StandsFor (x : Finding) (Member : Finding → Prop) : Prop where
  severity : ∃ f, Member f ∧ f.severity = x.severity
  severity_le : ∀ f, Member f → f.severity.rank ≤ x.severity.rank
  confirmed : x.confidence = .confirmed ↔ ∃ f, Member f ∧ f.confidence = .confirmed
  pocCode : isGiven x.pocCode = true ↔ ∃ f, Member f ∧ isGiven f.pocCode = true
  economicImpact : isGiven x.economicImpact = true ↔ ∃ f, Member f ∧ isGiven f.economicImpact = true
  locations : ∀ l, l ∈ x.locations ↔ ∃ f, Member f ∧ l ∈ f.locations
  evidence : ∀ e, e ∈ x.evidence ↔ ∃ f, Member f ∧ e ∈ f.evidence
  flags : ∀ l, l ∈ x.flags ↔ ∃ f, Member f ∧ l ∈ f.flags

namespace Finding.StandsFor

variable {x : Finding} {Member Member' : Finding → Prop}

theorem congr (h : x.StandsFor Member) (he : ∀ f, Member f ↔ Member' f) : x.StandsFor Member' := by
  have : Member = Member' := funext fun f => propext (he f)
  rwa [← this]

/-- The number of a finding is not part of what it says. -/
theorem numbered (h : x.StandsFor Member) : x.numbered.StandsFor Member :=
  ⟨h.severity, h.severity_le, h.confirmed, h.pocCode, h.economicImpact, h.locations, h.evidence,
    h.flags⟩

/-- A finding stands for itself. -/
theorem self (x : Finding) : x.StandsFor (· = x) := by
  constructor <;> simp

theorem hasExploitContext_iff (h : x.StandsFor Member) :
    x.hasExploitContext = true ↔ ∃ f, Member f ∧ f.hasExploitContext = true := by
  simp only [hasExploitContext, Bool.or_eq_true, h.pocCode, h.economicImpact, and_or_left, exists_or]

end Finding.StandsFor

namespace Report

theorem rank_le_lead (f : Finding) (gs : List Finding) :
    ∀ g ∈ f :: gs, g.severity.rank ≤ (lead f gs).severity.rank := by
  induction gs generalizing f with
  | nil => simp [lead]
  | cons g gs ih =>
    intro h hh
    simp only [lead]
    split
    · rename_i hlt
      rcases List.mem_cons.mp hh with rfl | hh
      · exact Nat.le_trans (Nat.le_of_lt hlt) (ih g g List.mem_cons_self)
      · exact ih g h hh
    · rename_i hle
      rcases List.mem_cons.mp hh with rfl | hh
      · exact ih h h List.mem_cons_self
      · rcases List.mem_cons.mp hh with rfl | hh
        · exact Nat.le_trans (Nat.le_of_not_lt hle) (ih f f List.mem_cons_self)
        · exact ih f h (List.mem_cons_of_mem _ hh)

/-- Of some texts the first that is given is given if one of them is. -/
theorem isGiven_findSome? (field : Finding → Option String) (group : List Finding) :
    isGiven ((group.map field).findSome? fun e => if isGiven e then e else none) = true ↔
      ∃ f, f ∈ group ∧ isGiven (field f) = true := by
  induction group with
  | nil => simp [isGiven]
  | cons f group ih =>
    cases hf : field f with
    | none => simpa [hf, isGiven] using ih
    | some s =>
      by_cases hs : s.isEmpty = true
      · simpa [hf, isGiven, hs] using ih
      · simp [hf, isGiven, hs]

/-- A group is confirmed if one of it is. -/
theorem joined_confirmed_iff (group : List Finding) :
    (if group.any (·.confidence == .confirmed) then Confidence.confirmed else .heuristic) =
      .confirmed ↔ ∃ f, f ∈ group ∧ f.confidence = .confirmed := by
  have hany : group.any (·.confidence == .confirmed) = true ↔
      ∃ f, f ∈ group ∧ f.confidence = .confirmed := by simp
  rw [← hany]
  cases group.any (·.confidence == .confirmed) <;> simp

theorem standsFor_merge (f : Finding) (gs : List Finding) :
    (merge f gs).StandsFor (· ∈ f :: gs) := by
  cases gs with
  | nil => exact (Finding.StandsFor.self f).congr fun g => by simp
  | cons g gs =>
    -- The lead gives the severity, and every other field is joined over the whole group.
    exact {
      severity := ⟨_, lead_mem f (g :: gs), rfl⟩
      severity_le := rank_le_lead f (g :: gs)
      confirmed := joined_confirmed_iff (f :: g :: gs)
      pocCode := isGiven_findSome? (·.pocCode) (f :: g :: gs)
      economicImpact := isGiven_findSome? (·.economicImpact) (f :: g :: gs)
      locations := fun _ => List.mem_eraseDups.trans List.mem_flatMap
      evidence := fun _ => List.mem_eraseDups.trans List.mem_flatMap
      flags := fun _ => List.mem_eraseDups.trans List.mem_flatMap }

/-! ## One entry for each key -/

variable {fs : List Finding} {k : FindingKey} {x : Finding}

theorem standsFor_of_group? (h : group? fs k = some x) :
    x.StandsFor fun f => f ∈ fs ∧ f.key = k := by
  unfold group? at h
  split at h
  · cases h
  · rename_i f gs hg
    cases h
    refine (standsFor_merge f gs).congr fun g => ?_
    rw [← hg, List.mem_filter, beq_iff_eq]

theorem group?_of_mem_deduplicate (hx : x ∈ deduplicate fs) : group? fs x.key = some x := by
  rw [deduplicate_eq] at hx
  obtain ⟨k, hk, hx⟩ := List.mem_filterMap.mp hx
  obtain ⟨y, hy, rfl⟩ := exists_group? (List.mem_eraseDups.mp hk)
  rw [hx] at hy
  cases hy
  exact hx

theorem length_deduplicate_le (fs : List Finding) : (deduplicate fs).length ≤ fs.length := by
  have h : (fs.map (·.key)).eraseDups.Subperm (fs.map (·.key)) :=
    (nodup_eraseDups _).subperm fun k hk => List.mem_eraseDups.mp hk
  calc (deduplicate fs).length = ((deduplicate fs).map (·.key)).length := by rw [List.length_map]
    _ = (fs.map (·.key)).eraseDups.length := by rw [map_key_deduplicate]
    _ ≤ (fs.map (·.key)).length := h.length_le
    _ = fs.length := List.length_map _

end Report

/-! ## Reports -/

/-- Every severity is counted, so each finding is counted once. -/
theorem Summary.sum_bySeverity (fs : List Finding) :
    ((ofFindings fs).bySeverity.map (·.2)).sum = fs.length := by
  induction fs with
  | nil => rfl
  | cons f fs ih =>
    simp only [ofFindings, Severity.all, List.map_cons, List.map_nil, List.sum_cons, List.sum_nil,
      List.length_cons, List.filter_cons] at ih ⊢
    cases f.severity <;> simp <;> omega

/-- An infinite argument of the exponential is no range error. -/
theorem exists_riskScore_of_isInf {weights : Table String Float} {damping : Float} {fs : List Finding}
    (hd : (damping == 0.0) = false) (hx : (-(weightSum weights fs) / damping).isInf = true) :
    ∃ score, riskScore weights damping fs = .ok score := by
  simp only [riskScore, hd, hx, Bool.not_true, Bool.and_false, Bool.false_eq_true, ↓reduceIte]
  exact ⟨_, rfl⟩

namespace ReportPolicy

variable {p : ReportPolicy} {fs : List Finding} {x : Finding}

theorem exists_of_mem_reduce (hx : x ∈ p.reduce fs) :
    ∃ y ∈ Report.deduplicate (p.kept fs), y.numbered = x := by
  obtain ⟨y, hy, rfl⟩ := List.mem_map.mp hx
  exact ⟨y, List.mem_mergeSort.mp hy, rfl⟩

theorem key_reduce_perm (p : ReportPolicy) (fs : List Finding) :
    ((p.reduce fs).map (·.key)).Perm ((p.kept fs).map (·.key)).eraseDups := by
  have h : (p.reduce fs).map (·.key) = (Report.rank (Report.deduplicate (p.kept fs))).map (·.key) := by
    rw [reduce, List.map_map]
    rfl
  rw [h, ← Report.map_key_deduplicate]
  exact (List.mergeSort_perm _ _).map _

theorem length_reduce (p : ReportPolicy) (fs : List Finding) :
    (p.reduce fs).length = (Report.deduplicate (p.kept fs)).length := by
  rw [reduce, List.length_map, Report.rank, List.length_mergeSort]

theorem reduce_of_singleton (h : Report.deduplicate (p.kept fs) = [x]) :
    p.reduce fs = [x.numbered] := by
  rw [reduce, h, Report.rank, List.mergeSort_singleton, List.map_singleton]

theorem standsFor_of_mem_reduce (hx : x ∈ p.reduce fs) :
    x.StandsFor fun f => f ∈ p.kept fs ∧ f.key = x.key := by
  obtain ⟨y, hy, rfl⟩ := exists_of_mem_reduce hx
  exact (Report.standsFor_of_group? (Report.group?_of_mem_deduplicate hy)).numbered

/-- The metadata with the counts of what was taken in, filtered out and merged. -/
def counted (p : ReportPolicy) (fs : List Finding) (metadata : Table String Json) :
    Table String Json :=
  metadata.putAll
    [("rawFindings", .ofNat fs.length), ("filteredOut", .ofNat (fs.length - (p.kept fs).length)),
     ("duplicatesMerged", .ofNat ((p.kept fs).length - (p.reduce fs).length))]

theorem report_of_error {e : ScoreError} (h : riskScore p.weights p.damping (p.reduce fs) = .error e)
    (diagnostics : List Diagnostic) (metadata : Table String Json) :
    p.report fs diagnostics metadata = .error e := by
  simp only [report, h]
  rfl

theorem report_of_score {score : Float}
    (h : riskScore p.weights p.damping (p.reduce fs) = .ok score) (diagnostics : List Diagnostic)
    (metadata : Table String Json) :
    p.report fs diagnostics metadata =
      .ok ⟨p.reduce fs, score, .ofFindings (p.reduce fs), diagnostics, p.counted fs metadata⟩ := by
  simp only [report, h]
  rfl

end ReportPolicy

/-- Two results of making a report: the same error, or reports that stand in a relation. -/
inductive Report.Both (Rel : Report → Report → Prop) :
    Except ScoreError Report → Except ScoreError Report → Prop where
  | error (e : ScoreError) : Both Rel (.error e) (.error e)
  | ok {r r' : Report} (h : Rel r r') : Both Rel (.ok r) (.ok r')

theorem ReportPolicy.report_both {Rel : Report → Report → Prop} {p : ReportPolicy}
    {fs fs' : List Finding} {ds ds' : List Diagnostic} {metadata metadata' : Table String Json}
    (hscore : riskScore p.weights p.damping (p.reduce fs) =
      riskScore p.weights p.damping (p.reduce fs'))
    (h : ∀ score, Rel
      ⟨p.reduce fs, score, .ofFindings (p.reduce fs), ds, p.counted fs metadata⟩
      ⟨p.reduce fs', score, .ofFindings (p.reduce fs'), ds', p.counted fs' metadata'⟩) :
    Report.Both Rel (p.report fs ds metadata) (p.report fs' ds' metadata') := by
  cases hs : riskScore p.weights p.damping (p.reduce fs') with
  | error e =>
    rw [hs] at hscore
    rw [report_of_error hscore, report_of_error hs]
    exact .error e
  | ok score =>
    rw [hs] at hscore
    rw [report_of_score hscore, report_of_score hs]
    exact .ok (h score)

/-- The report accounts for the findings that it is made from. -/
structure Report.Accounts (r : Report) (p : ReportPolicy) (fs : List Finding) : Prop where
  kept : ∀ f, f ∈ p.kept fs ↔ f ∈ fs ∧ p.Passes f
  exploit : ∀ f ∈ fs, f.hasExploitContext = true → f ∈ p.kept fs
  nodup : (r.findings.map (·.key)).Nodup
  keys : ∀ k, k ∈ r.findings.map (·.key) ↔ k ∈ (p.kept fs).map (·.key)
  entry : ∀ x ∈ r.findings, x.StandsFor fun f => f ∈ p.kept fs ∧ f.key = x.key
  counts : ∃ filteredOut duplicatesMerged : Nat,
    r.metadata.get? "rawFindings" = some (.ofNat fs.length) ∧
    r.metadata.get? "filteredOut" = some (.ofNat filteredOut) ∧
    r.metadata.get? "duplicatesMerged" = some (.ofNat duplicatesMerged) ∧
    filteredOut + (p.kept fs).length = fs.length ∧
    fs.length = filteredOut + duplicatesMerged + r.findings.length ∧
    fs.length = filteredOut + duplicatesMerged + (r.summary.bySeverity.map (·.2)).sum

namespace ReportPolicy

/-- Making a report fails only where the score does. Otherwise no finding that is worth reporting is
lost and none stands twice. -/
theorem report_accounts (p : ReportPolicy) (fs : List Finding) (diagnostics : List Diagnostic)
    (metadata : Table String Json) :
    (∃ e, riskScore p.weights p.damping (p.reduce fs) = .error e ∧
      p.report fs diagnostics metadata = .error e) ∨
    ∃ r, p.report fs diagnostics metadata = .ok r ∧ r.Accounts p fs := by
  cases hs : riskScore p.weights p.damping (p.reduce fs) with
  | error e => exact .inl ⟨e, rfl, report_of_error hs diagnostics metadata⟩
  | ok score =>
    refine .inr ⟨_, report_of_score hs diagnostics metadata, ?_⟩
    have hkeys := p.key_reduce_perm fs
    have hkept := p.length_kept_le fs
    have hmerged := Report.length_deduplicate_le (p.kept fs)
    rw [← p.length_reduce fs] at hmerged
    exact {
      kept := fun f => mem_kept
      exploit := fun f hf he => mem_kept.mpr ⟨hf, fun _ => .inl he⟩
      nodup := hkeys.nodup_iff.mpr (nodup_eraseDups _)
      keys := fun k => hkeys.mem_iff.trans List.mem_eraseDups
      entry := fun x hx => standsFor_of_mem_reduce hx
      counts := by
        refine ⟨fs.length - (p.kept fs).length, (p.kept fs).length - (p.reduce fs).length, ?_, ?_, ?_,
          by omega, by simp only; omega, ?_⟩
        · simp [counted, Table.putAll, Table.get?_put]
        · simp [counted, Table.putAll, Table.get?_put]
        · simp [counted, Table.putAll, Table.get?_put]
        · rw [Summary.sum_bySeverity]
          omega }

end ReportPolicy

end ContractAudit
