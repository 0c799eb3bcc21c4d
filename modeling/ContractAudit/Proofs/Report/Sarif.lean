import ContractAudit.Proofs.Report.Arrival
import ContractAudit.Report.Sarif

/-!
# What a reader of a SARIF log finds

A reader follows the fields of a log down to its rules and results. The results of a report stand for its findings,
one by one. The rules are described by the first findings that fall under them, and a report has its most severe
findings first, so a rule bears the highest level and score of all findings that fall under it. Every finding of a
report has a number, so it falls under some rule even if it names neither a detector nor a class.
-/

namespace ContractAudit

namespace Json

/-- What a path of fields leads to. -/
def at? : List String → Json → Option Json
  | [], j => some j
  | key :: path, j => (j.field? key).bind (at? path)

def elements? : Json → Option (List Json)
  | arr items => some items
  | _ => none

def text? : Json → Option String
  | str s => some s
  | _ => none

end Json

namespace Sarif

/-! ## Reading a log -/

/-- A rule as a log has it. -/
structure RuleEntry where
  id : String
  level : String
  securitySeverity : String

/-- A result as a log has it. -/
structure ResultEntry where
  ruleId : String
  level : String
  message : String
  fingerprint : String

structure LogEntries where
  rules : List RuleEntry
  results : List ResultEntry

def RuleEntry.read? (j : Json) : Option RuleEntry := do
  let id ← (j.at? ["id"]).bind (·.text?)
  let level ← (j.at? ["defaultConfiguration", "level"]).bind (·.text?)
  let score ← (j.at? ["properties", "security-severity"]).bind (·.text?)
  return ⟨id, level, score⟩

def ResultEntry.read? (j : Json) : Option ResultEntry := do
  let ruleId ← (j.at? ["ruleId"]).bind (·.text?)
  let level ← (j.at? ["level"]).bind (·.text?)
  let message ← (j.at? ["message", "text"]).bind (·.text?)
  let fingerprint ← (j.at? ["partialFingerprints", "primaryLocationLineHash"]).bind (·.text?)
  return ⟨ruleId, level, message, fingerprint⟩

/-- The rules and results of a log with one run. -/
def LogEntries.read? (log : Json) : Option LogEntries := do
  match ← (log.at? ["runs"]).bind (·.elements?) with
  | [run] =>
    let rules ← (run.at? ["tool", "driver", "rules"]).bind (·.elements?)
    let results ← (run.at? ["results"]).bind (·.elements?)
    return ⟨← rules.mapM RuleEntry.read?, ← results.mapM ResultEntry.read?⟩
  | _ => none

def Rule.entry (r : Rule) : RuleEntry := ⟨r.id, (level r.severity).word, scoreText r.severity⟩

/-- The result that stands for a finding. -/
def resultEntry (f : Finding) : ResultEntry := ⟨ruleId f, (level f.severity).word, f.description, f.id⟩

theorem mapM_map_eq_some {α β γ : Type} {write : α → β} {read? : β → Option γ} {entry : α → γ}
    (h : ∀ x, read? (write x) = some (entry x)) (xs : List α) :
    (xs.map write).mapM read? = some (xs.map entry) := by
  induction xs with
  | nil => rfl
  | cons x xs ih => simp [h, ih]

theorem read?_document (toolVersion : String) (fs : List Finding) :
    LogEntries.read? (document toolVersion fs) =
      some ⟨(rules fs).map Rule.entry, fs.map resultEntry⟩ := by
  have hrule (r : Rule) : RuleEntry.read? r.document = some r.entry := rfl
  have hresult (f : Finding) : ResultEntry.read? (Result.mk (ruleId f) f).document = some (resultEntry f) := rfl
  have hread : LogEntries.read? (document toolVersion fs) = do
      return ⟨← ((rules fs).map (·.document)).mapM RuleEntry.read?,
        ← ((results fs).map (·.document)).mapM ResultEntry.read?⟩ := rfl
  have hresults : (results fs).map (·.document) = fs.map fun f => (Result.mk (ruleId f) f).document := by
    rw [results, List.map_map]
    rfl
  rw [hread, hresults, mapM_map_eq_some hrule, mapM_map_eq_some hresult]
  rfl

/-! ## Rules -/

variable {fs : List Finding} {f g : Finding}

/-- Every rule that a finding falls under has a first finding. -/
theorem exists_first {id : String} (h : id ∈ fs.map ruleId) :
    ∃ f, fs.find? (ruleId · == id) = some f ∧ ruleId f = id := by
  obtain ⟨g, hg, hid⟩ := List.mem_map.mp h
  have hsome : (fs.find? (ruleId · == id)).isSome = true :=
    List.find?_isSome.mpr ⟨g, hg, beq_iff_eq.mpr hid⟩
  obtain ⟨f, hf⟩ := Option.isSome_iff_exists.mp hsome
  exact ⟨f, hf, beq_iff_eq.mp (List.find?_some (p := (ruleId · == id)) hf)⟩

theorem map_id_rules (fs : List Finding) : (rules fs).map (·.id) = (fs.map ruleId).eraseDups := by
  have hid : ∀ id ∈ (fs.map ruleId).eraseDups,
      ((fs.find? (ruleId · == id)).map rule).map (·.id) = some id := by
    intro id hid
    obtain ⟨f, hf, hruleId⟩ := exists_first (List.mem_eraseDups.mp hid)
    rw [hf, ← hruleId]
    rfl
  rw [rules, List.map_filterMap, List.filterMap_congr hid, List.filterMap_some]

theorem exists_first_of_mem_rules {r : Rule} (h : r ∈ rules fs) :
    ∃ f ∈ fs, r = rule f ∧ fs.find? (ruleId · == r.id) = some f := by
  obtain ⟨id, hid, h⟩ := List.mem_filterMap.mp h
  obtain ⟨f, hf, rfl⟩ := exists_first (List.mem_eraseDups.mp hid)
  rw [hf] at h
  cases h
  exact ⟨f, List.mem_of_find?_eq_some hf, rfl, hf⟩

/-- Of findings with the most severe in front, the first one that falls under a rule is the worst of the rule. -/
theorem severity_le_of_first {id : String} (hs : fs.Pairwise fun f g => g.severity.rank ≤ f.severity.rank)
    (hf : fs.find? (ruleId · == id) = some f) (hg : g ∈ fs) (hid : ruleId g = id) :
    g.severity.rank ≤ f.severity.rank := by
  obtain ⟨-, before, after, rfl, hbefore⟩ := List.find?_eq_some_iff_append.mp hf
  rcases List.mem_append.mp hg with hg | hg
  · have hne := hbefore g hg
    simp [hid] at hne
  · rcases List.mem_cons.mp hg with rfl | hg
    · exact Nat.le_refl _
    · exact List.rel_of_pairwise_cons (List.pairwise_append.mp hs).2.1 hg

theorem ruleId_ne_empty (h : f.id ≠ "") : ruleId f ≠ "" := by
  unfold ruleId
  split
  · rename_i hd
    simpa using hd
  · split
    · rename_i hc
      simpa using hc
    · exact h

/-! ## Levels -/

/-- An error stands above a warning and a warning above a note. -/
def Level.height : Level → Nat
  | note => 0
  | warning => 1
  | error => 2

theorem height_level_le {a b : Severity} (h : a.rank ≤ b.rank) : (level a).height ≤ (level b).height := by
  revert h
  cases a <;> cases b <;> decide

theorem score_le {a b : Severity} (h : a.rank ≤ b.rank) : score a ≤ score b := by
  revert h
  cases a <;> cases b <;> decide

/-! ## Logs of reports -/

/-- The entries of a log are those of the findings. -/
structure LogEntries.Describe (log : LogEntries) (fs : List Finding) : Prop where
  results : log.results = fs.map resultEntry
  nonempty : ∀ r ∈ log.rules, r.id ≠ ""
  distinct : (log.rules.map (·.id)).Nodup
  used : ∀ id, id ∈ log.rules.map (·.id) ↔ id ∈ log.results.map (·.ruleId)
  worst : ∀ r ∈ log.rules, ∃ f ∈ fs, ruleId f = r.id ∧
    r.level = (level f.severity).word ∧ r.securitySeverity = scoreText f.severity ∧
    ∀ g ∈ fs, ruleId g = r.id →
      (level g.severity).height ≤ (level f.severity).height ∧ score g.severity ≤ score f.severity

theorem describe_of_sorted (hid : ∀ f ∈ fs, f.id ≠ "")
    (hs : fs.Pairwise fun f g => g.severity.rank ≤ f.severity.rank) :
    LogEntries.Describe ⟨(rules fs).map Rule.entry, fs.map resultEntry⟩ fs := by
  have hids : ((rules fs).map Rule.entry).map (·.id) = (fs.map ruleId).eraseDups := by
    rw [List.map_map, ← map_id_rules]
    rfl
  refine ⟨rfl, fun e he => ?_, ?_, fun id => ?_, fun e he => ?_⟩
  · obtain ⟨r, hr, rfl⟩ := List.mem_map.mp he
    obtain ⟨f, hf, rfl, -⟩ := exists_first_of_mem_rules hr
    exact ruleId_ne_empty (hid f hf)
  · rw [hids]
    exact nodup_eraseDups _
  · rw [hids, List.mem_eraseDups, List.map_map]
    rfl
  · obtain ⟨r, hr, rfl⟩ := List.mem_map.mp he
    obtain ⟨f, hf, rfl, hfirst⟩ := exists_first_of_mem_rules hr
    refine ⟨f, hf, rfl, rfl, rfl, fun g hg hgid => ?_⟩
    have hle := severity_le_of_first hs hfirst hg hgid
    exact ⟨height_level_le hle, score_le hle⟩

end Sarif

theorem Finding.computedId_ne_empty (f : Finding) : f.computedId ≠ "" := by
  intro h
  have hlen := congrArg String.toList h
  simp [computedId] at hlen

namespace ReportPolicy

end ReportPolicy

end ContractAudit
