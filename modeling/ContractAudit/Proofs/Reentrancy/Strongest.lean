import ContractAudit.Proofs.Reentrancy.Violation
import ContractAudit.Proofs.Table

/-!
# The reported findings

Reentrancy is reported once for each entry point and variable that some unguarded flow exposes. Every
such flow makes a hit, judged by the name of the variable, by the calls that move value and by whether
the flow is whole; the hit that is reported is one that no other on the same variable is stronger than.
-/

namespace ContractAudit

/-- In the order of severity and then of confirmation, `a` is not above `b`. -/
def Finding.AtMost (a b : Finding) : Prop :=
  a.severity.rank < b.severity.rank ∨
    a.severity.rank = b.severity.rank ∧ (a.confidence = .confirmed → b.confidence = .confirmed)

theorem Finding.AtMost.refl (a : Finding) : a.AtMost a := .inr ⟨rfl, fun h => h⟩

theorem Finding.AtMost.trans {a b c : Finding} (h : a.AtMost b) (h' : b.AtMost c) : a.AtMost c := by
  rcases h with h | ⟨h, hc⟩ <;> rcases h' with h' | ⟨h', hc'⟩
  · exact .inl (Nat.lt_trans h h')
  · exact .inl (h' ▸ h)
  · exact .inl (h ▸ h')
  · exact .inr ⟨h.trans h', fun ha => hc' (hc ha)⟩

namespace Reentrancy

/-! ## Keeping the strongest -/

theorem isStronger_eq_false {a b : Finding} : isStronger a b = false ↔ a.AtMost b := by
  unfold isStronger Finding.AtMost
  by_cases h : a.severity = b.severity
  · simp [h]
  · have hr : a.severity.rank ≠ b.severity.rank := fun hr => h (Severity.rank_inj.mp hr)
    simp only [beq_iff_eq, h, ↓reduceIte, decide_eq_false_iff_not, hr, false_and, or_false]
    omega

theorem atMost_of_isStronger {a b : Finding} (h : isStronger a b = true) : b.AtMost a := by
  unfold isStronger at h
  split at h
  · rename_i he
    simp only [Bool.and_eq_true, beq_iff_eq] at h he
    exact .inr ⟨by rw [he], fun _ => h.1⟩
  · exact .inl (by simpa using h)

section Keep

/-- The table has one entry for each key of the hits, a hit of the key that none is stronger than. -/
structure IsStrongest (hs : List (Key × Finding)) (t : Table Key Finding) : Prop where
  nodup : t.keys.Nodup
  keys : ∀ key, key ∈ t.keys ↔ ∃ x, (key, x) ∈ hs
  mem : ∀ key x, (key, x) ∈ t → (key, x) ∈ hs
  atMost : ∀ key x y, (key, x) ∈ t → (key, y) ∈ hs → y.AtMost x

variable {hs : List (Key × Finding)} {t : Table Key Finding} {key : Key} {z : Finding}

theorem IsStrongest.put (h : IsStrongest hs t) (hz : ∀ y, (key, y) ∈ hs → y.AtMost z) :
    IsStrongest (hs ++ [(key, z)]) (t.put key z) where
  nodup := Table.nodup_keys_put h.nodup key z
  keys k := by
    rw [Table.mem_keys_put, h.keys k]
    by_cases hk : k = key <;> simp [hk]
  mem k x hx := by
    rw [List.mem_append, List.mem_singleton, Prod.mk.injEq]
    rcases (Table.mem_put h.nodup).mp hx with he | ⟨-, hx⟩
    · exact .inr he
    · exact .inl (h.mem k x hx)
  atMost k x y hx hy := by
    rw [List.mem_append, List.mem_singleton, Prod.mk.injEq] at hy
    rcases (Table.mem_put h.nodup).mp hx with ⟨rfl, rfl⟩ | ⟨hne, hx⟩
    · rcases hy with hy | ⟨-, rfl⟩
      · exact hz y hy
      · exact .refl y
    · rcases hy with hy | ⟨rfl, -⟩
      · exact h.atMost k x y hx hy
      · exact absurd rfl hne

/-- A hit that is not stronger than the entry of its key changes nothing. -/
theorem IsStrongest.leave (h : IsStrongest hs t) {current : Finding} (hc : (key, current) ∈ t)
    (hz : z.AtMost current) : IsStrongest (hs ++ [(key, z)]) t where
  nodup := h.nodup
  keys k := by
    rw [h.keys k]
    constructor
    · rintro ⟨x, hx⟩
      exact ⟨x, List.mem_append_left _ hx⟩
    · rintro ⟨x, hx⟩
      rcases List.mem_append.mp hx with hx | hx
      · exact ⟨x, hx⟩
      · rw [List.mem_singleton, Prod.mk.injEq] at hx
        exact ⟨current, hx.1 ▸ h.mem key current hc⟩
  mem k x hx := List.mem_append_left _ (h.mem k x hx)
  atMost k x y hx hy := by
    rw [List.mem_append, List.mem_singleton, Prod.mk.injEq] at hy
    rcases hy with hy | ⟨rfl, rfl⟩
    · exact h.atMost k x y hx hy
    · exact hz.trans (h.atMost k x current hx (h.mem k current hc))

theorem IsStrongest.keep (h : IsStrongest hs t) (hit : Key × Finding) :
    IsStrongest (hs ++ [hit]) (keep t hit) := by
  obtain ⟨key, z⟩ := hit
  unfold Reentrancy.keep
  split
  · rename_i current hc
    have hc := Table.mem_of_get? hc
    split
    · rename_i hs
      refine h.put fun y hy => ?_
      exact (h.atMost key current y hc hy).trans (atMost_of_isStronger hs)
    · rename_i hs
      exact h.leave hc (isStronger_eq_false.mp (Bool.eq_false_iff.mpr hs))
  · rename_i hn
    refine h.put fun y hy => ?_
    exact absurd ((h.keys key).mpr ⟨y, hy⟩) (Table.get?_eq_none_iff.mp hn)

theorem IsStrongest.foldl (h : IsStrongest hs t) (rest : List (Key × Finding)) :
    IsStrongest (hs ++ rest) (rest.foldl Reentrancy.keep t) := by
  induction rest generalizing hs t with
  | nil => simpa using h
  | cons hit rest ih => simpa using ih (h.keep hit)

theorem isStrongest_foldl (hs : List (Key × Finding)) :
    IsStrongest hs (hs.foldl Reentrancy.keep []) := by
  have h : IsStrongest [] [] := ⟨by simp, by simp, by simp, by simp⟩
  exact h.foldl hs

end Keep

/-! ## Exposed variables -/

/-- The flow exposes the variable of an entry point: nothing guards the entry, and the variable is
written late. -/
structure Exposes (policy : Policy) (flow : Flow) (key : Key) : Prop where
  contract : flow.entryContract = key.1
  function : flow.entryFunction = key.2.1
  unguarded : ∀ m ∈ flow.entryModifiers, m ∉ policy.guards
  named : key.2.2 ≠ ""
  late : ∃ k, LateWrite flow.steps key.2.2 k

/-- Some keyword stands in the name, both in lower case. -/
def KeepsAccounts (policy : Policy) (name : String) : Prop :=
  ∃ k ∈ policy.keywords, ∃ before after,
    (Text.lower name).toList = before ++ (Text.lower k).toList ++ after

/-- The finding that a flow makes on a variable it exposes. -/
structure IsHit (policy : Policy) (g : Option DependencyGraph) (flow : Flow) (key : Key)
    (x : Finding) : Prop where
  exposes : Exposes policy flow key
  made : ∃ v ∈ Violation.ofSteps flow.steps, v.name = key.2.2 ∧ x = finding policy g flow v
  medium : ¬ KeepsAccounts policy key.2.2 → x.severity = .medium
  critical : KeepsAccounts policy key.2.2 → MovesValueBetween flow.steps key.2.2 →
    x.severity = .critical
  high : KeepsAccounts policy key.2.2 → ¬ MovesValueBetween flow.steps key.2.2 → x.severity = .high
  confirmed : x.confidence = .confirmed ↔ flow.isTruncated = false

variable {policy : Policy} {g : Option DependencyGraph} {flows : List Flow} {flow : Flow} {key : Key}
  {x : Finding} {v : Violation}

theorem isAccounting_iff {name : String} : isAccounting policy name = true ↔ KeepsAccounts policy name := by
  simp only [isAccounting, List.any_eq_true, Text.contains, Text.occurs_iff, KeepsAccounts]

theorem severity_finding (policy : Policy) (g : Option DependencyGraph) (flow : Flow)
    (v : Violation) : (finding policy g flow v).severity = severity policy v := rfl

theorem confidence_finding (policy : Policy) (g : Option DependencyGraph) (flow : Flow)
    (v : Violation) : (finding policy g flow v).confidence =
      if flow.isTruncated then .heuristic else .confirmed := rfl

theorem isHit_finding (h : Exposes policy flow key) (hv : v ∈ Violation.ofSteps flow.steps)
    (hn : v.name = key.2.2) : IsHit policy g flow key (finding policy g flow v) := by
  have hmoves := Violation.movesValue_ofSteps_iff hv
  rw [hn] at hmoves
  refine ⟨h, ⟨v, hv, hn, rfl⟩, fun ha => ?_, fun ha hm => ?_, fun ha hm => ?_, ?_⟩
  · rw [← isAccounting_iff, Bool.not_eq_true] at ha
    simp [severity_finding, severity, hn, ha]
  · simp [severity_finding, severity, hn, isAccounting_iff.mpr ha, hmoves.mpr hm]
  · rw [← hmoves, Bool.not_eq_true] at hm
    simp [severity_finding, severity, hn, isAccounting_iff.mpr ha, hm]
  · cases hf : flow.isTruncated <;> simp [confidence_finding, hf]

theorem Exposes.exists_isHit (h : Exposes policy flow key) : ∃ x, IsHit policy g flow key x := by
  obtain ⟨v, hv, hn⟩ := Violation.exists_mem_ofSteps_iff.mpr ⟨h.named, h.late⟩
  exact ⟨_, isHit_finding h hv hn⟩

theorem mem_hits : (key, x) ∈ hits policy g flows ↔ ∃ flow ∈ flows, IsHit policy g flow key x := by
  have hguards (f : Flow) : (! f.entryModifiers.any policy.guards.contains) = true ↔
      ∀ m ∈ f.entryModifiers, m ∉ policy.guards := by simp
  simp only [hits, List.mem_flatMap, List.mem_filter, hguards, List.mem_map]
  constructor
  · rintro ⟨f, ⟨hf, hguard⟩, v, hv, he⟩
    obtain ⟨rfl, rfl⟩ := Prod.mk.inj he
    obtain ⟨hn, hlate⟩ := Violation.exists_mem_ofSteps_iff.mp ⟨v, hv, rfl⟩
    exact ⟨f, hf, isHit_finding ⟨rfl, rfl, hguard, hn, hlate⟩ hv rfl⟩
  · rintro ⟨f, hf, ⟨hc, hfn, hguard, -, -⟩, ⟨v, hv, hn, rfl⟩, -, -, -, -⟩
    exact ⟨f, ⟨hf, hguard⟩, v, hv, by rw [hc, hfn, hn]⟩

/-- Exactly one finding is reported for each variable of an entry point that some flow exposes. It is
the hit of such a flow, and no hit of another is above it. -/
theorem findings_exact (policy : Policy) (g : Option DependencyGraph) (flows : List Flow) :
    ∃ report : Table Key Finding, findings policy g flows = report.values ∧ report.keys.Nodup ∧
      (∀ key, key ∈ report.keys ↔ ∃ flow ∈ flows, Exposes policy flow key) ∧
      ∀ key x, (key, x) ∈ report →
        (∃ flow ∈ flows, IsHit policy g flow key x) ∧
        ∀ flow ∈ flows, Exposes policy flow key →
          ∃ y, IsHit policy g flow key y ∧ y.AtMost x := by
  have best := isStrongest_foldl (hits policy g flows)
  refine ⟨_, rfl, best.nodup, fun key => ?_, fun key x hx => ⟨?_, fun flow hf he => ?_⟩⟩
  · rw [best.keys key]
    constructor
    · rintro ⟨x, hx⟩
      obtain ⟨flow, hf, hit⟩ := mem_hits.mp hx
      exact ⟨flow, hf, hit.exposes⟩
    · rintro ⟨flow, hf, he⟩
      obtain ⟨x, hit⟩ := he.exists_isHit
      exact ⟨x, mem_hits.mpr ⟨flow, hf, hit⟩⟩
  · exact mem_hits.mp (best.mem key x hx)
  · obtain ⟨y, hit⟩ := he.exists_isHit
    exact ⟨y, hit, best.atMost key x y hx (mem_hits.mpr ⟨flow, hf, hit⟩)⟩

end Reentrancy

end ContractAudit
