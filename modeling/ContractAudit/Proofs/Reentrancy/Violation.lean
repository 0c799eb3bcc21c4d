import ContractAudit.Reentrancy
import Mathlib.Data.Nat.Find

/-!
# Late writes

A late write of a variable is a step at depth zero that writes it, with some call before it and a read
of the variable at depth zero before it. The violations of a trace are the first late writes of all
variables: there is one for a variable exactly when some step is a late write of it.
-/

namespace ContractAudit

/-- Step `k` writes the variable late. -/
structure LateWrite (steps : List FlowStep) (name : String) (k : Nat) : Prop where
  write : ∃ s, steps[k]? = some s ∧ s.depth = 0 ∧ s.action = .write name
  call : ∃ j s, j < k ∧ steps[j]? = some s ∧ s.isCall = true
  read : ∃ i s, i < k ∧ steps[i]? = some s ∧ s.depth = 0 ∧ s.action = .read name

structure FirstLateWrite (steps : List FlowStep) (name : String) (k : Nat) : Prop where
  late : LateWrite steps name k
  first : ∀ i < k, ¬ LateWrite steps name i

theorem FirstLateWrite.unique {steps : List FlowStep} {name : String} {k k' : Nat}
    (h : FirstLateWrite steps name k) (h' : FirstLateWrite steps name k') : k = k' := by
  rcases Nat.lt_trichotomy k k' with hk | hk | hk
  · exact absurd h.late (h'.first k hk)
  · exact hk
  · exact absurd h'.late (h.first k' hk)

structure FirstCall (steps : List FlowStep) (j : Nat) : Prop where
  call : ∃ s, steps[j]? = some s ∧ s.isCall = true
  first : ∀ i s, i < j → steps[i]? = some s → s.isCall = false

/-- A call that moves value stands between the first call and the first late write. -/
def MovesValueBetween (steps : List FlowStep) (name : String) : Prop :=
  ∃ j m k s label, FirstCall steps j ∧ FirstLateWrite steps name k ∧ j ≤ m ∧ m < k ∧
    steps[m]? = some s ∧ s.action = .call label true

namespace Violation

variable {before rest steps : List FlowStep} {s : FlowStep} {v : Violation} {name : String}

/-! ## One step -/

theorem isReadOf_iff : isReadOf name s = true ↔ s.depth = 0 ∧ s.action = .read name := by
  simp [isReadOf]

theorem stepMovesValue_iff : stepMovesValue s = true ↔ ∃ label, s.action = .call label true := by
  unfold stepMovesValue
  split
  · rename_i label moves h
    simp [h]
  · rename_i h
    simp only [Bool.false_eq_true, false_iff, not_exists]
    exact fun label => h label true

theorem isCall_iff : s.isCall = true ↔ ∃ label moves, s.action = .call label moves := by
  unfold FlowStep.isCall
  split
  · rename_i label moves h
    simp [h]
  · rename_i h
    simp only [Bool.false_eq_true, false_iff, not_exists]
    exact h

/-- Either nothing calls out, or there is a first call. -/
theorem calls_cases (before : List FlowStep) :
    (∀ c ∈ before, c.isCall = false) ∨ ∃ early call late, before = early ++ call :: late ∧
      (∀ c ∈ early, c.isCall = false) ∧ call.isCall = true := by
  cases h : before.find? (·.isCall) with
  | none => exact .inl fun c hc => by simpa using List.find?_eq_none.mp h c hc
  | some call =>
    obtain ⟨hcall, early, late, he, hearly⟩ := List.find?_eq_some_iff_append.mp h
    exact .inr ⟨early, call, late, he, fun c hc => by simpa using hearly c hc, hcall⟩

theorem at?_eq_none (h : ∀ c ∈ before, c.isCall = false) (s : FlowStep) : at? before s = none := by
  have hd : before.dropWhile (! ·.isCall) = [] := by
    rw [← List.append_nil before, List.dropWhile_append_of_pos fun c hc => by simp [h c hc]]
    rfl
  unfold at?
  split
  · simp [hd]
  · rfl

theorem write_of_at? (h : at? before s = some v) :
    s.depth = 0 ∧ s.action = .write v.name ∧ v.name ≠ "" := by
  unfold at? at h
  split at h
  · rename_i name hs
    split at h
    · cases h
    · rename_i hd
      simp only [bne_iff_ne, Bool.or_eq_true, String.isEmpty_iff, not_or, Decidable.not_not] at hd
      split at h
      · cases h
      · simp only at h
        split at h
        · cases h
          exact ⟨hd.1, hs, hd.2⟩
        · cases h
  · cases h

/-- A write at depth zero behind the first call is a violation if the variable was read before. -/
theorem at?_append {early late : List FlowStep} {call : FlowStep} {label : String} {moves : Bool}
    (hearly : ∀ c ∈ early, c.isCall = false) (hcall : call.action = .call label moves)
    (hd : s.depth = 0) (hs : s.action = .write name) (hn : name ≠ "") :
    at? (early ++ call :: late) s =
      ((early.find? (isReadOf name)).or (late.reverse.find? (isReadOf name))).map fun read =>
        ⟨name, read, call, label, s, (call :: late).any stepMovesValue⟩ := by
  have hc : call.isCall = true := isCall_iff.mpr ⟨label, moves, hcall⟩
  have hpos : ∀ c ∈ early, (! c.isCall) = true := fun c hc => by simp [hearly c hc]
  have htake : (early ++ call :: late).takeWhile (! ·.isCall) = early := by
    rw [List.takeWhile_append_of_pos hpos, List.takeWhile_cons_of_neg (by simp [hc]),
      List.append_nil]
  have hdrop : (early ++ call :: late).dropWhile (! ·.isCall) = call :: late := by
    rw [List.dropWhile_append_of_pos hpos, List.dropWhile_cons_of_neg (by simp [hc])]
  have he : name.isEmpty = false := by simpa using hn
  simp only [at?, hs, hd, he, htake, hdrop, hcall, bne_self_eq_false, Bool.or_self,
    Bool.false_eq_true, ↓reduceIte]
  cases (early.find? (isReadOf name)).or (late.reverse.find? (isReadOf name)) with
  | none => rfl
  | some read => rfl

/-- The steps that are violations, by what stands before them. -/
theorem exists_at?_iff : (∃ v, at? before s = some v ∧ v.name = name) ↔
    s.depth = 0 ∧ s.action = .write name ∧ name ≠ "" ∧ (∃ c ∈ before, c.isCall = true) ∧
      ∃ r ∈ before, r.depth = 0 ∧ r.action = .read name := by
  obtain hn | ⟨early, call, late, rfl, hearly, hcall⟩ := calls_cases before
  · simp only [at?_eq_none hn, reduceCtorEq, false_and, exists_false, false_iff]
    rintro ⟨-, -, -, ⟨c, hc, h⟩, -⟩
    rw [hn c hc] at h
    cases h
  · obtain ⟨label, moves, hl⟩ := isCall_iff.mp hcall
    -- The call itself is no read, so a read stands before or behind it.
    have hread : (∃ r ∈ early ++ call :: late, r.depth = 0 ∧ r.action = .read name) ↔
        ((early.find? (isReadOf name)).or (late.reverse.find? (isReadOf name))).isSome = true := by
      simp [Option.isSome_or, List.find?_isSome, isReadOf_iff, or_and_right, exists_or, hl]
    constructor
    · rintro ⟨v, h, rfl⟩
      obtain ⟨hd, hs, hn⟩ := write_of_at? h
      rw [at?_append hearly hl hd hs hn] at h
      obtain ⟨read, hr, -⟩ := Option.map_eq_some_iff.mp h
      exact ⟨hd, hs, hn, ⟨call, by simp, hcall⟩, hread.mpr (by rw [hr]; rfl)⟩
    · rintro ⟨hd, hs, hn, -, hr⟩
      obtain ⟨read, hr⟩ := Option.isSome_iff_exists.mp (hread.mp hr)
      rw [at?_append hearly hl hd hs hn, hr]
      exact ⟨_, rfl, rfl⟩

theorem movesValue_iff (h : at? before s = some v) :
    v.movesValue = true ↔ ∃ c ∈ before, ∃ label, c.action = .call label true := by
  obtain ⟨hd, hs, hn⟩ := write_of_at? h
  obtain hb | ⟨early, call, late, rfl, hearly, hcall⟩ := calls_cases before
  · rw [at?_eq_none hb] at h
    cases h
  · obtain ⟨label, moves, hl⟩ := isCall_iff.mp hcall
    rw [at?_append hearly hl hd hs hn] at h
    obtain ⟨read, -, he⟩ := Option.map_eq_some_iff.mp h
    have hm : (call :: late).any stepMovesValue = v.movesValue := congrArg Violation.movesValue he
    rw [← hm, List.any_eq_true]
    simp only [stepMovesValue_iff]
    constructor
    · rintro ⟨c, hc, hm⟩
      exact ⟨c, List.mem_append_right _ hc, hm⟩
    · rintro ⟨c, hc, label, hm⟩
      refine ⟨c, (List.mem_append.mp hc).resolve_left fun he => ?_, label, hm⟩
      have := hearly c he
      rw [isCall_iff.mpr ⟨label, true, hm⟩] at this
      cases this

/-! ## The first of each variable -/

theorem mem_firstOfEach {vs : List Violation} {seen : List String} :
    v ∈ firstOfEach vs seen ↔ v.name ∉ seen ∧ vs.find? (·.name == v.name) = some v := by
  induction vs generalizing seen with
  | nil => simp [firstOfEach]
  | cons w vs ih =>
    by_cases hw : w.name = v.name
    · by_cases hs : v.name ∈ seen
      · simp [firstOfEach, hw, hs, ih]
      · simp [firstOfEach, hw, hs, ih, eq_comm]
    · by_cases hs : w.name ∈ seen
      · simp [firstOfEach, hw, hs, ih]
      · have : v ≠ w := fun h => hw (h ▸ rfl)
        simp [firstOfEach, hw, hs, ih, this, Ne.symm hw]

/-! ## The violations of a trace -/

/-- The violation at step `k`. -/
def atStep? (steps : List FlowStep) (k : Nat) : Option Violation :=
  steps[k]?.bind (at? (steps.take k))

theorem allFrom_eq (before rest : List FlowStep) : allFrom before rest =
    (List.range rest.length).filterMap fun k => rest[k]?.bind (at? (before ++ rest.take k)) := by
  induction rest generalizing before with
  | nil => rfl
  | cons s rest ih =>
    rw [allFrom, ih, List.length_cons, List.range_succ_eq_map, List.filterMap_cons,
      List.filterMap_map]
    cases h : at? before s with
    | none => simp [h, Function.comp_def]
    | some v => simp [h, Function.comp_def]

theorem exists_mem_take {xs : List FlowStep} {k : Nat} {p : FlowStep → Prop} :
    (∃ x ∈ xs.take k, p x) ↔ ∃ i x, i < k ∧ xs[i]? = some x ∧ p x := by
  simp only [List.mem_iff_getElem?, List.getElem?_take]
  constructor
  · rintro ⟨x, ⟨i, hi⟩, hp⟩
    split at hi
    · rename_i hik
      exact ⟨i, x, hik, hi, hp⟩
    · cases hi
  · rintro ⟨i, x, hik, hi, hp⟩
    exact ⟨x, ⟨i, by simp [hik, hi]⟩, hp⟩

theorem exists_atStep?_iff {k : Nat} : (∃ v, atStep? steps k = some v ∧ v.name = name) ↔
    name ≠ "" ∧ LateWrite steps name k := by
  simp only [atStep?, Option.bind_eq_some_iff]
  constructor
  · rintro ⟨v, ⟨s, hs, hv⟩, hn⟩
    obtain ⟨hd, ha, hne, hc, hr⟩ := exists_at?_iff.mp ⟨v, hv, hn⟩
    exact ⟨hne, ⟨s, hs, hd, ha⟩, exists_mem_take.mp hc, exists_mem_take.mp hr⟩
  · rintro ⟨hne, ⟨s, hs, hd, ha⟩, hc, hr⟩
    obtain ⟨v, hv, hn⟩ :=
      exists_at?_iff.mpr ⟨hd, ha, hne, exists_mem_take.mpr hc, exists_mem_take.mpr hr⟩
    exact ⟨v, ⟨s, hs, hv⟩, hn⟩

theorem mem_ofSteps :
    v ∈ ofSteps steps ↔ ∃ k, FirstLateWrite steps v.name k ∧ atStep? steps k = some v := by
  have hall : allFrom [] steps = (List.range steps.length).filterMap (atStep? steps) :=
    allFrom_eq [] steps
  rw [ofSteps, mem_firstOfEach, hall, List.find?_filterMap, Option.bind_eq_some_iff]
  simp only [List.find?_range_eq_some]
  constructor
  · rintro ⟨-, k, ⟨-, -, hfirst⟩, hv⟩
    obtain ⟨hn, hlate⟩ := exists_atStep?_iff.mp ⟨v, hv, rfl⟩
    refine ⟨k, ⟨hlate, fun i hi hl => ?_⟩, hv⟩
    obtain ⟨w, hw, hwn⟩ := exists_atStep?_iff.mpr ⟨hn, hl⟩
    have := hfirst i hi
    simp [hw, hwn] at this
  · rintro ⟨k, ⟨hlate, hfirst⟩, hv⟩
    obtain ⟨s, hs, -⟩ := hlate.write
    obtain ⟨hk, -⟩ := List.getElem?_eq_some_iff.mp hs
    refine ⟨List.not_mem_nil, k, ⟨by simp [hv], List.mem_range.mpr hk, fun i hi => ?_⟩, hv⟩
    cases hw : atStep? steps i with
    | none => rfl
    | some w =>
      have hne : w.name ≠ v.name := fun he =>
        hfirst i hi (exists_atStep?_iff.mp ⟨w, hw, he⟩).2
      simpa using hne

theorem exists_firstLateWrite {k : Nat} (h : LateWrite steps name k) :
    ∃ k, FirstLateWrite steps name k := by
  classical
  have h : ∃ k, LateWrite steps name k := ⟨k, h⟩
  exact ⟨Nat.find h, Nat.find_spec h, fun i hi => Nat.find_min h hi⟩

/-- A variable has a violation exactly when it is written late. -/
theorem exists_mem_ofSteps_iff :
    (∃ v ∈ ofSteps steps, v.name = name) ↔ name ≠ "" ∧ ∃ k, LateWrite steps name k := by
  constructor
  · rintro ⟨v, hv, rfl⟩
    obtain ⟨k, -, hv⟩ := mem_ofSteps.mp hv
    obtain ⟨hn, hlate⟩ := exists_atStep?_iff.mp ⟨v, hv, rfl⟩
    exact ⟨hn, k, hlate⟩
  · rintro ⟨hn, k, hk⟩
    obtain ⟨k, hk⟩ := exists_firstLateWrite hk
    obtain ⟨v, hv, rfl⟩ := exists_atStep?_iff.mpr ⟨hn, hk.late⟩
    exact ⟨v, mem_ofSteps.mpr ⟨k, hk, hv⟩, rfl⟩

theorem exists_firstCall {j : Nat} (hj : steps[j]? = some s) (hs : s.isCall = true) :
    ∃ i ≤ j, FirstCall steps i := by
  classical
  have h : ∃ i, ∃ s : FlowStep, steps[i]? = some s ∧ s.isCall = true := ⟨j, s, hj, hs⟩
  refine ⟨Nat.find h, Nat.find_min' h ⟨s, hj, hs⟩, Nat.find_spec h, fun i t hi ht => ?_⟩
  have := Nat.find_min h hi
  simpa [ht] using this

theorem movesValue_ofSteps_iff (hv : v ∈ ofSteps steps) :
    v.movesValue = true ↔ MovesValueBetween steps v.name := by
  obtain ⟨k, hk, hat⟩ := mem_ofSteps.mp hv
  obtain ⟨s, -, hat⟩ := Option.bind_eq_some_iff.mp hat
  rw [movesValue_iff hat, exists_mem_take]
  constructor
  · rintro ⟨m, c, hmk, hc, label, hm⟩
    obtain ⟨j, hj, hfirst⟩ := exists_firstCall hc (isCall_iff.mpr ⟨label, true, hm⟩)
    exact ⟨j, m, k, c, label, hfirst, hk, hj, hmk, hc, hm⟩
  · rintro ⟨j, m, k', c, label, -, hk', -, hmk, hc, hm⟩
    exact ⟨m, c, hk'.unique hk ▸ hmk, hc, label, hm⟩

end Violation

end ContractAudit
