import ContractAudit.Proofs.Batch
import Mathlib.Data.List.Forall2
import Mathlib.Data.List.Nodup

/-!
# What becomes of a reference

Every state variable that is no constant gives at most one edge or one unresolved annotation. A variable
of a user-defined type that its contract does not declare itself is never dropped: it gives an edge or an
annotation, or it refers to its own contract.
-/

namespace ContractAudit

namespace Dependency

/-! ## What a variable refers to -/

/-- The contract declares a type of this name; of a qualified name the last part counts. -/
def Declares (c : Contract) (type : String) : Prop := String.ofList (lastPart type) ∈ c.typeNames

/-- The variable of `c` refers to a contract on the strength of its type or of its name. -/
inductive Refers (cs : List Contract) (c : Contract) (v : StateVariable) : Contract → Tier → Prop where
  | type {type : String} {d : Contract} (ht : TypeText.referencedName? v.declaredType = some type)
      (hd : findByType? type cs = some d) : Refers cs c v d .declaredType
  | name {type : String} {d : Contract} (ht : TypeText.referencedName? v.declaredType = some type)
      (hn : findByType? type cs = none) (hc : ¬ Declares c type)
      (hd : findByName? v.name cs = some d) : Refers cs c v d .namingConvention
  | address {d : Contract} (ht : TypeText.referencedName? v.declaredType = none)
      (ha : referencesAddress v.declaredType = true) (hd : findByName? v.name cs = some d) :
      Refers cs c v d .namingConvention

variable {cs : List Contract} {c d : Contract} {v : StateVariable} {tier : Tier} {type : String}

theorem isLocalType_iff : isLocalType c type = true ↔ Declares c type := by
  rw [isLocalType, Declares, List.contains_iff_mem]

theorem isLocalType_eq_false (h : ¬ Declares c type) : isLocalType c type = false :=
  Bool.eq_false_iff.mpr fun hl => h (isLocalType_iff.mp hl)

theorem Refers.mem (h : Refers cs c v d tier) : d ∈ cs := by
  cases h with
  | type _ hd => exact mem_of_findByType? hd
  | name _ _ _ hd => exact mem_of_findByName? hd
  | address _ _ hd => exact mem_of_findByName? hd

theorem refers_of_target? (h : target? cs c v = some (d, tier)) : Refers cs c v d tier := by
  unfold target? at h
  split at h
  · rename_i type ht
    split at h
    · rename_i d' hd
      cases h
      exact .type ht hd
    · rename_i hn
      split at h
      · cases h
      · rename_i hl
        obtain ⟨d', hd, he⟩ := Option.map_eq_some_iff.mp h
        cases he
        exact .name ht hn (fun hc => hl (isLocalType_iff.mpr hc)) hd
  · rename_i ht
    split at h
    · rename_i ha
      obtain ⟨d', hd, he⟩ := Option.map_eq_some_iff.mp h
      cases he
      exact .address ht ha hd
    · cases h

theorem target?_of_refers (h : Refers cs c v d tier) : target? cs c v = some (d, tier) := by
  cases h with
  | type ht hd => simp only [target?, ht, hd]
  | name ht hn hc hd =>
    simp only [target?, ht, hn, isLocalType_eq_false hc, hd, Bool.false_eq_true, ↓reduceIte,
      Option.map_some]
  | address ht ha hd => simp only [target?, ht, ha, hd, ↓reduceIte, Option.map_some]

theorem target?_eq_some_iff : target? cs c v = some (d, tier) ↔ Refers cs c v d tier :=
  ⟨refers_of_target?, target?_of_refers⟩

/-- Without a type that the contract declares itself, nothing is found only if both look-ups fail. -/
theorem target?_eq_none_iff (ht : TypeText.referencedName? v.declaredType = some type)
    (hc : ¬ Declares c type) :
    target? cs c v = none ↔ findByType? type cs = none ∧ findByName? v.name cs = none := by
  cases hd : findByType? type cs with
  | some d => simp [target?, ht, hd]
  | none => simp [target?, ht, hd, isLocalType_eq_false hc]

theorem Refers.lookUp_eq (h : Refers cs c v d tier)
    (ht : TypeText.referencedName? v.declaredType = some type) :
    (findByType? type cs).or (findByName? v.name cs) = some d := by
  cases h with
  | type ht' hd =>
    rw [ht, Option.some.injEq] at ht'
    rw [ht', hd, Option.some_or]
  | name ht' hn _ hd =>
    rw [ht, Option.some.injEq] at ht'
    rw [ht', hn, hd, Option.none_or]
  | address ht' =>
    rw [ht] at ht'
    cases ht'

/-! ## What a variable gives -/

/-- The edges and the unresolved annotations that one variable gives. -/
structure Contribution where
  edges : List DependencyEdge
  unresolved : List UnresolvedReference

/-- The contribution is what the variable `v` of `c` has to give. -/
structure Contribution.Accounts (k : Contribution) (cs : List Contract) (c : Contract)
    (v : StateVariable) : Prop where
  /-- One edge or one annotation at most, and never both. -/
  single : k.edges.length + k.unresolved.length ≤ 1
  edges : ∀ e, e ∈ k.edges ↔ ∃ d tier, Refers cs c v d tier ∧ d.name ≠ c.name ∧
    e = ⟨c.name, d.name, v.name, tier⟩
  unresolved : ∀ u, u ∈ k.unresolved ↔ ∃ type, TypeText.referencedName? v.declaredType = some type ∧
    ¬ Declares c type ∧ findByType? type cs = none ∧ findByName? v.name cs = none ∧
    u = ⟨c.name, v.name, type⟩
  declaredType : ∀ e ∈ k.edges, e.tier = .declaredType ↔
    ∃ type d, TypeText.referencedName? v.declaredType = some type ∧ findByType? type cs = some d
  namingConvention : ∀ e ∈ k.edges, e.tier = .namingConvention →
    (∀ type, TypeText.referencedName? v.declaredType = some type → findByType? type cs = none) ∧
    ∃ d, findByName? v.name cs = some d
  /-- A type that the contract does not declare itself is resolved or annotated. -/
  foreign : ∀ type, TypeText.referencedName? v.declaredType = some type → ¬ Declares c type →
    (k.edges.length = 1 ∧ k.unresolved = []) ∨
    (k.edges = [] ∧ k.unresolved.length = 1) ∨
    (k.edges = [] ∧ k.unresolved = [] ∧
      (findByType? type cs).or (findByName? v.name cs) = some c)

/-- The edge or the annotation of a reference, if it is one. -/
def contribution : Reference → Contribution
  | .edge e => ⟨[e], []⟩
  | .unresolved u => ⟨[], [u]⟩
  | .nothing => ⟨[], []⟩

theorem contribution_of_target? (hv : v.isConstant = false) (h : target? cs c v = some (d, tier)) :
    contribution (reference cs c v) =
      if d.name = c.name then ⟨[], []⟩ else ⟨[⟨c.name, d.name, v.name, tier⟩], []⟩ := by
  simp only [reference, hv, h, Bool.false_eq_true, ↓reduceIte, beq_iff_eq]
  split <;> rfl

theorem contribution_of_elementary (hv : v.isConstant = false) (h : target? cs c v = none)
    (ht : TypeText.referencedName? v.declaredType = none) :
    contribution (reference cs c v) = ⟨[], []⟩ := by
  simp only [reference, hv, h, ht, Bool.false_eq_true, ↓reduceIte]
  rfl

theorem contribution_of_unresolved (hv : v.isConstant = false) (h : target? cs c v = none)
    (ht : TypeText.referencedName? v.declaredType = some type) :
    contribution (reference cs c v) =
      if isLocalType c type then ⟨[], []⟩ else ⟨[], [⟨c.name, v.name, type⟩]⟩ := by
  simp only [reference, hv, h, ht, Bool.false_eq_true, ↓reduceIte]
  split <;> rfl

theorem mem_edges_iff (hv : v.isConstant = false) {e : DependencyEdge} :
    e ∈ (contribution (reference cs c v)).edges ↔ ∃ d tier, Refers cs c v d tier ∧ d.name ≠ c.name ∧
      e = ⟨c.name, d.name, v.name, tier⟩ := by
  simp only [← target?_eq_some_iff]
  cases h : target? cs c v with
  | some dt =>
    obtain ⟨d, tier⟩ := dt
    rw [contribution_of_target? hv h]
    by_cases hd : d.name = c.name <;> simp [hd]
  | none =>
    cases ht : TypeText.referencedName? v.declaredType with
    | none => simp [contribution_of_elementary hv h ht]
    | some type =>
      rw [contribution_of_unresolved hv h ht]
      split <;> simp

theorem mem_unresolved_iff (hv : v.isConstant = false) {u : UnresolvedReference} :
    u ∈ (contribution (reference cs c v)).unresolved ↔
      ∃ type, TypeText.referencedName? v.declaredType = some type ∧ ¬ Declares c type ∧
        findByType? type cs = none ∧ findByName? v.name cs = none ∧ u = ⟨c.name, v.name, type⟩ := by
  cases ht : TypeText.referencedName? v.declaredType with
  | none =>
    cases h : target? cs c v with
    | none => simp [contribution_of_elementary hv h ht]
    | some dt =>
      rw [contribution_of_target? hv h]
      split <;> simp
  | some type =>
    cases h : target? cs c v with
    | none =>
      rw [contribution_of_unresolved hv h ht]
      by_cases hc : Declares c type
      · simp [isLocalType_iff.mpr hc, hc]
      · simp [isLocalType_eq_false hc, hc, (target?_eq_none_iff ht hc).mp h]
    | some dt =>
      have hne (hc : ¬ Declares c type) :
          ¬ (findByType? type cs = none ∧ findByName? v.name cs = none) := by
        rw [← target?_eq_none_iff ht hc, h]
        simp
      rw [contribution_of_target? hv h]
      split <;> grind

theorem length_contribution_le (r : Reference) :
    (contribution r).edges.length + (contribution r).unresolved.length ≤ 1 := by
  cases r <;> exact Nat.le_of_ble_eq_true rfl

theorem accounts_contribution (hn : (cs.map (·.name)).Nodup) (hc : c ∈ cs) (hv : v.isConstant = false) :
    (contribution (reference cs c v)).Accounts cs c v where
  single := length_contribution_le _
  edges e := mem_edges_iff hv
  unresolved u := mem_unresolved_iff hv
  declaredType e he := by
    obtain ⟨d, tier, h, -, rfl⟩ := (mem_edges_iff hv).mp he
    cases h with
    | type ht hd => simp [ht, hd]
    | name ht hn => simp [ht, hn]
    | address ht => simp [ht]
  namingConvention e he htier := by
    obtain ⟨d, tier, h, -, rfl⟩ := (mem_edges_iff hv).mp he
    cases h with
    | type => cases htier
    | name ht hn _ hd =>
      refine ⟨fun type ht' => ?_, d, hd⟩
      rw [ht, Option.some.injEq] at ht'
      exact ht' ▸ hn
    | address ht _ hd =>
      refine ⟨fun type ht' => ?_, d, hd⟩
      rw [ht] at ht'
      cases ht'
  foreign type ht hnc := by
    cases h : target? cs c v with
    | none =>
      right; left
      simp [contribution_of_unresolved hv h ht, isLocalType_eq_false hnc]
    | some dt =>
      obtain ⟨d, tier⟩ := dt
      have hr := refers_of_target? h
      rw [contribution_of_target? hv h]
      -- The names are distinct, so a target of the same name is the contract itself.
      by_cases hd : d.name = c.name
      · have hdc : d = c := List.inj_on_of_nodup_map hn hr.mem hc hd
        right; right
        simp [hd, ← hdc, hr.lookUp_eq ht]
      · left
        simp [hd]

/-! ## All variables of a batch -/

/-- The state variables that are no constants, each with its contract, in order. -/
def occurrences (cs : List Contract) : List (Contract × StateVariable) :=
  cs.flatMap fun c => (c.stateVariables.filter (! ·.isConstant)).map (c, ·)

theorem mem_occurrences : (c, v) ∈ occurrences cs ↔
    c ∈ cs ∧ v ∈ c.stateVariables ∧ v.isConstant = false := by
  simp [occurrences]

theorem reference_of_isConstant (hv : v.isConstant = true) : reference cs c v = .nothing := by
  simp only [reference, hv, ↓reduceIte]

/-- What the state variables of a batch give, in order. -/
def contributions (cs : List Contract) : List Contribution :=
  (occurrences cs).map fun o => contribution (reference cs o.1 o.2)

/-- What is picked from all references is picked from the contributions, since constants give nothing. -/
theorem filterMap_references {β : Type} {pick : Reference → Option β} {part : Contribution → List β}
    (hpick : ∀ r, (pick r).toList = part (contribution r)) (hnothing : part (contribution .nothing) = [])
    (cs : List Contract) : (references cs).filterMap pick = (contributions cs).flatMap part := by
  have hvariables (c : Contract) (vs : List StateVariable) :
      vs.flatMap (fun v => part (contribution (reference cs c v))) =
        (vs.filter (! ·.isConstant)).flatMap fun v => part (contribution (reference cs c v)) := by
    induction vs with
    | nil => rfl
    | cons v vs ih =>
      by_cases hv : v.isConstant = true
      · simp [reference_of_isConstant hv, hnothing, hv, ih]
      · simp [hv, ih]
  simp only [List.filterMap_eq_flatMap_toList, hpick, references, contributions, occurrences,
    List.flatMap_assoc, List.flatMap_map]
  congr 1
  funext c
  exact hvariables c c.stateVariables

theorem accounts_contributions (hn : (cs.map (·.name)).Nodup) :
    List.Forall₂ (fun o k => k.Accounts cs o.1 o.2) (occurrences cs) (contributions cs) := by
  rw [contributions, List.forall₂_map_right_iff, List.forall₂_same]
  rintro ⟨c, v⟩ ho
  obtain ⟨hc, -, hv⟩ := mem_occurrences.mp ho
  exact accounts_contribution hn hc hv

end Dependency

namespace DependencyGraph

open Dependency

variable {cs : List Contract}

theorem edges_eq (hn : (cs.map (·.name)).Nodup) :
    (ofContracts cs).edges = (contributions cs).flatMap (·.edges) := by
  simp only [ofContracts, nodesOf_eq_self hn]
  refine filterMap_references (fun r => ?_) rfl cs
  cases r <;> rfl

theorem unresolved_eq (hn : (cs.map (·.name)).Nodup) :
    (ofContracts cs).unresolved = (contributions cs).flatMap (·.unresolved) := by
  simp only [ofContracts, nodesOf_eq_self hn]
  refine filterMap_references (fun r => ?_) rfl cs
  cases r <;> rfl

/-- The edge leads from a contract of the graph to another one, via a variable that is no constant. -/
structure IsLink (g : DependencyGraph) (e : DependencyEdge) : Prop where
  ne : e.source ≠ e.target
  target : ∃ d ∈ g.nodes, d.name = e.target
  source : ∃ c ∈ g.nodes, c.name = e.source ∧
    ∃ v ∈ c.stateVariables, v.isConstant = false ∧ v.name = e.via

/-- The edges and unresolved annotations are those that the state variables of the contracts give. -/
structure Accounts (g : DependencyGraph) (cs : List Contract) : Prop where
  nodes : g.nodes = cs
  links : ∀ e ∈ g.edges, g.IsLink e
  contributions : ∃ ks : List Contribution,
    List.Forall₂ (fun o k => k.Accounts cs o.1 o.2) (occurrences cs) ks ∧
    g.edges = ks.flatMap (·.edges) ∧ g.unresolved = ks.flatMap (·.unresolved)

theorem isLink_of_mem (hn : (cs.map (·.name)).Nodup) {e : DependencyEdge}
    (he : e ∈ (ofContracts cs).edges) : (ofContracts cs).IsLink e := by
  rw [edges_eq hn, contributions, List.flatMap_map] at he
  obtain ⟨⟨c, v⟩, ho, he⟩ := List.mem_flatMap.mp he
  obtain ⟨hc, hvc, hv⟩ := mem_occurrences.mp ho
  obtain ⟨d, tier, hr, hne, rfl⟩ := (mem_edges_iff hv).mp he
  have hmem (d : Contract) (hd : d ∈ cs) : d ∈ (ofContracts cs).nodes := by
    rwa [nodes_ofContracts hn]
  exact {
    ne := hne.symm
    target := ⟨d, hmem d hr.mem, rfl⟩
    source := ⟨c, hmem c hc, rfl, v, hvc, hv, rfl⟩ }

/-- No reference is dropped and none counted twice. -/
theorem references_accounted (hn : (cs.map (·.name)).Nodup) : (ofContracts cs).Accounts cs where
  nodes := nodes_ofContracts hn
  links _ he := isLink_of_mem hn he
  contributions := ⟨_, accounts_contributions hn, edges_eq hn, unresolved_eq hn⟩

/-- A contract with the given types and state variables, each a name with its declared type. -/
def plainContract (name : String) (typeNames : List String) (fields : List (String × String)) :
    Contract where
  name := name
  kind := .contract
  sourceName := name
  sourcePath := ""
  bases := []
  stateVariables := fields.map fun v => ⟨v.1, v.2, .internal, false, false, "", 1⟩
  functions := []
  modifierNames := []
  typeNames := typeNames
  line := 1

/-- A vault with a variable for each thing that can become of a reference. -/
def wiredVault : List Contract :=
  [plainContract "Vault" ["Kind"] [("token", "Token"), ("tokenFeed", "Feed"), ("_token", "address"),
    ("missing", "mapping(uint => Missing)"), ("kind", "Kind"), ("next", "Vault"), ("total", "uint")],
   plainContract "Token" [] [], plainContract "ITokenFeed" [] []]

theorem references_accounted_wiredVault :
    (wiredVault.map (·.name)).Nodup ∧
      ((ofContracts wiredVault).edges =
          [⟨"Vault", "Token", "token", .declaredType⟩,
           ⟨"Vault", "ITokenFeed", "tokenFeed", .namingConvention⟩,
           ⟨"Vault", "Token", "_token", .namingConvention⟩] ∧
        (ofContracts wiredVault).unresolved = [⟨"Vault", "missing", "Missing"⟩]) ∧
      (ofContracts wiredVault).Accounts wiredVault := by
  have hn : (wiredVault.map (·.name)).Nodup := by decide
  exact ⟨hn, by decide +kernel, references_accounted hn⟩

end DependencyGraph

end ContractAudit
