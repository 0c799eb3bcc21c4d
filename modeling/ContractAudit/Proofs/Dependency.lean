import ContractAudit.Proofs.Batch
import ContractAudit.Proofs.Parts
import Mathlib.Data.List.Nodup

/-!
# Dependencies and the order of contracts

A type or a variable refers to a contract by its normalized name at the loosest. Where the normalized
names are distinct, the contracts may change places: every look-up finds the same contract, and the
edges and unresolved references of each contract stay as they are.
-/

namespace ContractAudit

/-- The same contracts in another order, told apart by their normalized names. -/
structure Reordered (cs cs' : List Contract) : Prop where
  perm : cs.Perm cs'
  distinct : (cs.map fun c => Dependency.normalize c.name).Nodup

namespace Reordered

variable {cs cs' : List Contract}

theorem nodup_names (h : Reordered cs cs') : (cs.map (·.name)).Nodup := by
  refine List.Nodup.of_map Dependency.normalize ?_
  rw [List.map_map]
  exact h.distinct

theorem nodup_names' (h : Reordered cs cs') : (cs'.map (·.name)).Nodup :=
  (h.perm.map _).nodup_iff.mp h.nodup_names

theorem names (h : Reordered cs cs') : SameParts (·.name) cs cs' :=
  .of_perm h.perm h.nodup_names

theorem normalized (h : Reordered cs cs') :
    SameParts (fun c => Dependency.normalize c.name) cs cs' :=
  .of_perm h.perm h.distinct

end Reordered

/-! ## References -/

namespace Dependency

variable {cs cs' : List Contract}

theorem findByType?_eq (h : Reordered cs cs') (type : String) :
    findByType? type cs = findByType? type cs' := by
  simp only [findByType?, h.names.find?_eq, h.normalized.find?_eq]

theorem findByName?_eq (h : Reordered cs cs') (name : String) :
    findByName? name cs = findByName? name cs' := by
  simp only [findByName?, h.normalized.find?_eq]

theorem reference_eq (h : Reordered cs cs') : reference cs = reference cs' := by
  funext c v
  simp only [reference, target?, findByType?_eq h, findByName?_eq h]

/-- A variable refers to something for its own contract. -/
theorem reference_cases (cs : List Contract) (c : Contract) (v : StateVariable) :
    reference cs c v = .nothing ∨
      (∃ e, reference cs c v = .edge e ∧ e.source = c.name) ∨
      ∃ u, reference cs c v = .unresolved u ∧ u.contract = c.name := by
  unfold reference
  split
  · exact .inl rfl
  · split
    · split
      · exact .inl rfl
      · exact .inr (.inl ⟨_, rfl, rfl⟩)
    · split
      · split
        · exact .inl rfl
        · exact .inr (.inr ⟨_, rfl, rfl⟩)
      · exact .inl rfl

/-- What is picked from the references of each contract stays as it is. -/
theorem references_sameParts (h : Reordered cs cs') {β : Type} {pick : Reference → Option β}
    {tag : β → String}
    (hpick : ∀ c v b, pick (reference cs' c v) = some b → tag b = c.name) :
    SameParts tag ((references cs).filterMap pick) ((references cs').filterMap pick) := by
  simp only [references, reference_eq h, List.filterMap_flatMap, List.filterMap_map]
  refine h.names.flatMap fun c _ b hb => ?_
  obtain ⟨v, -, hv⟩ := List.mem_filterMap.mp hb
  exact hpick c v b hv

end Dependency

namespace DependencyGraph

variable {cs cs' : List Contract}

theorem edges_sameParts (h : Reordered cs cs') :
    SameParts (·.source) (ofContracts cs).edges (ofContracts cs').edges := by
  simp only [ofContracts, nodesOf_eq_self h.nodup_names, nodesOf_eq_self h.nodup_names']
  refine Dependency.references_sameParts h fun c v e he => ?_
  obtain hr | ⟨e', hr, hs⟩ | ⟨u, hr, -⟩ := Dependency.reference_cases cs' c v
  · simp [hr] at he
  · simp only [hr, Option.some.injEq] at he
    exact he ▸ hs
  · simp [hr] at he

theorem unresolved_sameParts (h : Reordered cs cs') :
    SameParts (·.contract) (ofContracts cs).unresolved (ofContracts cs').unresolved := by
  simp only [ofContracts, nodesOf_eq_self h.nodup_names, nodesOf_eq_self h.nodup_names']
  refine Dependency.references_sameParts h fun c v u hu => ?_
  obtain hr | ⟨e, hr, -⟩ | ⟨u', hr, hs⟩ := Dependency.reference_cases cs' c v
  · simp [hr] at hu
  · simp [hr] at hu
  · simp only [hr, Option.some.injEq] at hu
    exact hu ▸ hs

/-! ## Looking up -/

theorem node?_eq (h : Reordered cs cs') (name : String) :
    (ofContracts cs).node? name = (ofContracts cs').node? name := by
  simp only [node?, nodes_ofContracts h.nodup_names, nodes_ofContracts h.nodup_names',
    h.names.find?_eq]

theorem unresolvedOf_eq (h : Reordered cs cs') (contract : String) :
    (ofContracts cs).unresolvedOf contract = (ofContracts cs').unresolvedOf contract :=
  unresolved_sameParts h contract

/-- A call lands in the same contract. -/
theorem resolveCall?_eq (h : Reordered cs cs') (contract : String) (site : CallSite) :
    (ofContracts cs).resolveCall? contract site = (ofContracts cs').resolveCall? contract site := by
  have hedge (contract name : String) :
      (ofContracts cs).edge? contract name = (ofContracts cs').edge? contract name :=
    (edges_sameParts h).find?_and_eq contract (·.via == name)
  simp only [resolveCall?, resolve?, hedge, node?_eq h, nodes_ofContracts h.nodup_names,
    nodes_ofContracts h.nodup_names', Dependency.findByType?_eq h]

end DependencyGraph

/-! ## Cycles -/

namespace Dependency

variable {es es' : List DependencyEdge} {names names' : List String}

theorem successors_eq (h : SameParts (·.source) es es') : successors es = successors es' := by
  funext name
  simp only [successors, h name]

theorem enter_eq (h : SameParts (·.source) es es') (depth : Nat) : enter es depth = enter es' depth := by
  induction depth with
  | zero => rfl
  | succ depth ih =>
    funext name path s
    simp only [enter, ih, successors_eq h]

theorem cycles_eq (h : SameParts (·.source) es es') (hn : names.Perm names') :
    cycles es names = cycles es' names' := by
  simp only [cycles, search, enter_eq h, Text.sort_eq_of_perm hn, hn.length_eq]

end Dependency

namespace DependencyGraph

variable {cs cs' : List Contract}

theorem cycles_ofContracts_eq (h : Reordered cs cs') :
    (ofContracts cs).cycles = (ofContracts cs').cycles := by
  have hn : ((nodesOf cs).map (·.name)).Perm ((nodesOf cs').map (·.name)) := by
    rw [nodesOf_eq_self h.nodup_names, nodesOf_eq_self h.nodup_names']
    exact h.perm.map _
  exact Dependency.cycles_eq (edges_sameParts h) hn

theorem degree_eq (h : Reordered cs cs') (name : String) :
    (ofContracts cs).degree name = (ofContracts cs').degree name := by
  have hs := edges_sameParts h
  simp only [degree, hs name, (hs.perm.filter (·.target == name)).length_eq]

theorem critical_eq (h : Reordered cs cs') : (ofContracts cs).critical = (ofContracts cs').critical := by
  simp only [critical, degree_eq h, cycles_ofContracts_eq h, nodes_ofContracts h.nodup_names,
    nodes_ofContracts h.nodup_names']
  exact Text.sort_eq_of_perm ((h.perm.map _).filter _)

end DependencyGraph

end ContractAudit
