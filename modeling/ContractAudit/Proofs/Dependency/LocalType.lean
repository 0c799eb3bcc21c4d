import ContractAudit.Proofs.Dependency.Resolution

/-!
# Variables of a type that their contract declares

A variable whose type the contract declares itself is never annotated as unresolved and never taken for another
contract because of its own name. The type is looked up among the contracts of the batch all the same: the variable
gives an edge exactly if it is no constant and a contract other than its own answers to the name of the type.
-/

namespace ContractAudit

namespace Dependency

variable {cs : List Contract} {c d : Contract} {v : StateVariable} {type : String}

/-! ## Contracts that answer to a type -/

/-- The name by which a contract is looked up for a type. -/
def simpleName (type : String) : String := String.ofList (Text.trim (lastPart type))

theorem normalize_of_findByType? (h : findByType? type cs = some d) :
    normalize d.name = normalize (simpleName type) := by
  rcases Option.or_eq_some_iff.mp h with h | ⟨-, h⟩
  · have hd := List.find?_some h
    exact congrArg normalize (eq_of_beq hd)
  · have hd := List.find?_some h
    exact eq_of_beq hd

/-- A contract of exactly the name comes before all that only resemble it. -/
theorem exists_findByType? (hd : d ∈ cs) (hname : d.name = simpleName type) :
    ∃ e, findByType? type cs = some e ∧ e.name = d.name := by
  cases h : cs.find? (·.name == simpleName type) with
  | none => exact absurd (beq_iff_eq.mpr hname) (List.find?_eq_none.mp h d hd)
  | some e =>
    have he := List.find?_some h
    exact ⟨e, Option.or_eq_some_iff.mpr (.inl h), (eq_of_beq he).trans hname.symm⟩

/-! ## What the variable gives -/

instance (c : Contract) (type : String) : Decidable (Declares c type) :=
  inferInstanceAs (Decidable (String.ofList (lastPart type) ∈ c.typeNames))

/-- What a variable of a type that its contract declares gives. -/
structure Contribution.IsLocal (k : Contribution) (cs : List Contract) (c : Contract) (v : StateVariable)
    (type : String) : Prop where
  unresolved : k.unresolved = []
  edges : ∀ e, e ∈ k.edges ↔ v.isConstant = false ∧
    ∃ d, findByType? type cs = some d ∧ d.name ≠ c.name ∧ e = ⟨c.name, d.name, v.name, .declaredType⟩
  /-- Where no other contract resembles the type the variable gives nothing. -/
  unlike : (∀ d ∈ cs, normalize d.name = normalize (simpleName type) → d.name = c.name) → k = ⟨[], []⟩
  /-- A contract of the name of the type draws an edge to it. -/
  named : v.isConstant = false → ∀ d ∈ cs, d.name = simpleName type → d.name ≠ c.name →
    k.edges = [⟨c.name, d.name, v.name, .declaredType⟩]

theorem contribution_of_findByType? (hv : v.isConstant = false)
    (ht : TypeText.referencedName? v.declaredType = some type) (hd : findByType? type cs = some d) :
    contribution (reference cs c v) =
      if d.name = c.name then ⟨[], []⟩ else ⟨[⟨c.name, d.name, v.name, .declaredType⟩], []⟩ :=
  contribution_of_target? hv (target?_of_refers (.type ht hd))

theorem contribution_of_declares (hv : v.isConstant = false)
    (ht : TypeText.referencedName? v.declaredType = some type) (hl : Declares c type)
    (hd : findByType? type cs = none) : contribution (reference cs c v) = ⟨[], []⟩ := by
  have htarget : target? cs c v = none := by
    simp only [target?, ht, hd, isLocalType_iff.mpr hl, ↓reduceIte]
  rw [contribution_of_unresolved hv htarget ht, if_pos (isLocalType_iff.mpr hl)]

theorem isLocal_contribution (ht : TypeText.referencedName? v.declaredType = some type)
    (hl : Declares c type) : (contribution (reference cs c v)).IsLocal cs c v type := by
  cases hv : v.isConstant with
  | true =>
    have hnothing : contribution (reference cs c v) = ⟨[], []⟩ := by rw [reference_of_isConstant hv]; rfl
    rw [hnothing]
    exact {
      unresolved := rfl
      edges := fun e => by simp [hv]
      unlike := fun _ => rfl
      named := fun hne => by rw [hv] at hne; cases hne }
  | false =>
    cases hd : findByType? type cs with
    | none =>
      rw [contribution_of_declares hv ht hl hd]
      exact {
        unresolved := rfl
        edges := fun e => by simp [hd]
        unlike := fun _ => rfl
        named := fun _ d hmem hname _ => by
          obtain ⟨e, he, -⟩ := exists_findByType? hmem hname
          rw [hd] at he
          cases he }
    | some d =>
      rw [contribution_of_findByType? hv ht hd]
      refine ⟨by split <;> rfl, fun e => ?_, fun hunlike => ?_, fun _ e hmem hname hne => ?_⟩
      · by_cases hdc : d.name = c.name <;> simp [hdc, hd, hv]
      · rw [if_pos (hunlike d (mem_of_findByType? hd) (normalize_of_findByType? hd))]
      · obtain ⟨d', hd', hname'⟩ := exists_findByType? hmem hname
        rw [hd, Option.some.injEq] at hd'
        rw [if_neg (by rw [hd', hname']; exact hne), hd', hname']

/-- All state variables, each with its contract, in order. -/
def declaredVariables (cs : List Contract) : List (Contract × StateVariable) :=
  cs.flatMap fun c => c.stateVariables.map (c, ·)

/-- What is picked from all references is picked variable by variable. -/
theorem filterMap_references_eq {β : Type} {pick : Reference → Option β} {part : Contribution → List β}
    (hpick : ∀ r, (pick r).toList = part (contribution r)) (cs : List Contract) :
    (references cs).filterMap pick =
      ((declaredVariables cs).map fun o => contribution (reference cs o.1 o.2)).flatMap part := by
  simp only [references, declaredVariables, List.filterMap_eq_flatMap_toList, hpick, List.flatMap_assoc,
    List.map_flatMap, List.map_map, List.flatMap_map]
  rfl

end Dependency

namespace DependencyGraph

open Dependency

/-- The edges and annotations of a graph come variable by variable, and what a variable of a type gives that its
contract declares is known. -/
theorem localTypes_give (cs : List Contract) :
    ∃ ks : List Contribution,
      List.Forall₂ (fun o k => ∀ type, TypeText.referencedName? o.2.declaredType = some type →
        Declares o.1 type → k.IsLocal (ofContracts cs).nodes o.1 o.2 type)
        (declaredVariables (ofContracts cs).nodes) ks ∧
      (ofContracts cs).edges = ks.flatMap (·.edges) ∧ (ofContracts cs).unresolved = ks.flatMap (·.unresolved) := by
  refine ⟨(declaredVariables (ofContracts cs).nodes).map fun o =>
    contribution (reference (ofContracts cs).nodes o.1 o.2), ?_, ?_, ?_⟩
  · rw [List.forall₂_map_right_iff, List.forall₂_same]
    exact fun o _ type ht hl => isLocal_contribution ht hl
  · exact filterMap_references_eq (fun r => by cases r <;> rfl) _
  · exact filterMap_references_eq (fun r => by cases r <;> rfl) _

/-- A vault that declares the types of its variables. -/
def typedVault : Contract :=
  plainContract "Vault" ["Token", "Kind"] [("balance", "Token"), ("kind", "Kind")]

/-- The vault with a contract that has the name of one of its types. -/
def clashingVault : List Contract := [typedVault, plainContract "Token" [] []]

theorem localTypes_give_clashingVault :
    Declares typedVault "Token" ∧ Declares typedVault "Kind" ∧
      ∃ (v w : StateVariable) (k₁ k₂ : Contribution), typedVault.stateVariables = [v, w] ∧
        k₁.IsLocal clashingVault typedVault v "Token" ∧ k₂.IsLocal clashingVault typedVault w "Kind" ∧
        (ofContracts clashingVault).edges = k₁.edges ++ k₂.edges := by
  have htoken : Declares typedVault "Token" := by decide +kernel
  have hkind : Declares typedVault "Kind" := by decide +kernel
  obtain ⟨ks, hks, hedges, -⟩ := localTypes_give clashingVault
  rw [nodes_ofContracts (by decide)] at hks
  refine ⟨htoken, hkind, ?_⟩
  cases hks with
  | cons h₁ hks =>
    cases hks with
    | cons h₂ hks =>
      cases hks
      refine ⟨_, _, _, _, rfl, h₁ "Token" (by decide +kernel) htoken, h₂ "Kind" (by decide +kernel) hkind, ?_⟩
      simpa using hedges

/-- The variable of the type that the vault declares is linked to the contract of the same name. -/
theorem localType_linked_clashingVault :
    Declares typedVault "Token" ∧ TypeText.referencedName? "Token" = some "Token" ∧
      (ofContracts clashingVault).edges = [⟨"Vault", "Token", "balance", .declaredType⟩] := by
  decide +kernel

end DependencyGraph

end ContractAudit
