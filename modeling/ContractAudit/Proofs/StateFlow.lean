import ContractAudit.Proofs.Dependency
import ContractAudit.Proofs.Reentrancy.Strongest
import ContractAudit.StateFlow

/-!
# State flow and the order of contracts

A flow depends on the graph only through where calls land, so each contract has the same flows in
whatever order the contracts come. Its reentrancy and invariant findings follow: the strongest hit on a
variable is chosen among the hits of one contract.
-/

namespace ContractAudit

/-! ## Flows -/

section Calls

variable {g g' : DependencyGraph}
  (h : ∀ contract site, g.resolveCall? contract site = g'.resolveCall? contract site)

include h

theorem Frame.moment_eq : Frame.moment g = Frame.moment g' := by
  funext target f e
  cases e with
  | read name line => rfl
  | write name line => rfl
  | internalCall callee line => rfl
  | externalCall i line => simp only [moment, h]

theorem Trace.walk_eq (target : CallPosition) (n : Nat) : walk g target n = walk g' target n := by
  induction n with
  | zero => rfl
  | succ n ih =>
    funext f v
    simp only [walk, ih, Frame.moments, Frame.moment_eq h]

theorem Flow.targets_eq : Flow.targets g = Flow.targets g' := by
  funext c f
  simp only [targets, h]

theorem Flow.follow_eq (maxDepth : Int) : Flow.follow g maxDepth = Flow.follow g' maxDepth := by
  funext c f target
  simp only [follow, Trace.walk_eq h]

end Calls

variable {cs cs' : List Contract}

theorem Flow.all_sameParts (h : Reordered cs cs') (maxDepth : Int) :
    SameParts (·.entryContract) (all (.ofContracts cs) maxDepth cs)
      (all (.ofContracts cs') maxDepth cs') := by
  have hcalls := DependencyGraph.resolveCall?_eq h
  simp only [all, targets_eq hcalls, follow_eq hcalls]
  refine h.names.flatMap fun c _ flow hflow => ?_
  obtain ⟨f, -, hflow⟩ := List.mem_flatMap.mp hflow
  obtain ⟨target, -, rfl⟩ := List.mem_map.mp hflow
  rfl

/-! ## Reentrancy -/

namespace Reentrancy

variable {policy : Policy} {flows flows' : List Flow} {g : Option DependencyGraph}

theorem finding_eq (h : Reordered cs cs') :
    finding policy (some (.ofContracts cs)) = finding policy (some (.ofContracts cs')) := by
  funext f v
  simp only [finding, Option.bind_some, Option.any_some, DependencyGraph.node?_eq h,
    DependencyGraph.unresolvedOf_eq h]

theorem contract_key_finding (f : Flow) (v : Violation) :
    (finding policy g f v).key.contract = f.entryContract := rfl

theorem hits_sameParts (h : SameParts (·.entryContract) flows flows') :
    SameParts (·.1.1) (hits policy g flows) (hits policy g flows') := by
  refine (h.filter _).flatMap fun f _ e he => ?_
  obtain ⟨v, -, rfl⟩ := List.mem_map.mp he
  rfl

theorem filter_keep_of_pos {p : Key → Bool} {hit : Key × Finding} (hp : p hit.1 = true)
    (t : Table Key Finding) :
    (keep t hit).filter (fun e => p e.1) = keep (t.filter fun e => p e.1) hit := by
  simp only [keep, Table.get?_filter hp]
  split
  · split
    · exact Table.filter_put_of_pos hp t hit.2
    · rfl
  · exact Table.filter_put_of_pos hp t hit.2

theorem filter_keep_of_neg {p : Key → Bool} {hit : Key × Finding} (hp : p hit.1 = false)
    (t : Table Key Finding) : (keep t hit).filter (fun e => p e.1) = t.filter fun e => p e.1 := by
  simp only [keep]
  split
  · split
    · exact Table.filter_put_of_neg hp t hit.2
    · rfl
  · exact Table.filter_put_of_neg hp t hit.2

/-- The strongest hits with some keys are the strongest of the hits with these keys. -/
theorem filter_foldl_keep (p : Key → Bool) (hs : List (Key × Finding)) (t : Table Key Finding) :
    (hs.foldl keep t).filter (fun e => p e.1) =
      (hs.filter fun e => p e.1).foldl keep (t.filter fun e => p e.1) := by
  induction hs generalizing t with
  | nil => rfl
  | cons hit hs ih =>
    rw [List.foldl_cons, ih]
    cases hp : p hit.1 with
    | true => simp [filter_keep_of_pos hp, hp]
    | false => simp [filter_keep_of_neg hp, hp]

theorem foldl_keep_sameParts {hs hs' : List (Key × Finding)} (h : SameParts (·.1.1) hs hs') :
    SameParts (·.1.1) (hs.foldl keep []) (hs'.foldl keep []) := by
  intro n
  rw [filter_foldl_keep (fun key => key.1 == n), filter_foldl_keep (fun key => key.1 == n), h n]

theorem findings_sameParts (h : SameParts (·.entryContract) flows flows') :
    SameParts (·.key.contract) (findings policy g flows) (findings policy g flows') := by
  refine (foldl_keep_sameParts (hits_sameParts h)).map fun ⟨key, x⟩ hx => ?_
  obtain ⟨flow, -, hit⟩ := mem_hits.mp ((isStrongest_foldl (hits policy g flows)).mem key x hx)
  obtain ⟨v, -, -, rfl⟩ := hit.made
  rw [contract_key_finding]
  exact hit.exposes.contract

end Reentrancy

/-! ## Invariants -/

namespace Invariant

variable {patterns : List InvariantPattern} {judged judged' : List JudgedInvariant}

theorem check_sameParts (patterns : List InvariantPattern) (h : Reordered cs cs') :
    SameParts (·.contract) (check patterns cs) (check patterns cs') := by
  refine (h.names.filter _).flatMap fun c _ i hi => ?_
  obtain ⟨p, -, hp⟩ := List.mem_filterMap.mp hi
  unfold judge? at hp
  split at hp
  · obtain ⟨v, -, rfl⟩ := Option.map_eq_some_iff.mp hp
    rfl
  · cases hp

theorem finding_eq (h : Reordered cs cs') (p : InvariantPattern) :
    finding p (some (.ofContracts cs)) = finding p (some (.ofContracts cs')) := by
  funext i
  simp only [finding, Option.bind_some, DependencyGraph.node?_eq h]

theorem contract_key_finding (p : InvariantPattern) (g : Option DependencyGraph)
    (i : JudgedInvariant) : (finding p g i).key.contract = i.contract := by
  simp only [Finding.key, Finding.primaryLocation?, finding, List.head?_map]
  cases i.verdict.functions <;> rfl

theorem findings_sameParts (g : Option DependencyGraph)
    (h : SameParts (·.contract) judged judged') :
    SameParts (·.key.contract) (findings patterns g judged) (findings patterns g judged') := by
  simp only [findings, List.filterMap_eq_flatMap_toList]
  refine (h.filter _).flatMap fun i _ x hx => ?_
  obtain ⟨p, -, rfl⟩ := Option.map_eq_some_iff.mp (Option.mem_toList.mp hx)
  exact contract_key_finding p g i

end Invariant

namespace StateFlow

theorem findings_sameParts (h : Reordered cs cs') (maxDepth : Int) (policy : Reentrancy.Policy) :
    SameParts (·.key.contract) (ofContracts (.ofContracts cs) maxDepth policy cs).findings
      (ofContracts (.ofContracts cs') maxDepth policy cs').findings := by
  have hr : Reentrancy.findings policy (some (.ofContracts cs)) =
      Reentrancy.findings policy (some (.ofContracts cs')) := by
    funext flows
    simp only [Reentrancy.findings, Reentrancy.hits, Reentrancy.finding_eq h]
  have hi : Invariant.findings Invariant.catalogue (some (.ofContracts cs)) =
      Invariant.findings Invariant.catalogue (some (.ofContracts cs')) := by
    funext judged
    simp only [Invariant.findings, Invariant.finding_eq h]
  simp only [ofContracts, hr, hi]
  exact (Reentrancy.findings_sameParts (Flow.all_sameParts h maxDepth)).append
    (Invariant.findings_sameParts _ (Invariant.check_sameParts _ h))

end StateFlow

end ContractAudit
