import ContractAudit.Proofs.Dependency.Cycle
import ContractAudit.Proofs.Dependency.Resolution

/-!
# Critical contracts

A contract is critical if it has more than three links or is on a cycle that was reported. Each contract is entered
once, so the reported cycles need not hold every contract that leads back to itself: a contract is passed over if
each of its ways back runs into contracts that were left before it was entered. At least one contract of every
cycle is held, and all are where no two cycles lead into one contract from different ones.
-/

namespace ContractAudit

/-- A sorted list without repetitions increases strictly. -/
theorem Text.pairwise_sort_of_nodup {ns : List String} (h : ns.Nodup) : (sort ns).Pairwise (· < ·) := by
  have hsorted : (sort ns).Pairwise fun a b => decide (a ≤ b) = true := by
    refine List.pairwise_mergeSort (fun a b c hab hbc => ?_) (fun a b => ?_) ns
    · rw [decide_eq_true_eq] at hab hbc ⊢
      exact String.le_trans hab hbc
    · rw [← Bool.decide_or, decide_eq_true_eq]
      exact String.le_total a b
  have hnodup : (sort ns).Nodup := (List.mergeSort_perm ns _).nodup_iff.mpr h
  refine (hsorted.and hnodup).imp fun {a b} hab => ?_
  have hle : a ≤ b := of_decide_eq_true hab.1
  by_cases hlt : a < b
  · exact hlt
  · exact absurd (String.le_antisymm hle (String.not_lt.mp hlt)) hab.2

namespace Dependency

variable {edges : List DependencyEdge} {names : List String} {n : String}

/-- The contracts in the order in which the search for cycles enters them. -/
def entered (edges : List DependencyEdge) (names : List String) : List String :=
  (search edges names).visited.reverse

/-- The contract is on a way that the search can close: from some `w` to the contract without what was entered
before `w`, on to some `y` without what was entered before the contract, and by an edge back to `w`. -/
def OnWayBack (edges : List DependencyEdge) (names : List String) (n : String) : Prop :=
  ∃ w y, LeadsLater (successors edges) (entered edges names) w n ∧
    LeadsLater (successors edges) (entered edges names) n y ∧ Linked edges y w

/-- No two edges lead into one contract from different contracts that it leads to. -/
def Separate (edges : List DependencyEdge) : Prop :=
  ∀ a b c, Linked edges a c → Linked edges b c → Relation.ReflTransGen (Linked edges) c a →
    Relation.ReflTransGen (Linked edges) c b → a = b

theorem exists_mem_cycles_iff (hw : Within edges names) :
    (∃ c ∈ cycles edges names, n ∈ c) ↔ OnWayBack edges names n := by
  obtain ⟨t, ht, hv, hnames, hc⟩ := exists_forest_cycles hw
  have hback := ht.exists_returns_iff (x := n) fun y w h => hnames (hw.successors_subset y h)
  simp only [OnWayBack, entered, hv, ← mem_successors, ← hback, hc]
  constructor
  · rintro ⟨c, ⟨p, w, hr, rfl⟩, hn⟩
    exact ⟨p, w, hr, by simpa [mem_rotate, or_comm] using hn⟩
  · rintro ⟨p, w, hr, hn⟩
    exact ⟨_, ⟨p, w, hr, rfl⟩, by simpa [mem_rotate, or_comm] using hn⟩

theorem OnWayBack.transGen (h : OnWayBack edges names n) : Relation.TransGen (Linked edges) n n := by
  obtain ⟨w, y, hwn, hny, hyw⟩ := h
  rw [linked_eq] at hyw ⊢
  exact (Relation.TransGen.tail' hny.leads hyw).trans_left hwn.leads

/-- Every cycle has a contract on a way back: the first that was entered. -/
theorem exists_onWayBack (hw : Within edges names) (hn : Relation.TransGen (Linked edges) n n) :
    ∃ m, Relation.ReflTransGen (Linked edges) n m ∧ Relation.ReflTransGen (Linked edges) m n ∧
      OnWayBack edges names m := by
  obtain ⟨t, ht, hv, hnames, -⟩ := exists_forest_cycles hw
  simp only [OnWayBack, entered, hv, linked_eq] at hn ⊢
  obtain ⟨m, y, hnm, hmn, hlater, hy⟩ :=
    DepthFirst.exists_later_return (fun y w h => hnames (hw.successors_subset y h)) hn
  exact ⟨m, hnm, hmn, m, y, .refl, hlater, hy⟩

theorem onWayBack_of_separate (hw : Within edges names) (hs : Separate edges)
    (hn : Relation.TransGen (Linked edges) n n) : OnWayBack edges names n := by
  obtain ⟨t, ht, hv, hnames, -⟩ := exists_forest_cycles hw
  simp only [OnWayBack, entered, hv, Separate, linked_eq] at hn hs ⊢
  exact ht.exists_later_of_separate (fun y w h => hnames (hw.successors_subset y h)) hs hn

end Dependency

namespace DependencyGraph

open Dependency

variable {cs : List Contract}

theorem within_ofContracts (hn : (cs.map (·.name)).Nodup) :
    Within (ofContracts cs).edges (cs.map (·.name)) := by
  intro e he
  obtain ⟨-, ⟨d, hd, htarget⟩, c, hc, hsource, -⟩ := isLink_of_mem hn he
  rw [nodes_ofContracts hn] at hc hd
  exact ⟨hsource ▸ List.mem_map_of_mem hc, htarget ▸ List.mem_map_of_mem hd⟩

/-- What the list of critical contracts of a graph holds. -/
structure ListsCritical (g : DependencyGraph) (names : List String) : Prop where
  sorted : g.critical.Pairwise (· < ·)
  mem_iff : ∀ n, n ∈ g.critical ↔ n ∈ names ∧ (3 < g.degree n ∨ OnWayBack g.edges names n)
  /-- What is on a way back is on a cycle. -/
  sound : ∀ n, OnWayBack g.edges names n → Relation.TransGen (Linked g.edges) n n
  /-- A contract on a cycle has one on a way back that it leads to and that leads to it. -/
  onEveryCycle : ∀ n, Relation.TransGen (Linked g.edges) n n →
    ∃ m, Relation.ReflTransGen (Linked g.edges) n m ∧ Relation.ReflTransGen (Linked g.edges) m n ∧
      OnWayBack g.edges names m
  complete : Separate g.edges → ∀ n, n ∈ g.critical ↔
    n ∈ names ∧ (3 < g.degree n ∨ Relation.TransGen (Linked g.edges) n n)

theorem cycles_eq_of_nodup (hn : (cs.map (·.name)).Nodup) :
    (ofContracts cs).cycles = Dependency.cycles (ofContracts cs).edges (cs.map (·.name)) := by
  simp only [ofContracts, nodesOf_eq_self hn]

theorem mem_critical_iff (hn : (cs.map (·.name)).Nodup) {n : String} :
    n ∈ (ofContracts cs).critical ↔ n ∈ cs.map (·.name) ∧
      (3 < (ofContracts cs).degree n ∨ OnWayBack (ofContracts cs).edges (cs.map (·.name)) n) := by
  rw [critical, mem_sort, List.mem_filter, Bool.or_eq_true, decide_eq_true_eq, List.any_eq_true,
    nodes_ofContracts hn, cycles_eq_of_nodup hn, ← exists_mem_cycles_iff (within_ofContracts hn)]
  simp only [List.contains_iff_mem]

theorem critical_exact (hn : (cs.map (·.name)).Nodup) :
    (ofContracts cs).ListsCritical (cs.map (·.name)) where
  sorted := by
    rw [critical, nodes_ofContracts hn]
    exact Text.pairwise_sort_of_nodup (hn.filter _)
  mem_iff _ := mem_critical_iff hn
  sound _ h := h.transGen
  onEveryCycle _ h := exists_onWayBack (within_ofContracts hn) h
  complete hs n := by
    have hback : OnWayBack (ofContracts cs).edges (cs.map (·.name)) n ↔
        Relation.TransGen (Linked (ofContracts cs).edges) n n :=
      ⟨fun h => h.transGen, fun h => onWayBack_of_separate (within_ofContracts hn) hs h⟩
    rw [mem_critical_iff hn, hback]

/-- A bank and a coin that depend on each other, and a desk on a second cycle through both. -/
def crossedBank : List Contract :=
  [plainContract "Bank" [] [("coin", "Coin"), ("desk", "Desk")], plainContract "Coin" [] [("bank", "Bank")],
   plainContract "Desk" [] [("coin", "Coin")]]

theorem edges_crossedBank : (ofContracts crossedBank).edges =
    [⟨"Bank", "Coin", "coin", .declaredType⟩, ⟨"Bank", "Desk", "desk", .declaredType⟩,
     ⟨"Coin", "Bank", "bank", .declaredType⟩, ⟨"Desk", "Coin", "coin", .declaredType⟩] := by
  decide +kernel

theorem nodup_crossedBank : (crossedBank.map (·.name)).Nodup := by decide

theorem cycles_crossedBank : (ofContracts crossedBank).cycles = [["Bank", "Coin"]] := by
  have hsort : Text.sort (crossedBank.map (·.name)) = ["Bank", "Coin", "Desk"] :=
    List.mergeSort_of_pairwise (by decide)
  have hfound : (search (ofContracts crossedBank).edges (crossedBank.map (·.name))).cycles =
      [["Bank", "Coin"]] := by
    rw [search, hsort, edges_crossedBank]
    decide +kernel
  rw [cycles_eq_of_nodup nodup_crossedBank, Dependency.cycles, hfound]
  exact List.mergeSort_singleton _

theorem critical_crossedBank : (ofContracts crossedBank).critical = ["Bank", "Coin"] := by
  have hfilter : (((ofContracts crossedBank).nodes.map (·.name)).filter fun n =>
      decide (3 < (ofContracts crossedBank).degree n) || (ofContracts crossedBank).cycles.any (·.contains n)) =
        ["Bank", "Coin"] := by
    simp only [degree, edges_crossedBank, cycles_crossedBank, nodes_ofContracts nodup_crossedBank]
    decide
  rw [critical, hfilter]
  exact List.mergeSort_of_pairwise (by decide)

theorem critical_exact_crossedBank :
    (crossedBank.map (·.name)).Nodup ∧ (ofContracts crossedBank).critical = ["Bank", "Coin"] ∧
      (ofContracts crossedBank).ListsCritical (crossedBank.map (·.name)) :=
  ⟨nodup_crossedBank, critical_crossedBank, critical_exact nodup_crossedBank⟩

/-- The desk leads back to itself over the coin and the bank, and is not listed. -/
theorem critical_misses_crossedBank :
    (crossedBank.map (·.name)).Nodup ∧
      Relation.TransGen (Linked (ofContracts crossedBank).edges) "Desk" "Desk" ∧
      "Desk" ∉ (ofContracts crossedBank).critical := by
  refine ⟨nodup_crossedBank, ?_, ?_⟩
  · rw [edges_crossedBank]
    refine .head (b := "Coin") ?_ (.head (b := "Bank") ?_ (.single ?_)) <;> decide
  · rw [critical_crossedBank]
    decide

end DependencyGraph

end ContractAudit
