import ContractAudit.Proofs.Batch
import ContractAudit.Proofs.Flow.Walk

/-!
# The depth bound

The bound on the frames of a flow only cuts it off. A walk that was refused nothing is the same walk
under every larger bound, and no walk is refused anything when the bound is the number of functions
of the graph: the frames on the way are all different.
-/

namespace ContractAudit

/-- The functions of the graph, as pairs of names, each pair once. -/
def DependencyGraph.functionKeys (g : DependencyGraph) : List FrameKey :=
  (g.nodes.flatMap fun c => c.functions.map fun f => (c.name, f.name)).eraseDups

theorem DependencyGraph.mem_functionKeys {g : DependencyGraph} {c : Contract} {f : Function}
    (hc : c ∈ g.nodes) (hf : f ∈ c.functions) : (c.name, f.name) ∈ g.functionKeys := by
  rw [functionKeys, List.mem_eraseDups]
  exact List.mem_flatMap.mpr ⟨c, hc, List.mem_map.mpr ⟨f, hf, rfl⟩⟩

theorem Frame.IsHelper.key_mem {g : DependencyGraph} {f : Frame} (h : f.IsHelper g) :
    f.key ∈ g.functionKeys :=
  DependencyGraph.mem_functionKeys h.contract_mem (Contract.mem_of_helper? h.helper)

namespace Trace

variable {g : DependencyGraph} {target : CallPosition} {n : Nat} {f : Frame} {ms : List Moment}
  {v : List FrameKey} {t : Trace}

/-- A trace without a refusal is also left under a larger bound. -/
theorem Follows.follow_eq_of_le (h : Follows g target n f ms v t) (hr : t.refused = []) {k : Nat}
    (hk : n ≤ k) : follow (walk g target k) ms v = t := by
  induction h generalizing k with
  | nil => rfl
  | skip hd _ ih => rw [follow_cons_of_mem hd, ih (refused_after.mp hr).2 hk]
  | refuse _ _ _ _ => cases (refused_after.mp hr).1
  | @descend n _ _ _ v d t _ hd hv _ _ ih ih' =>
    obtain ⟨hr, hr'⟩ := refused_after.mp hr
    obtain ⟨k, rfl⟩ : ∃ j, k = j + 1 := ⟨k - 1, by omega⟩
    have hw : walk g target (k + 1) d v = t := ih hr (by omega)
    rw [follow_cons_of_not_mem hd hv, hw, ih' hr' hk]

/-- With room for all functions that are not entered yet nothing is refused. -/
theorem Follows.refused_eq_nil (h : Follows g target n f ms v t) (hms : ms ⊆ f.moments g target)
    (hc : f.contract ∈ g.nodes) (hn : room g.functionKeys v ≤ n) : t.refused = [] := by
  induction h with
  | nil => rfl
  | skip _ _ ih => exact refused_after.mpr ⟨rfl, ih (List.cons_subset.mp hms).2 hc hn⟩
  | refuse hd hv _ _ =>
    obtain ⟨hm, -⟩ := List.cons_subset.mp hms
    have := room_cons_lt (Frame.isHelper_descent hc hm hd).key_mem hv
    omega
  | descend hd hv inner _ ih ih' =>
    obtain ⟨hm, hms⟩ := List.cons_subset.mp hms
    have hh := Frame.isHelper_descent hc hm hd
    have hlt := room_cons_lt hh.key_mem hv
    have hle := room_mono g.functionKeys inner.visited_subset
    exact refused_after.mpr
      ⟨ih (List.Subset.refl _) hh.contract_mem (by omega), ih' hms hc (by omega)⟩

theorem walk_eq_of_le (hr : (walk g target n f v).refused = []) {k : Nat} (hk : n ≤ k) :
    walk g target k f v = walk g target n f v := by
  cases n with
  | zero => cases hr
  | succ n =>
    obtain ⟨k, rfl⟩ : ∃ j, k = j + 1 := ⟨k - 1, by omega⟩
    exact (follows_walk n f v).follow_eq_of_le hr (by omega)

theorem refused_walk_eq_nil (hc : f.contract ∈ g.nodes) (hf : f.function ∈ f.contract.functions)
    (hn : g.functionKeys.length ≤ n) : (walk g target n f []).refused = [] := by
  have hlt : room g.functionKeys [f.key] < g.functionKeys.length := by
    rw [← room_nil g.functionKeys]
    exact room_cons_lt (DependencyGraph.mem_functionKeys hc hf) List.not_mem_nil
  obtain ⟨n, rfl⟩ : ∃ j, n = j + 1 := ⟨n - 1, by omega⟩
  exact (follows_walk n f []).refused_eq_nil (List.Subset.refl _) hc (by omega)

end Trace

namespace Flow

theorem isTruncated_eq_false {f : Flow} : f.isTruncated = false ↔ f.refused = [] := by
  simp [isTruncated]

/-- A flow that is not truncated stays the same under every larger bound, and a bound of the number of
functions in the graph truncates nothing. -/
theorem follow_depth_bound (units : List SourceUnit) {c : Contract} {f : Function}
    (hc : c ∈ (Extraction.ofUnits units).contracts) (hf : f ∈ c.functions)
    (target : CallPosition × String) (d : Int) :
    let g := DependencyGraph.ofContracts (Extraction.ofUnits units).contracts
    ((follow g d c f target).isTruncated = false →
      ∀ d', d ≤ d' → follow g d' c f target = follow g d c f target) ∧
    ((g.functionKeys.length : Int) ≤ d → (follow g d c f target).isTruncated = false) := by
  intro g
  constructor
  · intro ht d' hd
    have hw := Trace.walk_eq_of_le (isTruncated_eq_false.mp ht) (Int.toNat_le_toNat hd)
    simp only [follow, hw]
  · intro hd
    have hg : c ∈ g.nodes := by
      rw [DependencyGraph.nodes_ofContracts (Extraction.nodup_names units)]
      exact hc
    exact isTruncated_eq_false.mpr
      (Trace.refused_walk_eq_nil (f := ⟨c, f, 0⟩) hg hf (by omega))

/-- Two contracts that call each other. -/
def pingPong : SourceUnit where
  name := "PingPong.sol"
  path := ""
  text := "contract Ping \x7b Pong pong; function ping() external \x7b pong.pong(); \x7d \x7d " ++
    "contract Pong \x7b Ping ping; function pong() external \x7b ping.ping(); \x7d \x7d"

theorem follow_depth_bound_pingPong :
    let cs := (Extraction.ofUnits [pingPong]).contracts
    let g := DependencyGraph.ofContracts cs
    ∃ c ∈ cs, ∃ f ∈ c.functions, ∃ target ∈ targets g c f,
      (follow g 1 c f target).isTruncated = true ∧ (follow g 2 c f target).isTruncated = false ∧
        ∀ d, 2 ≤ d → follow g d c f target = follow g 2 c f target := by
  intro cs g
  obtain ⟨c, hc, f, hf, target, ht, h1, h2⟩ : ∃ c ∈ cs, ∃ f ∈ c.functions,
      ∃ target ∈ targets g c f, (follow g 1 c f target).isTruncated = true ∧
        (g.functionKeys.length : Int) ≤ 2 := by decide +kernel
  have hb := follow_depth_bound [pingPong] hc hf target 2
  exact ⟨c, hc, f, hf, target, ht, h1, hb.2 h2, hb.1 (hb.2 h2)⟩

end Flow

end ContractAudit
