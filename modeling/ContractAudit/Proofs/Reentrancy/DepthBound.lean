import ContractAudit.Proofs.Flow.DepthBound
import ContractAudit.Proofs.Reentrancy.Strongest

/-!
# Reentrancy under a larger depth bound

A flow that is whole under one bound is a flow under every larger bound, with the same hits. So a
confirmed finding, which is the hit of a whole flow, stays a hit when the bound is raised, and what is
reported then on the same variable is no weaker. It may be more severe and heuristic: a larger bound
also shows calls that move value in flows which it still cuts off.
-/

namespace ContractAudit

namespace Flow

variable {g : DependencyGraph} {d d' : Int}

theorem follow_eq_of_le {c : Contract} {f : Function} {target : CallPosition × String}
    (ht : (follow g d c f target).isTruncated = false) (hd : d ≤ d') :
    follow g d' c f target = follow g d c f target := by
  have hw := Trace.walk_eq_of_le (isTruncated_eq_false.mp ht) (Int.toNat_le_toNat hd)
  simp only [follow, hw]

/-- A whole flow is a flow under every larger bound. -/
theorem mem_all_of_le {cs : List Contract} {flow : Flow} (h : flow ∈ all g d cs)
    (ht : flow.isTruncated = false) (hd : d ≤ d') : flow ∈ all g d' cs := by
  obtain ⟨c, hc, h⟩ := List.mem_flatMap.mp h
  obtain ⟨f, hf, h⟩ := List.mem_flatMap.mp h
  obtain ⟨target, htarget, rfl⟩ := List.mem_map.mp h
  refine List.mem_flatMap.mpr ⟨c, hc, List.mem_flatMap.mpr ⟨f, hf, ?_⟩⟩
  exact List.mem_map.mpr ⟨target, htarget, follow_eq_of_le ht hd⟩

end Flow

namespace Reentrancy

/-! ## What a finding is on -/

/-- What is advised on a variable. -/
def advice (name : String) : String :=
  "Update `" ++ name ++ "` before calling out (checks-effects-interactions) or " ++
    "protect the entry point with a reentrancy guard such as nonReentrant."

theorem advice_inj {a b : String} : advice a = advice b ↔ a = b := by
  constructor
  · intro h
    have hl := congrArg String.toList h
    simp only [advice, String.toList_append, List.append_assoc, List.append_cancel_left_eq] at hl
    exact String.toList_inj.mp (List.append_cancel_right hl)
  · rintro rfl
    rfl

/-- The finding is on a variable of an entry point: it stands at the entry point and advises on the
variable. -/
structure IsOn (x : Finding) (key : Key) : Prop where
  place : x.locations.map (fun l => (l.contract, l.function)) = [(key.1, key.2.1)]
  advised : x.recommendation = advice key.2.2

instance (x : Finding) (key : Key) : Decidable (IsOn x key) :=
  decidable_of_iff (x.locations.map (fun l => (l.contract, l.function)) = [(key.1, key.2.1)] ∧
    x.recommendation = advice key.2.2) ⟨fun h => ⟨h.1, h.2⟩, fun h => ⟨h.place, h.advised⟩⟩

variable {policy : Policy} {g : Option DependencyGraph} {flows : List Flow} {flow : Flow}
  {key key' : Key} {x : Finding}

/-- A hit is on its own variable and on no other. -/
theorem IsHit.isOn_iff (h : IsHit policy g flow key x) : IsOn x key' ↔ key' = key := by
  obtain ⟨v, -, hv, rfl⟩ := h.made
  obtain ⟨contract, function, name⟩ := key
  obtain ⟨contract', function', name'⟩ := key'
  obtain rfl : flow.entryContract = contract := h.exposes.contract
  obtain rfl : flow.entryFunction = function := h.exposes.function
  obtain rfl : v.name = name := hv
  constructor
  · rintro ⟨hplace, hadvised⟩
    obtain ⟨rfl, rfl⟩ := Prod.mk.inj (List.head_eq_of_cons_eq hplace)
    obtain rfl : v.name = name' := advice_inj.mp hadvised
    rfl
  · intro he
    cases he
    exact ⟨rfl, rfl⟩

/-! ## What is reported -/

theorem exists_isHit_of_mem (hx : x ∈ findings policy g flows) :
    ∃ key, ∃ flow ∈ flows, IsHit policy g flow key x := by
  obtain ⟨⟨key, y⟩, hy, rfl⟩ := List.mem_map.mp hx
  exact ⟨key, mem_hits.mp ((isStrongest_foldl (hits policy g flows)).mem key y hy)⟩

/-- A finding no weaker than a hit is reported on its variable. -/
theorem IsHit.exists_reported (hf : flow ∈ flows) (h : IsHit policy g flow key x) :
    ∃ y ∈ findings policy g flows, IsOn y key ∧ x.AtMost y := by
  have best := isStrongest_foldl (hits policy g flows)
  have hx : (key, x) ∈ hits policy g flows := mem_hits.mpr ⟨flow, hf, h⟩
  obtain ⟨y, hy⟩ := Table.mem_keys.mp ((best.keys key).mpr ⟨x, hx⟩)
  obtain ⟨flow', -, hit⟩ := mem_hits.mp (best.mem key y hy)
  exact ⟨y, List.mem_map.mpr ⟨(key, y), hy, rfl⟩, hit.isOn_iff.mpr rfl, best.atMost key y x hy hx⟩

/-- Raising the depth bound loses no confirmed finding: on the same variable there is one that is at
least as severe and, if it is just as severe, confirmed too. -/
theorem confirmed_kept_of_le (policy : Policy) (known : Option DependencyGraph) (g : DependencyGraph)
    (cs : List Contract) {d d' : Int} (hd : d ≤ d') {key : Key} {x : Finding}
    (hx : x ∈ findings policy known (Flow.all g d cs)) (hk : IsOn x key)
    (hc : x.confidence = .confirmed) :
    ∃ y ∈ findings policy known (Flow.all g d' cs), IsOn y key ∧
      x.severity.rank ≤ y.severity.rank ∧
      (y.severity = x.severity → y.confidence = .confirmed) := by
  obtain ⟨key', flow, hf, hit⟩ := exists_isHit_of_mem hx
  obtain rfl := hit.isOn_iff.mp hk
  have hf' := Flow.mem_all_of_le hf (hit.confirmed.mp hc) hd
  obtain ⟨y, hy, hon, hle⟩ := hit.exists_reported hf'
  refine ⟨y, hy, hon, ?_⟩
  rcases hle with hlt | ⟨heq, hconf⟩
  · refine ⟨Nat.le_of_lt hlt, fun he => ?_⟩
    rw [he] at hlt
    exact absurd hlt (Nat.lt_irrefl _)
  · exact ⟨Nat.le_of_eq heq, fun _ => hconf hc⟩

/-- A vault that asks a feed and runs a hook before it writes its books. The feed has no code, and the
hook pays out through a token. -/
def hookedVault : List SourceUnit :=
  [⟨"Vault.sol", "", "contract Vault \x7b Feed feed; Hook hook; uint shares; uint users; " ++
      "function exit() public \x7b shares; users; feed.ping(); hook.run(); " ++
      "shares = 0; users = 0; \x7d \x7d"⟩,
   ⟨"Feed.sol", "", "interface Feed \x7b function ping() external; \x7d"⟩,
   ⟨"Hook.sol", "",
    "contract Hook \x7b Token token; function run() public \x7b token.transfer(); \x7d \x7d"⟩,
   ⟨"Token.sol", "", "contract Token \x7b function transfer() public \x7b \x7d \x7d"⟩]

/-- With room for one frame only the flow into the feed is whole, and the shares are a confirmed
finding of high severity. With room for two the flow into the hook meets the payment and is cut off
there, so that the finding is critical and heuristic. -/
theorem confirmed_kept_of_le_hookedVault :
    let cs := (Extraction.ofUnits hookedVault).contracts
    let g := DependencyGraph.ofContracts cs
    let policy : Policy := ⟨["nonReentrant"], ["share"]⟩
    let key : Key := ("Vault", "exit", "shares")
    (∃ x ∈ findings policy (some g) (Flow.all g 1 cs), IsOn x key ∧ x.severity = .high ∧
      x.confidence = .confirmed ∧
      ∃ y ∈ findings policy (some g) (Flow.all g 2 cs), IsOn y key ∧
        x.severity.rank ≤ y.severity.rank ∧
        (y.severity = x.severity → y.confidence = .confirmed)) ∧
    ∃ y ∈ findings policy (some g) (Flow.all g 2 cs), IsOn y key ∧ y.severity = .critical ∧
      y.confidence = .heuristic := by
  intro cs g policy key
  obtain ⟨⟨x, hx, hk, hs, hc⟩, hy⟩ : (∃ x ∈ findings policy (some g) (Flow.all g 1 cs),
      IsOn x key ∧ x.severity = .high ∧ x.confidence = .confirmed) ∧
      ∃ y ∈ findings policy (some g) (Flow.all g 2 cs), IsOn y key ∧ y.severity = .critical ∧
        y.confidence = .heuristic := by decide +kernel
  exact ⟨⟨x, hx, hk, hs, hc, confirmed_kept_of_le policy (some g) g cs (by decide) hx hk hc⟩, hy⟩

end Reentrancy

end ContractAudit
