import ContractAudit.Proofs.Flow.EntryPart
import Mathlib.Data.List.Forall2
import Mathlib.Logic.Relation

/-!
# The call that a flow follows

There is one flow for each call of an entry point that lands in the batch, and the flow comes to that call.
The calls are listed by the inliner and looked for by the walk, which tells the followed call by the names
of its contract and its function and by its number. Both enter a name once only, so they mean the same
function. The walk reaches it before any boundary: it crosses none before the call that it follows, and
the function of that call is entered by then.
-/

namespace ContractAudit

open Relation (ReflTransGen)

/-! ## Functions that the inliner comes to -/

/-- `k` calls the helper `h`, which does not have the name `root`. -/
def Contract.Calls (c : Contract) (root : String) (k h : Function) : Prop :=
  (∃ callee line, .internalCall callee line ∈ k.effects ∧ c.helper? callee = some h) ∧ h.name ≠ root

namespace Inlining

variable {enter : Function → List String → Inlining} {c : Contract} {f : Function} {root : String}

/-- The effect belongs to a function that `f` comes to by calls of helpers. -/
structure ComesTo (c : Contract) (root : String) (f : Function) (p : Function × Effect) : Prop where
  calls : ReflTransGen (c.Calls root) f p.1
  mem : p.2 ∈ p.1.effects

theorem comesTo_of_mem_follow (hsubset : ∀ h u, u ⊆ (enter h u).visited)
    (henter : ∀ h u, root ∈ u → ∀ p ∈ (enter h u).effects, ComesTo c root h p) {es : List Effect}
    (hes : es ⊆ f.effects) {u : List String} (hroot : root ∈ u) {p : Function × Effect}
    (hp : p ∈ (follow enter c f es u).effects) : ComesTo c root f p := by
  induction es generalizing u with
  | nil => cases hp
  | cons e es ih =>
    obtain ⟨he, hrest⟩ := List.cons_subset.mp hes
    by_cases hk : e.kind = .internalCall
    · obtain ⟨callee, line, rfl⟩ := Effect.eq_internalCall hk
      obtain hm | ⟨h, hh, hu⟩ := c.helper?_mem_or callee u
      · rw [follow_call_of_mem hm] at hp
        exact ih hrest hroot hp
      · rw [follow_call_of_not_mem hh hu] at hp
        rcases List.mem_append.mp hp with hp | hp
        · have hcalls : c.Calls root f h := ⟨⟨callee, line, he, hh⟩, fun hn => hu (hn ▸ hroot)⟩
          have hinner := henter h u hroot p hp
          exact ⟨.head hcalls hinner.calls, hinner.mem⟩
        · exact ih hrest (hsubset h u hroot) hp
    · rw [follow_cons hk] at hp
      rcases List.mem_cons.mp hp with rfl | hp
      · exact ⟨.refl, he⟩
      · exact ih hrest hroot hp

theorem comesTo_of_mem_enter (c : Contract) (depth : Nat) {f : Function} {u : List String}
    (hroot : root ∈ f.name :: u) {p : Function × Effect}
    (hp : p ∈ (Inlining.enter c depth f u).effects) : ComesTo c root f p := by
  induction depth generalizing f u p with
  | zero => cases hp
  | succ depth ih =>
    refine comesTo_of_mem_follow (subset_visited_enter c depth) (fun h u hroot p hp => ?_)
      (List.Subset.refl _) hroot hp
    exact ih (List.mem_cons_of_mem _ hroot) hp

end Inlining

theorem Contract.comesTo_of_mem_inlined {c : Contract} {f : Function} {p : Function × Effect}
    (hp : p ∈ c.inlined f) : Inlining.ComesTo c f.name f p :=
  Inlining.comesTo_of_mem_enter c _ List.mem_cons_self hp

/-! ## Functions that the walk comes to -/

namespace Trace.Follows

variable {g : DependencyGraph} {target : CallPosition} {n : Nat} {f : Frame} {ms : List Moment}
  {v : List FrameKey} {t : Trace}

/-- A walk that crosses a boundary has come to the call that it follows. -/
theorem target_of_deep (h : Follows g target n f ms v t) (hms : ms ⊆ f.moments g target)
    (hdepth : f.depth = 0) {s : FlowStep} (hs : s ∈ t.steps) (hdeep : s.depth ≠ 0) :
    ∃ s' ∈ t.steps, (s'.contract, s'.function) = (target.contract, target.function) ∧ s'.depth = 0 := by
  induction h with
  | nil => cases hs
  | skip _ _ ih =>
    obtain ⟨hm, hms⟩ := List.cons_subset.mp hms
    rcases mem_after_steps.mp hs with hs | hs | hs
    · exact absurd ((Frame.step_of_moment hm hs).2.trans hdepth) hdeep
    · cases hs
    · obtain ⟨s', hs', ht⟩ := ih hms hdepth hs
      exact ⟨s', steps_subset_after_rest hs', ht⟩
  | refuse _ _ _ ih =>
    obtain ⟨hm, hms⟩ := List.cons_subset.mp hms
    rcases mem_after_steps.mp hs with hs | hs | hs
    · exact absurd ((Frame.step_of_moment hm hs).2.trans hdepth) hdeep
    · cases hs
    · obtain ⟨s', hs', ht⟩ := ih hms hdepth hs
      exact ⟨s', steps_subset_after_rest hs', ht⟩
  | @descend n f m ms v d t t' hd hv inner rest ih ih' =>
    obtain ⟨hm, hms⟩ := List.cons_subset.mp hms
    obtain ⟨callee, line, k, -, -, -, rfl⟩ | ⟨i, line, site, c, k, -, hfollowed, hstep, -, -, rfl⟩ :=
      Frame.descent_cases hm hd
    · rcases mem_after_steps.mp hs with hs | hs | hs
      · exact absurd ((Frame.step_of_moment hm hs).2.trans hdepth) hdeep
      · obtain ⟨s', hs', ht⟩ := ih (List.Subset.refl _) hdepth hs
        exact ⟨s', steps_subset_after_inner hs', ht⟩
      · obtain ⟨s', hs', ht⟩ := ih' hms hdepth hs
        exact ⟨s', steps_subset_after_rest hs', ht⟩
    · -- The first boundary: at depth zero only the target is followed.
      have htarget : target = ⟨f.contract.name, f.function.name, i⟩ := by
        simpa [Frame.isFollowed, hdepth] using hfollowed
      exact ⟨_, mem_after_steps.mpr (.inl hstep), by rw [htarget]; rfl, hdepth⟩

variable {c : Contract} {entry : Function}

/-- Where nothing is refused, the functions that the entry point comes to are walked to their end. -/
theorem covers_of_calls
    (h : Follows g target n ⟨c, entry, 0⟩ (Frame.moments g target ⟨c, entry, 0⟩) [(c.name, entry.name)] t)
    (hc : c.IsNode g) (hr : t.refused = []) {k : Function}
    (hk : ReflTransGen (c.Calls entry.name) entry k) :
    ∃ depth, Covers t (Frame.moments g target ⟨c, k, depth⟩) := by
  induction hk with
  | refl => exact ⟨0, h.covers hr⟩
  | @tail k k' _ hcall ih =>
    obtain ⟨depth, hcovers⟩ := ih
    obtain ⟨⟨callee, line, he, hh⟩, hne⟩ := hcall
    have hvisited : (c.name, k'.name) ∈ t.visited :=
      hcovers.descent _ (List.mem_map_of_mem he) ⟨c, k', depth⟩ (by simp [Frame.moment, hh])
    have hnew : (c.name, k'.name) ∉ [(c.name, entry.name)] := by simpa using hne
    obtain ⟨d, hkey, hd, -, hwalked⟩ := h.covers_entered (List.Subset.refl _) hc.mem hr hvisited hnew
    obtain ⟨hdc, hdf⟩ := hd.eq_of_key hc hkey (Contract.helper?_name hh)
    obtain ⟨c', k'', depth'⟩ := d
    cases hdc
    cases hdf
    exact ⟨depth', hwalked⟩

/-- Where nothing is refused, the followed call is a step before any boundary. -/
theorem target_step {owner : Function} {i line : Nat} {site : CallSite}
    (h : Follows g ⟨c.name, owner.name, i⟩ n ⟨c, entry, 0⟩
      (Frame.moments g ⟨c.name, owner.name, i⟩ ⟨c, entry, 0⟩) [(c.name, entry.name)] t)
    (hc : c.IsNode g) (hr : t.refused = []) (howner : ReflTransGen (c.Calls entry.name) entry owner)
    (he : .externalCall i line ∈ owner.effects) (hsite : owner.callSites[i]? = some site) :
    ⟨c.name, owner.name, .call (site.label (g.resolveCall? c.name site)) site.movesValue, line, 0⟩ ∈
      t.steps := by
  obtain ⟨depth, hcovers⟩ := h.covers_of_calls hc hr howner
  have hstep : ⟨c.name, owner.name, .call (site.label (g.resolveCall? c.name site)) site.movesValue,
      line, depth⟩ ∈ t.steps :=
    hcovers.step _ (List.mem_map_of_mem he) _ (by simp [Frame.moment, hsite, Frame.step])
  by_cases hdepth : depth = 0
  · rwa [hdepth] at hstep
  · -- Behind the call its function would have two depths.
    obtain ⟨s, hs, hkey, hz⟩ := h.target_of_deep (List.Subset.refl _) rfl hstep hdepth
    have hone := h.oneDepth (List.Subset.refl _) List.mem_cons_self
    exact absurd ((hone _ hstep s hs hkey.symm).trans hz) hdepth

end Trace.Follows

/-! ## Flows and calls -/

/-- What a list is mapped to, element by element, where some elements are dropped. -/
theorem forall₂_filter_filterMap {α β : Type} (f : α → Option β) (xs : List α) :
    List.Forall₂ (fun a b => f a = some b) (xs.filter fun a => (f a).isSome) (xs.filterMap f) := by
  induction xs with
  | nil => exact .nil
  | cons x xs ih =>
    cases hx : f x with
    | none => simpa [hx] using ih
    | some y => simpa [hx] using ih

namespace Flow

/-- The effect is a call out of a function of `c` that lands in a contract of the graph. -/
def lands (g : DependencyGraph) (c : Contract) : Function × Effect → Bool
  | (owner, .externalCall i _) =>
    (owner.callSites[i]?.bind fun site => g.resolveCall? c.name site).isSome
  | _ => false

/-- The position and the label of a call that lands in the batch. -/
def target? (g : DependencyGraph) (c : Contract) : Function × Effect → Option (CallPosition × String)
  | (owner, .externalCall i _) =>
    owner.callSites[i]?.bind fun site =>
      (g.resolveCall? c.name site).map fun d => (⟨c.name, owner.name, i⟩, site.label (some d))
  | _ => none

theorem targets_eq_filterMap (g : DependencyGraph) (c : Contract) (f : Function) :
    targets g c f = (c.inlined f).filterMap (target? g c) := by
  refine List.filterMap_congr fun p _ => ?_
  obtain ⟨owner, e⟩ := p
  cases e <;> rfl

theorem isSome_target? (g : DependencyGraph) (c : Contract) (p : Function × Effect) :
    (target? g c p).isSome = lands g c p := by
  obtain ⟨owner, e⟩ := p
  cases e with
  | externalCall i line => cases h : owner.callSites[i]? <;> simp [target?, lands, h]
  | read name line => rfl
  | write name line => rfl
  | internalCall callee line => rfl

/-- What a target says about the call that it stands for. -/
theorem target?_eq_some {g : DependencyGraph} {c : Contract} {p : Function × Effect}
    {target : CallPosition × String} (h : target? g c p = some target) :
    ∃ i line site d, p.2 = .externalCall i line ∧ p.1.callSites[i]? = some site ∧
      g.resolveCall? c.name site = some d ∧ target = (⟨c.name, p.1.name, i⟩, site.label (some d)) := by
  obtain ⟨owner, e⟩ := p
  cases e with
  | externalCall i line =>
    obtain ⟨site, hsite, h⟩ := Option.bind_eq_some_iff.mp h
    obtain ⟨d, hd, rfl⟩ := Option.map_eq_some_iff.mp h
    exact ⟨i, line, site, d, rfl, hsite, hd, rfl⟩
  | read name line => cases h
  | write name line => cases h
  | internalCall callee line => cases h

/-- The flows of one entry point. -/
def ofEntry (g : DependencyGraph) (maxDepth : Int) (c : Contract) (f : Function) : List Flow :=
  (targets g c f).map (follow g maxDepth c f)

/-- The flow from the function `f` of `c` follows the call `p`, which lands in a contract of the batch. If
the flow is not truncated, the call is one of its steps, in the function that it stands in and before any
boundary. -/
structure Takes (cs : List Contract) (c : Contract) (f : Function) (p : Function × Effect)
    (flow : Flow) : Prop where
  entryContract : flow.entryContract = c.name
  entryFunction : flow.entryFunction = f.name
  call : ∃ i line site, ∃ d ∈ cs, p.2 = .externalCall i line ∧ p.1.callSites[i]? = some site ∧
    (DependencyGraph.ofContracts cs).resolveCall? c.name site = some d ∧
    flow.targetCall = d.name ++ "." ++ site.member ∧
    (flow.isTruncated = false →
      ⟨c.name, p.1.name, .call flow.targetCall site.movesValue, line, 0⟩ ∈ flow.steps)

theorem takes_follow {units : List SourceUnit} {c : Contract} {f : Function} {p : Function × Effect}
    {target : CallPosition × String} (maxDepth : Int) (hc : c ∈ (Extraction.ofUnits units).contracts)
    (hp : p ∈ c.inlined f)
    (ht : target? (.ofContracts (Extraction.ofUnits units).contracts) c p = some target) :
    Takes (Extraction.ofUnits units).contracts c f p
      (follow (.ofContracts (Extraction.ofUnits units).contracts) maxDepth c f target) := by
  obtain ⟨i, line, site, d, he, hsite, hd, rfl⟩ := target?_eq_some ht
  have hcomes := Contract.comesTo_of_mem_inlined hp
  have hbatch : d ∈ (Extraction.ofUnits units).contracts := by
    rw [← DependencyGraph.nodes_ofContracts (Extraction.nodup_names units)]
    exact DependencyGraph.mem_of_resolveCall? hd
  refine ⟨rfl, rfl, i, line, site, d, hbatch, he, hsite, hd, rfl, fun hwhole => ?_⟩
  have hr := isTruncated_eq_false.mp hwhole
  simp only [follow] at hr ⊢
  cases hn : maxDepth.toNat with
  | zero =>
    rw [hn] at hr
    cases hr
  | succ n =>
    rw [hn] at hr
    have hstep := (Trace.follows_walk n ⟨c, f, 0⟩ []).target_step (Extraction.isNode hc) hr hcomes.calls
      (he ▸ hcomes.mem) hsite
    rwa [hd] at hstep

/-- The flows of an entry point are, one by one and in order, those that take its calls that land in the
batch. Nothing else gives a flow. -/
theorem all_take_calls (units : List SourceUnit) (maxDepth : Int) :
    let cs := (Extraction.ofUnits units).contracts
    let g := DependencyGraph.ofContracts cs
    (all g maxDepth cs = cs.flatMap fun c =>
      (c.functions.filter (·.isEntryPoint)).flatMap (ofEntry g maxDepth c)) ∧
    (∀ c ∈ cs, ∀ f ∈ c.functions, f.isEntryPoint = true →
      List.Forall₂ (Takes cs c f) ((c.inlined f).filter (lands g c)) (ofEntry g maxDepth c f)) ∧
    ((∀ c ∈ cs, ∀ f ∈ c.functions, f.isEntryPoint = true → ∀ p ∈ c.inlined f, lands g c p = false) →
      all g maxDepth cs = []) := by
  intro cs g
  have hentry : ∀ c ∈ cs, ∀ f, List.Forall₂ (Takes cs c f) ((c.inlined f).filter (lands g c))
      (ofEntry g maxDepth c f) := by
    intro c hc f
    have hlands : lands g c = fun p => (target? g c p).isSome := funext fun p => (isSome_target? g c p).symm
    rw [ofEntry, targets_eq_filterMap, hlands, List.forall₂_map_right_iff]
    have hpaired := (List.forall₂_and_left _ _).mpr ⟨fun p hp => (List.mem_filter.mp hp).1,
      forall₂_filter_filterMap (target? g c) (c.inlined f)⟩
    exact hpaired.imp fun p target h => takes_follow maxDepth hc h.1 h.2
  refine ⟨rfl, fun c hc f _ _ => hentry c hc f, fun hnone => ?_⟩
  refine List.flatMap_eq_nil_iff.mpr fun c hc => List.flatMap_eq_nil_iff.mpr fun f hf => ?_
  obtain ⟨hf, hef⟩ := List.mem_filter.mp hf
  have hpaired := hentry c hc f
  rw [List.filter_eq_nil_iff.mpr fun p hp => by simp [hnone c hc f hf hef p hp]] at hpaired
  exact List.forall₂_nil_left_iff.mp hpaired

/-- A vault whose helper calls out before the entry point does, and a hook that calls back. -/
def helpingVault : SourceUnit where
  name := "Vault.sol"
  path := ""
  text := "contract Vault \x7b Hook hook; function exit() public \x7b burn(); hook.leave(); \x7d " ++
    "function burn() internal \x7b hook.run(); \x7d \x7d " ++
    "contract Hook \x7b Vault vault; function run() public \x7b vault.exit(); \x7d " ++
    "function leave() public \x7b \x7d \x7d"

/-- A contract whose only call out lands nowhere. -/
def payingWallet : SourceUnit where
  name := "Wallet.sol"
  path := ""
  text := "contract Wallet \x7b function pay(address payable to) public \x7b to.transfer(1); \x7d \x7d"

theorem all_take_calls_helpingVault :
    (let cs := (Extraction.ofUnits [helpingVault]).contracts
      let g := DependencyGraph.ofContracts cs
      ∃ c ∈ cs, ∃ f ∈ c.functions, f.isEntryPoint = true ∧ (ofEntry g 8 c f).length = 2 ∧
        (∀ flow ∈ ofEntry g 8 c f, flow.isTruncated = false) ∧
        (∃ p ∈ (c.inlined f).filter (lands g c), p.1 ≠ f) ∧
        List.Forall₂ (Takes cs c f) ((c.inlined f).filter (lands g c)) (ofEntry g 8 c f)) ∧
    (let cs := (Extraction.ofUnits [payingWallet]).contracts
      let g := DependencyGraph.ofContracts cs
      (∃ c ∈ cs, ∃ f ∈ c.functions, f.isEntryPoint = true ∧ c.inlined f ≠ []) ∧ all g 8 cs = []) := by
  constructor
  · obtain ⟨c, hc, f, hf, he, hlength, hwhole, hhelper⟩ :
        let cs := (Extraction.ofUnits [helpingVault]).contracts
        let g := DependencyGraph.ofContracts cs
        ∃ c ∈ cs, ∃ f ∈ c.functions, f.isEntryPoint = true ∧ (ofEntry g 8 c f).length = 2 ∧
          (∀ flow ∈ ofEntry g 8 c f, flow.isTruncated = false) ∧
          ∃ p ∈ (c.inlined f).filter (lands g c), p.1 ≠ f := by decide +kernel
    exact ⟨c, hc, f, hf, he, hlength, hwhole, hhelper,
      (all_take_calls [helpingVault] 8).2.1 c hc f hf he⟩
  · obtain ⟨hcalls, hnone⟩ :
        let cs := (Extraction.ofUnits [payingWallet]).contracts
        let g := DependencyGraph.ofContracts cs
        (∃ c ∈ cs, ∃ f ∈ c.functions, f.isEntryPoint = true ∧ c.inlined f ≠ []) ∧
          ∀ c ∈ cs, ∀ f ∈ c.functions, f.isEntryPoint = true → ∀ p ∈ c.inlined f,
            lands g c p = false := by decide +kernel
    exact ⟨hcalls, (all_take_calls [payingWallet] 8).2.2 hnone⟩

end Flow

end ContractAudit
