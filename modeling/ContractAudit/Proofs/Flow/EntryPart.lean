import ContractAudit.Proofs.Contract
import ContractAudit.Proofs.Flow.DepthBound
import Mathlib.Data.List.Nodup

/-!
# The part of a flow in its entry contract

The steps at depth zero are the effects of the entry point with its helpers in place, less the effects
of the helpers that the flow has run through behind a call out of the contract. A function is entered
once in a flow, so a callee that calls back into a helper first takes the helper's effects with it to
its own depth. The inliner keeps the names it has entered and the walk the frames; `InStep` says how
the two sets stand to each other wherever both have come to the same effect.
-/

namespace ContractAudit

/-! ## What an effect and a step have in common -/

def FlowAction.kind : FlowAction → EffectKind
  | read name => .read name
  | write name => .write name
  | call .. => .externalCall

structure Outline where
  kind : EffectKind
  function : String
  line : Nat
  deriving DecidableEq, Repr

/-- An effect as it stands in the body of `owner`. -/
def Effect.outline (owner : Function) (e : Effect) : Outline := ⟨e.kind, owner.name, e.line⟩

def FlowStep.outline (s : FlowStep) : Outline := ⟨s.action.kind, s.function, s.line⟩

/-- A step in a function of the contract, reached over a boundary. -/
def FlowStep.isReentry (s : FlowStep) (contract function : String) : Bool :=
  s.contract == contract && s.function == function && s.depth != 0

namespace Flow

/-- The steps in the entry contract, before any boundary. -/
def entrySteps (f : Flow) : List FlowStep := f.steps.filter (·.depth == 0)

/-- The flow comes back to a function of its entry contract. -/
def reenters (f : Flow) (function : String) : Bool :=
  f.steps.any (·.isReentry f.entryContract function)

end Flow

theorem Frame.step?_moment (g : DependencyGraph) (target : CallPosition) {f : Frame} {e : Effect}
    (hf : f.function.IsSited) (he : e ∈ f.function.effects) (hk : e.kind ≠ .internalCall) :
    ∃ s, (f.moment g target e).step? = some s ∧ s.outline = e.outline f.function ∧
      s.contract = f.contract.name ∧ s.depth = f.depth := by
  cases e with
  | read name line => exact ⟨_, rfl, rfl, rfl, rfl⟩
  | write name line => exact ⟨_, rfl, rfl, rfl, rfl⟩
  | internalCall callee line => exact absurd rfl hk
  | externalCall i line =>
    have hs := List.getElem?_eq_getElem (hf i line he)
    simp only [moment, hs]
    exact ⟨_, rfl, rfl, rfl, rfl⟩

/-- A call out leads over a boundary. -/
theorem Frame.depth_of_externalCall {g : DependencyGraph} {target : CallPosition} {f d : Frame}
    {i line : Nat} (hd : (f.moment g target (.externalCall i line)).descent? = some d) :
    d.depth = f.depth + 1 := by
  simp only [moment] at hd
  split at hd
  · cases hd
  · simp only [Option.ite_none_right_eq_some, Option.bind_eq_some_iff, Option.map_eq_some_iff] at hd
    obtain ⟨-, c, -, h, -, rfl⟩ := hd
    rfl

/-! ## Helpers behind a call -/

/-- The effect is a step of `ss` behind a call out of `c`. -/
def Effect.IsCalledBack (c : Contract) (ss : List FlowStep) (owner : Function) (e : Effect) : Prop :=
  ∃ s ∈ ss, s.contract = c.name ∧ s.depth ≠ 0 ∧ s.outline = e.outline owner

/-- The helper was run through behind a call: its effects are steps there, and its own helpers are
entered. -/
structure Contract.CalledBack (c : Contract) (ss : List FlowStep) (v : List FrameKey)
    (h : Function) : Prop where
  effects : ∀ e ∈ h.effects, e.kind ≠ .internalCall → e.IsCalledBack c ss h
  helpers : ∀ callee line k, .internalCall callee line ∈ h.effects → c.helper? callee = some k →
    (c.name, k.name) ∈ v

/-- The inliner has entered `u` where the walk has entered `v`. What only the walk has entered was
called back. -/
structure InStep (c : Contract) (ss : List FlowStep) (u : List String) (v : List FrameKey) :
    Prop where
  entered : ∀ name ∈ u, (c.name, name) ∈ v
  calledBack : ∀ h, c.helper? h.name = some h → (c.name, h.name) ∈ v → h.name ∉ u →
    c.CalledBack ss v h

variable {c : Contract} {ss : List FlowStep} {u : List String} {v w : List FrameKey}

theorem Contract.CalledBack.mono {h : Function} (hc : c.CalledBack ss v h) (hw : v ⊆ w) :
    c.CalledBack ss w h :=
  ⟨hc.effects, fun callee line k he hk => hw (hc.helpers callee line k he hk)⟩

namespace InStep

/-- The inliner enters what the walk has entered before. -/
theorem cons (h : InStep c ss u v) {name : String} (hn : (c.name, name) ∈ v) :
    InStep c ss (name :: u) v where
  entered := List.forall_mem_cons.mpr ⟨hn, h.entered⟩
  calledBack k hk hv hu := h.calledBack k hk hv fun hm => hu (List.mem_cons_of_mem _ hm)

/-- Both enter a function. -/
theorem cons_cons (h : InStep c ss u v) (name : String) :
    InStep c ss (name :: u) ((c.name, name) :: v) where
  entered := by
    intro n hn
    rcases List.mem_cons.mp hn with rfl | hn
    · exact List.mem_cons_self
    · exact List.mem_cons_of_mem _ (h.entered n hn)
  calledBack := by
    intro k hk hv hu
    rcases List.mem_cons.mp hv with he | hv
    · simp only [Prod.mk.injEq, true_and] at he
      exact absurd (he ▸ List.mem_cons_self) hu
    · exact (h.calledBack k hk hv fun hm => hu (List.mem_cons_of_mem _ hm)).mono
        (List.subset_cons_self _ _)

end InStep

namespace Inlining

/-- All effects were called back, and nothing is entered that the walk has not. -/
structure CalledBack (c : Contract) (ss : List FlowStep) (v : List FrameKey) (i : Inlining) :
    Prop where
  effects : ∀ p ∈ i.effects, p.2.IsCalledBack c ss p.1
  inStep : InStep c ss i.visited v

theorem calledBack_nil (hu : InStep c ss u v) : CalledBack c ss v ⟨u, []⟩ :=
  ⟨by simp, hu⟩

theorem calledBack_follow {enter : Function → List String → Inlining} {h : Function}
    (henter : ∀ k u, c.CalledBack ss v k → (c.name, k.name) ∈ v → InStep c ss u v →
      CalledBack c ss v (enter k u))
    (hc : c.CalledBack ss v h) {es : List Effect} (hes : es ⊆ h.effects) (hu : InStep c ss u v) :
    CalledBack c ss v (follow enter c h es u) := by
  induction es generalizing u with
  | nil => exact calledBack_nil hu
  | cons e es ih =>
    obtain ⟨he, hrest⟩ := List.cons_subset.mp hes
    by_cases hk : e.kind = .internalCall
    · obtain ⟨callee, line, rfl⟩ := Effect.eq_internalCall hk
      obtain hm | ⟨k, hk, hn⟩ := c.helper?_mem_or callee u
      · rw [follow_call_of_mem hm]
        exact ih hrest hu
      · have hkv := hc.helpers callee line k he hk
        have hi := henter k u (hu.calledBack k (Contract.helper?_name hk) hkv hn) hkv hu
        have hr := ih hrest hi.inStep
        rw [follow_call_of_not_mem hk hn]
        exact ⟨List.forall_mem_append.mpr ⟨hi.effects, hr.effects⟩, hr.inStep⟩
    · rw [follow_cons hk]
      have hr := ih hrest hu
      exact ⟨List.forall_mem_cons.mpr ⟨hc.effects e he hk, hr.effects⟩, hr.inStep⟩

/-- A helper that was called back is inlined with effects that were called back. -/
theorem calledBack_enter (depth : Nat) {h : Function} (hc : c.CalledBack ss v h)
    (hh : (c.name, h.name) ∈ v) (hu : InStep c ss u v) :
    CalledBack c ss v (enter c depth h u) := by
  induction depth generalizing h u with
  | zero => exact calledBack_nil hu
  | succ depth ih =>
    exact calledBack_follow (fun k u hk hkv hu => ih hk hkv hu) hc (List.Subset.refl _) (hu.cons hh)

end Inlining

/-! ## The walk and the inliner in step -/

/-- A contract of the graph that no other shares the name of, with a site for each call out. -/
structure Contract.IsNode (c : Contract) (g : DependencyGraph) : Prop where
  mem : c ∈ g.nodes
  eq_of_name : ∀ d ∈ g.nodes, d.name = c.name → d = c
  sited : ∀ f ∈ c.functions, f.IsSited

theorem Extraction.isNode {units : List SourceUnit} (hc : c ∈ (ofUnits units).contracts) :
    c.IsNode (DependencyGraph.ofContracts (ofUnits units).contracts) := by
  have hn := nodup_names units
  have hnodes := DependencyGraph.nodes_ofContracts hn
  refine ⟨by rw [hnodes]; exact hc, fun d hd he => ?_, fun f hf => isSited hc hf⟩
  rw [hnodes] at hd
  exact List.inj_on_of_nodup_map hn hd hc he

/-- A helper is told by its names. -/
theorem Frame.IsHelper.eq_of_key {g : DependencyGraph} {d : Frame} {h : Function} (hd : d.IsHelper g)
    (hc : c.IsNode g) (hkey : d.key = (c.name, h.name)) (hh : c.helper? h.name = some h) :
    d.contract = c ∧ d.function = h := by
  obtain ⟨hname, hfunction⟩ := Prod.mk.inj hkey
  obtain rfl := hc.eq_of_name d.contract hd.contract_mem hname
  have hhelper := hd.helper
  rw [hfunction, hh] at hhelper
  exact ⟨rfl, (Option.some.inj hhelper).symm⟩

namespace Trace

variable {g : DependencyGraph} {target : CallPosition} {n : Nat} {f d : Frame} {ms : List Moment}
  {t : Trace}

/-- A frame walked to its end behind a call was called back. -/
theorem Covers.calledBack (h : Covers t (d.moments g target)) (hd : d.function.IsSited)
    (hdepth : d.depth ≠ 0) (hts : t.steps ⊆ ss) :
    d.contract.CalledBack ss t.visited d.function where
  effects e he hk := by
    obtain ⟨s, hs, ho, hc, hsd⟩ := Frame.step?_moment g target hd he hk
    exact ⟨s, hts (h.step _ (List.mem_map_of_mem he) s hs), hc, hsd ▸ hdepth, ho⟩
  helpers callee line k he hk :=
    h.descent _ (List.mem_map_of_mem he) ⟨d.contract, k, d.depth⟩ (by simp [Frame.moment, hk])

/-- Following a call out leaves the two in step. -/
theorem Follows.inStep (h : Follows g target n d (d.moments g target) (d.key :: v) t)
    (hd : d.IsHelper g) (hdepth : d.depth ≠ 0) (hr : t.refused = []) (hts : t.steps ⊆ ss)
    (hc : c.IsNode g) (hu : InStep c ss u v) : InStep c ss u t.visited := by
  have hsub : v ⊆ t.visited := fun k hk => h.visited_subset (List.mem_cons_of_mem _ hk)
  refine ⟨fun name hn => hsub (hu.entered name hn), fun k hk hkt hku => ?_⟩
  by_cases hkv : (c.name, k.name) ∈ v
  · exact (hu.calledBack k hk hkv hku).mono hsub
  · -- The helper was entered on the way: some frame of its key was walked to its end.
    have hw : ∃ d' : Frame, d'.key = (c.name, k.name) ∧ d'.IsHelper g ∧ d'.depth ≠ 0 ∧
        Covers t (d'.moments g target) := by
      by_cases hkd : (c.name, k.name) = d.key
      · exact ⟨d, hkd.symm, hd, hdepth, h.covers hr⟩
      · have hn : (c.name, k.name) ∉ d.key :: v := fun hm => (List.mem_cons.mp hm).elim hkd hkv
        obtain ⟨d', hk', hh', hle, hw⟩ :=
          h.covers_entered (List.Subset.refl _) hd.contract_mem hr hkt hn
        exact ⟨d', hk', hh', by omega, hw⟩
    obtain ⟨⟨c', k', depth⟩, hkey, hh, hdepth', hw⟩ := hw
    obtain ⟨rfl, rfl⟩ := hh.eq_of_key hc hkey hk
    exact hw.calledBack (hc.sited _ (Contract.mem_of_helper? hk)) hdepth' hts

/-- The steps of a trace at depth zero are those effects of an inlining whose function the flow with
the steps `ss` does not come back to; no effect is lost. -/
structure SameEntry (c : Contract) (ss : List FlowStep) (t : Trace) (i : Inlining) : Prop where
  outline : (t.steps.filter (·.depth == 0)).map (·.outline) =
    (i.effects.filter fun p => ! ss.any (·.isReentry c.name p.1.name)).map fun p => p.2.outline p.1
  present : ∀ p ∈ i.effects, ∃ s ∈ ss, s.contract = c.name ∧ s.outline = p.2.outline p.1
  inStep : InStep c ss i.visited t.visited

end Trace

theorem Effect.IsCalledBack.reenters {owner : Function} {e : Effect}
    (h : e.IsCalledBack c ss owner) : ss.any (·.isReentry c.name owner.name) = true := by
  obtain ⟨s, hs, hc, hd, ho⟩ := h
  have hn : s.function = owner.name := congrArg Outline.function ho
  exact List.any_eq_true.mpr ⟨s, hs, by simp [FlowStep.isReentry, hc, hd, hn]⟩

/-- Where each function has one depth, a step at depth zero tells that the flow does not come back. -/
theorem Trace.OneDepth.not_reenters (h : OneDepth ss) {s : FlowStep} (hs : s ∈ ss)
    (hd : s.depth = 0) : ss.any (·.isReentry s.contract s.function) = false := by
  rw [List.any_eq_false]
  intro s' hs' hre
  simp only [FlowStep.isReentry, Bool.and_eq_true, beq_iff_eq, bne_iff_ne] at hre
  obtain ⟨⟨hc, hf⟩, hd'⟩ := hre
  exact hd' (by rw [h s' hs' s hs (by rw [hc, hf]), hd])

namespace Trace.SameEntry

variable {m : Moment} {inner rest : Trace} {i j : Inlining}

/-- An effect that both meet, with what the call behind it leaves. -/
theorem step (h : SameEntry c ss rest i) (hone : OneDepth ss) {owner : Function} {e : Effect}
    {s : FlowStep} (hm : m.step? = some s) (hs : s ∈ ss) (hc : s.contract = c.name)
    (hd : s.depth = 0) (ho : s.outline = e.outline owner) (hi : ∀ s ∈ inner.steps, s.depth ≠ 0) :
    SameEntry c ss (after m inner rest) ⟨i.visited, (owner, e) :: i.effects⟩ where
  outline := by
    have hn : s.function = owner.name := congrArg Outline.function ho
    have hre := hone.not_reenters hs hd
    rw [hc, hn] at hre
    have hnil : inner.steps.filter (·.depth == 0) = [] :=
      List.filter_eq_nil_iff.mpr fun s hs => by simpa using hi s hs
    simp [after, hm, hd, hnil, hre, ho, h.outline]
  present := List.forall_mem_cons.mpr ⟨⟨s, hs, hc, ho⟩, h.present⟩
  inStep := h.inStep

/-- A helper that only the inliner enters. -/
theorem calledBack (h : SameEntry c ss rest i) (hm : m.step? = none)
    (hj : Inlining.CalledBack c ss v j) :
    SameEntry c ss (after m (idle v) rest) ⟨i.visited, j.effects ++ i.effects⟩ where
  outline := by
    have hnil : (j.effects.filter fun p => ! ss.any (·.isReentry c.name p.1.name)) = [] :=
      List.filter_eq_nil_iff.mpr fun p hp => by simpa using (hj.effects p hp).reenters
    rw [List.filter_append, hnil]
    simpa [after, idle, hm] using h.outline
  present := by
    refine List.forall_mem_append.mpr ⟨fun p hp => ?_, h.present⟩
    obtain ⟨s, hs, hc, -, ho⟩ := hj.effects p hp
    exact ⟨s, hs, hc, ho⟩
  inStep := h.inStep

/-- A helper that both enter. -/
theorem helper (h : SameEntry c ss rest i) (hm : m.step? = none) (hj : SameEntry c ss inner j) :
    SameEntry c ss (after m inner rest) ⟨i.visited, j.effects ++ i.effects⟩ where
  outline := by simp [after, hm, hj.outline, h.outline]
  present := List.forall_mem_append.mpr ⟨hj.present, h.present⟩
  inStep := h.inStep

end Trace.SameEntry

/-- The walk of an entry frame and the inliner stay in step, effect by effect. -/
theorem Trace.Follows.sameEntry {g : DependencyGraph} {target : CallPosition} {n : Nat} {f : Frame}
    {ms : List Moment} {t : Trace} (h : Follows g target n f ms v t) (hc : c.IsNode g)
    (hone : OneDepth ss) {es : List Effect} (hms : ms = es.map (f.moment g target))
    (hes : es ⊆ f.function.effects) (hfc : f.contract = c) (hf : f.function ∈ c.functions)
    (hdepth : f.depth = 0) (hr : t.refused = []) (hts : t.steps ⊆ ss) (hu : InStep c ss u v)
    {depth : Nat} (hroom : room (c.functions.map (·.name)) u ≤ depth) :
    SameEntry c ss t (Inlining.follow (Inlining.enter c depth) c f.function es u) := by
  induction h generalizing es u depth with
  | nil =>
    obtain rfl := List.map_eq_nil_iff.mp hms.symm
    exact ⟨rfl, by simp [Inlining.follow], hu⟩
  | @skip n f m ms v t hd rest ih =>
    subst hfc
    obtain ⟨e, es, rfl, rfl, rfl⟩ := List.map_eq_cons_iff.mp hms.symm
    obtain ⟨he, hrest⟩ := List.cons_subset.mp hes
    have next {u : List String} (hu : InStep f.contract ss u v)
        (hroom : room (f.contract.functions.map (·.name)) u ≤ depth) :=
      ih rfl hrest rfl hf hdepth (refused_after.mp hr).2
        (fun s hs => hts (steps_subset_after_rest hs)) hu hroom
    by_cases hk : e.kind = .internalCall
    · obtain ⟨callee, line, rfl⟩ := Effect.eq_internalCall hk
      obtain hm | ⟨k, hk, hn⟩ := f.contract.helper?_mem_or callee u
      · rw [Inlining.follow_call_of_mem hm]
        exact (next hu hroom).calledBack rfl (Inlining.calledBack_nil hu)
      · -- Only the walk has entered the helper, so it was called back.
        have hkv : (f.contract.name, k.name) ∈ v :=
          hd ⟨f.contract, k, f.depth⟩ (by simp [Frame.moment, hk])
        have hi := Inlining.calledBack_enter depth
          (hu.calledBack k (Contract.helper?_name hk) hkv hn) hkv hu
        have hle := Inlining.room_visited_enter f.contract depth k
          (f.contract.functions.map (·.name)) u
        rw [Inlining.follow_call_of_not_mem hk hn]
        exact (next hi.inStep (Nat.le_trans hle hroom)).calledBack rfl hi
    · obtain ⟨s, hs, ho, hsc, hsd⟩ := Frame.step?_moment g target (hc.sited _ hf) he hk
      rw [Inlining.follow_cons hk]
      exact (next hu hroom).step hone hs (hts (mem_after_steps.mpr (.inl hs))) hsc
        (hsd.trans hdepth) ho (by simp [idle])
  | refuse _ _ _ _ => cases (refused_after.mp hr).1
  | @descend n f m ms v d t t' hd hv inner rest ih ih' =>
    subst hfc
    obtain ⟨e, es, rfl, rfl, rfl⟩ := List.map_eq_cons_iff.mp hms.symm
    obtain ⟨he, hrest⟩ := List.cons_subset.mp hes
    obtain ⟨hrin, hr'⟩ := refused_after.mp hr
    have htin : t.steps ⊆ ss := fun s hs => hts (steps_subset_after_inner hs)
    have next {u : List String} (hu : InStep f.contract ss u t.visited)
        (hroom : room (f.contract.functions.map (·.name)) u ≤ depth) :=
      ih' rfl hrest rfl hf hdepth hr' (fun s hs => hts (steps_subset_after_rest hs)) hu hroom
    cases e with
    | read name line => cases hd
    | write name line => cases hd
    | internalCall callee line =>
      obtain ⟨k, hk, rfl⟩ := Option.map_eq_some_iff.mp hd
      have hkf := Contract.mem_of_helper? hk
      have hn : k.name ∉ u := fun hm => hv (hu.entered _ hm)
      have hlt := room_cons_lt (List.mem_map_of_mem (f := (·.name)) hkf) hn
      obtain ⟨depth, rfl⟩ : ∃ j, depth = j + 1 := ⟨depth - 1, by omega⟩
      have hi : SameEntry f.contract ss t (Inlining.enter f.contract (depth + 1) k u) :=
        ih rfl (List.Subset.refl _) rfl hkf hdepth hrin htin (hu.cons_cons k.name) (by omega)
      have hle := Inlining.room_visited_enter f.contract (depth + 1) k
        (f.contract.functions.map (·.name)) u
      rw [Inlining.follow_call_of_not_mem hk hn]
      exact (next hi.inStep (Nat.le_trans hle hroom)).helper rfl hi
    | externalCall i line =>
      have hk : (Effect.externalCall i line).kind ≠ .internalCall := by simp [Effect.kind]
      obtain ⟨s, hs, ho, hsc, hsd⟩ := Frame.step?_moment g target (hc.sited _ hf) he hk
      have hdd := Frame.depth_of_externalCall hd
      have hu' := inner.inStep (Frame.isHelper_descent hc.mem (List.mem_map_of_mem he) hd)
        (by omega) hrin htin hc hu
      rw [Inlining.follow_cons hk]
      refine (next hu' hroom).step hone hs (hts (mem_after_steps.mpr (.inl hs))) hsc
        (hsd.trans hdepth) ho fun s hs => ?_
      -- Whatever stands behind the call is over a boundary.
      have := inner.depth_le (List.Subset.refl _) hs
      omega

theorem Trace.sameEntry_walk {g : DependencyGraph} {target : CallPosition} {n : Nat} {f : Function}
    (hc : c.IsNode g) (hf : f ∈ c.functions) (hr : (walk g target n ⟨c, f, 0⟩ []).refused = []) :
    SameEntry c (walk g target n ⟨c, f, 0⟩ []).steps (walk g target n ⟨c, f, 0⟩ [])
      (Inlining.enter c (c.functions.length + 1) f []) := by
  cases n with
  | zero => cases hr
  | succ n =>
    have hw : Follows g target n ⟨c, f, 0⟩ (Frame.moments g target ⟨c, f, 0⟩) [(c.name, f.name)]
        (walk g target (n + 1) ⟨c, f, 0⟩ []) := follows_walk n ⟨c, f, 0⟩ []
    have hu : InStep c (walk g target (n + 1) ⟨c, f, 0⟩ []).steps [f.name] [(c.name, f.name)] :=
      InStep.cons_cons ⟨by simp, by simp⟩ f.name
    have hroom : room (c.functions.map (·.name)) [f.name] ≤ c.functions.length := by
      rw [← List.length_map (f := (·.name))]
      exact List.countP_le_length
    exact hw.sameEntry hc (hw.oneDepth (List.Subset.refl _) List.mem_cons_self) rfl
      (List.Subset.refl _) rfl hf rfl hr (List.Subset.refl _) hu hroom

namespace Flow

/-- A vault whose hook burns the shares before the vault does. -/
def burningHook : SourceUnit where
  name := "Vault.sol"
  path := ""
  text := "contract Vault \x7b Hook hook; uint shares; " ++
    "function exit() public \x7b hook.run(); burn(); \x7d " ++
    "function burn() public \x7b shares -= 1; \x7d \x7d " ++
    "contract Hook \x7b Vault vault; function run() public \x7b vault.burn(); \x7d \x7d"

theorem exists_burningHook_flow :
    let cs := (Extraction.ofUnits [burningHook]).contracts
    ∃ c ∈ cs, ∃ f ∈ c.functions, f.isEntryPoint = true ∧
      ∃ target ∈ targets (DependencyGraph.ofContracts cs) c f,
        let flow := follow (DependencyGraph.ofContracts cs) 8 c f target
        flow.isTruncated = false ∧ (∃ p ∈ c.inlined f, flow.reenters p.1.name = true) ∧
          flow.entrySteps.map (·.outline) ≠ (c.inlined f).map (fun p => p.2.outline p.1) := by
  decide +kernel

/-- In a flow that is not truncated the steps at depth zero are, in order, the effects of the entry
point with its helpers in place, less those in functions that the flow comes back to over a boundary.
They are all of them exactly when the flow comes back to none of these functions, and every effect is
a step of the flow at some depth. -/
theorem entrySteps_eq (units : List SourceUnit) {c : Contract} {f : Function}
    (hc : c ∈ (Extraction.ofUnits units).contracts) (hf : f ∈ c.functions)
    (target : CallPosition × String) (maxDepth : Int) :
    let flow := follow (DependencyGraph.ofContracts (Extraction.ofUnits units).contracts) maxDepth c f
      target
    flow.isTruncated = false →
      flow.entrySteps.map (·.outline) =
        ((c.inlined f).filter fun p => ! flow.reenters p.1.name).map (fun p => p.2.outline p.1) ∧
      (flow.entrySteps.map (·.outline) = (c.inlined f).map (fun p => p.2.outline p.1) ↔
        ∀ p ∈ c.inlined f, flow.reenters p.1.name = false) ∧
      ∀ p ∈ c.inlined f, ∃ s ∈ flow.steps, s.contract = c.name ∧ s.outline = p.2.outline p.1 := by
  intro flow ht
  have same := Trace.sameEntry_walk (Extraction.isNode hc) hf (isTruncated_eq_false.mp ht)
  have hsteps : flow.entrySteps.map (·.outline) =
      ((c.inlined f).filter fun p => ! flow.reenters p.1.name).map (fun p => p.2.outline p.1) :=
    same.outline
  refine ⟨hsteps, ?_, same.present⟩
  rw [hsteps]
  constructor
  · intro h
    have hlen := congrArg List.length h
    rw [List.length_map, List.length_map, List.length_filter_eq_length_iff] at hlen
    simpa using hlen
  · intro h
    rw [List.filter_eq_self.mpr fun p hp => by simp [h p hp]]

theorem entrySteps_eq_burningHook :
    let cs := (Extraction.ofUnits [burningHook]).contracts
    ∃ c ∈ cs, ∃ f ∈ c.functions, ∃ target ∈ targets (DependencyGraph.ofContracts cs) c f,
      let flow := follow (DependencyGraph.ofContracts cs) 8 c f target
      flow.isTruncated = false ∧ (∃ p ∈ c.inlined f, flow.reenters p.1.name = true) ∧
      flow.entrySteps.map (·.outline) =
        ((c.inlined f).filter fun p => ! flow.reenters p.1.name).map (fun p => p.2.outline p.1) ∧
      ∀ p ∈ c.inlined f, ∃ s ∈ flow.steps, s.contract = c.name ∧ s.outline = p.2.outline p.1 := by
  intro cs
  obtain ⟨c, hc, f, hf, -, target, ht, h, hb, -⟩ := exists_burningHook_flow
  obtain ⟨hs, -, hp⟩ := entrySteps_eq [burningHook] hc hf target 8 h
  exact ⟨c, hc, f, hf, target, ht, h, hb, hs, hp⟩

/-- A callee that calls back removes effects of the entry contract from depth zero. -/
theorem entrySteps_ne_inlined :
    let cs := (Extraction.ofUnits [burningHook]).contracts
    ∃ c ∈ cs, ∃ f ∈ c.functions, f.isEntryPoint = true ∧
      ∃ target ∈ targets (DependencyGraph.ofContracts cs) c f,
        let flow := follow (DependencyGraph.ofContracts cs) 8 c f target
        flow.isTruncated = false ∧
          flow.entrySteps.map (·.outline) ≠ (c.inlined f).map (fun p => p.2.outline p.1) := by
  obtain ⟨c, hc, f, hf, he, target, ht, h, -, hne⟩ := exists_burningHook_flow
  exact ⟨c, hc, f, hf, he, target, ht, h, hne⟩

end Flow

end ContractAudit
