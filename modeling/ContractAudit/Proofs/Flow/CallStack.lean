import ContractAudit.Proofs.Flow.DepthBound
import Mathlib.Data.List.Chain
import Mathlib.Logic.Relation

/-!
# Flows as call traces

A walk taken one moment at a time. A `Walker` holds the open frames, innermost first, and what was met so
far; a `Turn` takes the next moment of the innermost frame or closes it when nothing is left of it. A
moment that leads to a frame not entered before opens that frame, and is refused when as many frames are
open as the bound allows.

The walk of a flow is this machine run to its end (`reaches_walk`), so what every turn keeps holds of
every flow: the stack is as high as the bound at most, the depth of a frame is at most the number of
frames below it, no frame is opened twice, and the depth of the steps rises by one only behind the call
that crosses the boundary.
-/

namespace ContractAudit

/-! ## The machine -/

/-- A frame under way and the moments that are left of it. -/
structure OpenFrame where
  frame : Frame
  rest : List Moment

/-- A walk under way; `entered` holds the frames opened so far, latest first. -/
structure Walker where
  stack : List OpenFrame
  entered : List FrameKey
  steps : List FlowStep
  refused : List FrameKey

namespace Walker

/-- A walk that has just opened its first frame. -/
def start (g : DependencyGraph) (target : CallPosition) (f : Frame) : Walker :=
  ⟨[⟨f, f.moments g target⟩], [f.key], [], []⟩

inductive Turn (g : DependencyGraph) (target : CallPosition) (bound : Nat) : Walker → Walker → Prop where
  | close {f stack v ss rs} : Turn g target bound ⟨⟨f, []⟩ :: stack, v, ss, rs⟩ ⟨stack, v, ss, rs⟩
  | pass {f m ms stack v ss rs} (hd : ∀ d, m.descent? = some d → d.key ∈ v) :
      Turn g target bound ⟨⟨f, m :: ms⟩ :: stack, v, ss, rs⟩
        ⟨⟨f, ms⟩ :: stack, v, ss ++ m.step?.toList, rs⟩
  | enter {f m ms stack v ss rs d} (hd : m.descent? = some d) (hv : d.key ∉ v)
      (hroom : stack.length + 1 < bound) :
      Turn g target bound ⟨⟨f, m :: ms⟩ :: stack, v, ss, rs⟩
        ⟨⟨d, d.moments g target⟩ :: ⟨f, ms⟩ :: stack, d.key :: v, ss ++ m.step?.toList, rs⟩
  | refuse {f m ms stack v ss rs d} (hd : m.descent? = some d) (hv : d.key ∉ v)
      (hfull : bound ≤ stack.length + 1) :
      Turn g target bound ⟨⟨f, m :: ms⟩ :: stack, v, ss, rs⟩
        ⟨⟨f, ms⟩ :: stack, v, ss ++ m.step?.toList, rs ++ [d.key]⟩

/-- One walk goes on to the other in any number of turns. -/
abbrev Reaches (g : DependencyGraph) (target : CallPosition) (bound : Nat) : Walker → Walker → Prop :=
  Relation.ReflTransGen (Turn g target bound)

/-- The next moment leads to a frame not entered before, but the bound leaves no room for it. -/
def Refuses (bound : Nat) (w : Walker) : Prop :=
  ∃ f m ms stack d, w.stack = ⟨f, m :: ms⟩ :: stack ∧ m.descent? = some d ∧ d.key ∉ w.entered ∧
    bound ≤ w.stack.length

variable {g : DependencyGraph} {target : CallPosition} {bound : Nat} {w w' : Walker}

theorem Turn.unique : Relator.RightUnique (Turn g target bound) := by
  intro w a b ha hb
  cases ha with
  | close => cases hb; rfl
  | pass hd =>
    cases hb with
    | pass => rfl
    | enter hd' hv => exact absurd (hd _ hd') hv
    | refuse hd' hv => exact absurd (hd _ hd') hv
  | enter hd hv hroom =>
    cases hb with
    | pass hd' => exact absurd (hd' _ hd) hv
    | enter hd' => rw [hd] at hd'; cases hd'; rfl
    | refuse _ _ hfull => omega
  | refuse hd hv hfull =>
    cases hb with
    | pass hd' => exact absurd (hd' _ hd) hv
    | enter _ _ hroom => omega
    | refuse hd' => rw [hd] at hd'; cases hd'; rfl

/-! ## The walk as a run -/

/-- The moments of a frame are taken one by one, and what the frame leads to is walked to its end before
the next one. The frames below and what was met before stay as they are. -/
theorem reaches_of_follows {n : Nat} {f : Frame} {ms : List Moment} {v : List FrameKey} {t : Trace}
    (h : Trace.Follows g target n f ms v t) {stack : List OpenFrame} (hb : stack.length + 1 + n = bound)
    (ss : List FlowStep) (rs : List FrameKey) :
    Reaches g target bound ⟨⟨f, ms⟩ :: stack, v, ss, rs⟩
      ⟨⟨f, []⟩ :: stack, t.visited, ss ++ t.steps, rs ++ t.refused⟩ := by
  induction h generalizing stack ss rs with
  | nil =>
    simp only [Trace.idle, List.append_nil]
    exact .refl
  | @skip n f m ms v t hd _ ih =>
    refine .head (.pass hd) ?_
    simpa [Trace.after, Trace.idle] using ih hb (ss ++ m.step?.toList) rs
  | @refuse f m ms v d t hd hv _ ih =>
    refine .head (.refuse hd hv (by omega)) ?_
    simpa [Trace.after] using ih hb (ss ++ m.step?.toList) (rs ++ [d.key])
  | @descend n f m ms v d t t' hd hv _ _ ih ih' =>
    have hinner := @ih (⟨f, ms⟩ :: stack) (by simp only [List.length_cons]; omega)
      (ss ++ m.step?.toList) rs
    have hrest := ih' hb (ss ++ m.step?.toList ++ t.steps) (rs ++ t.refused)
    refine .head (.enter hd hv (by omega)) (hinner.trans (.head .close ?_))
    simpa [Trace.after] using hrest

theorem reaches_walk (g : DependencyGraph) (target : CallPosition) (n : Nat) (f : Frame) :
    let t := Trace.walk g target (n + 1) f []
    Reaches g target (n + 1) (start g target f) ⟨[], t.visited, t.steps, t.refused⟩ := by
  intro t
  have h : Reaches g target (n + 1) (start g target f) ⟨[⟨f, []⟩], t.visited, t.steps, t.refused⟩ :=
    reaches_of_follows (Trace.follows_walk n f []) (by simp only [List.length_nil]; omega) [] []
  exact h.tail .close

/-! ## Refusals -/

theorem Turn.refused_prefix (h : Turn g target bound w w') : w.refused <+: w'.refused := by
  cases h with
  | close => exact List.prefix_rfl
  | pass => exact List.prefix_rfl
  | enter => exact List.prefix_rfl
  | refuse => exact List.prefix_append _ _

theorem Reaches.refused_prefix (h : Reaches g target bound w w') : w.refused <+: w'.refused := by
  induction h with
  | refl => exact List.prefix_rfl
  | tail _ hturn ih => exact ih.trans hturn.refused_prefix

/-- Only a refusal adds to what was refused. -/
theorem Turn.refuses_or (h : Turn g target bound w w') :
    w.Refuses bound ∨ w'.refused = w.refused := by
  cases h with
  | close => exact .inr rfl
  | pass => exact .inr rfl
  | enter => exact .inr rfl
  | refuse hd hv hfull => exact .inl ⟨_, _, _, _, _, rfl, hd, hv, hfull⟩

theorem Refuses.refused_ne_nil (hw : w.Refuses bound) (h : Turn g target bound w w') :
    w'.refused ≠ [] := by
  obtain ⟨f, m, ms, stack, d, hstack, hd, hv, hfull⟩ := hw
  cases h with
  | close => cases hstack
  | pass hd' => cases hstack; exact absurd (hd' _ hd) hv
  | enter _ _ hroom => simp only [List.length_cons] at hfull; omega
  | refuse => simp

/-- At the end of a run something was refused exactly if the run came to a walk that refuses. -/
theorem refused_ne_nil_iff (hrun : Reaches g target bound w w') (hw : w.refused = [])
    (hend : w'.stack = []) :
    w'.refused ≠ [] ↔ ∃ u, Reaches g target bound w u ∧ u.Refuses bound := by
  constructor
  · clear hend
    induction hrun with
    | refl => exact fun h => absurd hw h
    | tail hrun hturn ih =>
      intro h
      rcases hturn.refuses_or with hu | he
      · exact ⟨_, hrun, hu⟩
      · rw [he] at h
        exact ih h
  · rintro ⟨u, hu, href⟩
    obtain ⟨f, m, ms, stack, d, hstack, -⟩ := id href
    -- There is one run only, so the walk that refuses goes on to the end.
    have hon : Reaches g target bound u w' := by
      rcases Relation.ReflTransGen.total_of_right_unique Turn.unique hu hrun with h | h
      · exact h
      · rcases h.cases_head with rfl | ⟨x, hx, -⟩
        · exact .refl
        · cases hx <;> cases hend
    rcases hon.cases_head with rfl | ⟨x, hx, hrest⟩
    · rw [hend] at hstack
      cases hstack
    · intro hnil
      have hpre := Reaches.refused_prefix hrest
      rw [hnil] at hpre
      exact href.refused_ne_nil hx (List.prefix_nil.mp hpre)

/-! ## What every turn keeps -/

/-- The depth of every frame is at most the number of frames below it. -/
def DepthsFit : List OpenFrame → Prop
  | [] => True
  | o :: below => o.frame.depth ≤ below.length ∧ DepthsFit below

/-- The open frames of a walk that started in the contract `c`. -/
structure WellStacked (g : DependencyGraph) (target : CallPosition) (bound : Nat) (c : Contract)
    (w : Walker) : Prop where
  nodup : w.entered.Nodup
  height : w.stack.length ≤ bound
  rest : ∀ o ∈ w.stack, o.rest ⊆ o.frame.moments g target
  key : ∀ o ∈ w.stack, o.frame.key ∈ w.entered
  depths : DepthsFit w.stack
  deeper : w.stack.Pairwise fun o below => below.frame.depth ≤ o.frame.depth
  entry : ∀ o ∈ w.stack, o.frame.depth = 0 → o.frame.contract = c

theorem wellStacked_start (hb : 1 ≤ bound) (c : Contract) (f : Function) :
    WellStacked g target bound c (start g target ⟨c, f, 0⟩) where
  nodup := List.pairwise_singleton _ _
  height := hb
  rest o ho := by rw [List.mem_singleton.mp ho]; exact List.Subset.refl _
  key o ho := by rw [List.mem_singleton.mp ho]; exact List.mem_singleton_self _
  depths := ⟨Nat.le_refl 0, trivial⟩
  deeper := List.pairwise_singleton _ _
  entry o ho _ := by rw [List.mem_singleton.mp ho]

section

variable {c : Contract} {f d : Frame} {m : Moment} {ms : List Moment} {stack : List OpenFrame}
  {v : List FrameKey} {ss ss' : List FlowStep} {rs rs' : List FrameKey}

/-- Taking a moment of the innermost frame leaves the stack in order. -/
theorem WellStacked.pass (h : WellStacked g target bound c ⟨⟨f, m :: ms⟩ :: stack, v, ss, rs⟩) :
    WellStacked g target bound c ⟨⟨f, ms⟩ :: stack, v, ss', rs'⟩ where
  nodup := h.nodup
  height := h.height
  rest := by
    obtain ⟨hf, hstack⟩ := List.forall_mem_cons.mp h.rest
    exact List.forall_mem_cons.mpr ⟨(List.cons_subset.mp hf).2, hstack⟩
  key := List.forall_mem_cons.mpr (List.forall_mem_cons.mp h.key)
  depths := h.depths
  deeper := List.pairwise_cons.mpr (List.pairwise_cons.mp h.deeper)
  entry := List.forall_mem_cons.mpr (List.forall_mem_cons.mp h.entry)

theorem WellStacked.enter (h : WellStacked g target bound c ⟨⟨f, m :: ms⟩ :: stack, v, ss, rs⟩)
    (hd : m.descent? = some d) (hv : d.key ∉ v) (hroom : stack.length + 1 < bound) :
    WellStacked g target bound c
      ⟨⟨d, d.moments g target⟩ :: ⟨f, ms⟩ :: stack, d.key :: v, ss', rs'⟩ := by
  have hp : WellStacked g target bound c ⟨⟨f, ms⟩ :: stack, v, ss', rs'⟩ := h.pass
  have hm : m ∈ f.moments g target := h.rest ⟨f, m :: ms⟩ List.mem_cons_self List.mem_cons_self
  have hcases := Frame.descent_cases hm hd
  have hle := Frame.depth_le_descent hm hd
  have hsucc : d.depth ≤ f.depth + 1 := by
    obtain ⟨callee, line, h, -, -, -, rfl⟩ | ⟨i, line, site, c, h, -, -, -, -, -, rfl⟩ := hcases
    · exact Nat.le_succ _
    · exact Nat.le_refl _
  exact {
    nodup := List.nodup_cons.mpr ⟨hv, h.nodup⟩
    height := by simp only [List.length_cons]; omega
    rest := List.forall_mem_cons.mpr ⟨List.Subset.refl _, hp.rest⟩
    key := List.forall_mem_cons.mpr
      ⟨List.mem_cons_self, fun o ho => List.mem_cons_of_mem _ (hp.key o ho)⟩
    depths := ⟨by have := h.depths.1; simp only [List.length_cons] at this ⊢; omega, hp.depths⟩
    deeper := by
      refine List.pairwise_cons.mpr ⟨List.forall_mem_cons.mpr ⟨hle, fun o ho => ?_⟩, hp.deeper⟩
      exact Nat.le_trans ((List.pairwise_cons.mp h.deeper).1 o ho) hle
    entry := by
      refine List.forall_mem_cons.mpr ⟨fun hz => ?_, hp.entry⟩
      obtain ⟨callee, line, h', -, -, -, rfl⟩ | ⟨i, line, site, c', h', -, -, -, -, -, rfl⟩ := hcases
      · exact h.entry ⟨f, m :: ms⟩ List.mem_cons_self hz
      · cases hz }

end

theorem Turn.wellStacked {c : Contract} (h : Turn g target bound w w')
    (hw : WellStacked g target bound c w) : WellStacked g target bound c w' := by
  cases h with
  | close =>
    exact {
      nodup := hw.nodup
      height := Nat.le_of_succ_le hw.height
      rest := fun o ho => hw.rest o (List.mem_cons_of_mem _ ho)
      key := fun o ho => hw.key o (List.mem_cons_of_mem _ ho)
      depths := hw.depths.2
      deeper := (List.pairwise_cons.mp hw.deeper).2
      entry := fun o ho => hw.entry o (List.mem_cons_of_mem _ ho) }
  | pass => exact hw.pass
  | enter hd hv hroom => exact hw.enter hd hv hroom
  | refuse => exact hw.pass

/-! ## What the steps are -/

/-- A step of the contract named `contract` at depth `depth` may follow `last`: it is no deeper, or it is
one boundary deeper and `last` is the call that lands in the contract. A first step has depth zero. -/
def Admits (last : Option FlowStep) (contract : String) (depth : Nat) : Prop :=
  match last with
  | none => depth = 0
  | some s => depth ≤ s.depth ∨
    (depth = s.depth + 1 ∧ ∃ member moves, s.action = .call (contract ++ "." ++ member) moves)

/-- The steps of a walk that started in the contract `c`. -/
structure WellNested (bound : Nat) (c : Contract) (w : Walker) : Prop where
  bounded : ∀ s ∈ w.steps, s.depth < bound
  entry : ∀ s ∈ w.steps, s.depth = 0 → s.contract = c.name
  owner : ∀ s ∈ w.steps, (s.contract, s.function) ∈ w.entered
  first : ∀ s ∈ w.steps.head?, s.depth = 0
  chain : w.steps.IsChain fun s s' => Admits (some s) s'.contract s'.depth
  /-- Every open frame may leave the next step. -/
  next : ∀ o ∈ w.stack, Admits w.steps.getLast? o.frame.contract.name o.frame.depth

theorem wellNested_start (c : Contract) (f : Function) :
    WellNested bound c (start g target ⟨c, f, 0⟩) where
  bounded s hs := nomatch hs
  entry s hs := nomatch hs
  owner s hs := nomatch hs
  first s hs := nomatch hs
  chain := .nil
  next o ho := by rw [List.mem_singleton.mp ho]; rfl

section

variable {c : Contract} {f d : Frame} {m : Moment} {ms : List Moment} {stack : List OpenFrame}
  {v : List FrameKey} {ss : List FlowStep} {rs rs' : List FrameKey}

/-- The step of a moment of the innermost frame continues the steps before it. -/
theorem WellNested.pass (hs : WellStacked g target bound c ⟨⟨f, m :: ms⟩ :: stack, v, ss, rs⟩)
    (h : WellNested bound c ⟨⟨f, m :: ms⟩ :: stack, v, ss, rs⟩) :
    WellNested bound c ⟨⟨f, ms⟩ :: stack, v, ss ++ m.step?.toList, rs'⟩ := by
  have hm : m ∈ f.moments g target := hs.rest ⟨f, m :: ms⟩ List.mem_cons_self List.mem_cons_self
  cases hstep : m.step? with
  | none =>
    simp only [Option.toList_none, List.append_nil]
    exact {
      bounded := h.bounded
      entry := h.entry
      owner := h.owner
      first := h.first
      chain := h.chain
      next := List.forall_mem_cons.mpr (List.forall_mem_cons.mp h.next) }
  | some s =>
    obtain ⟨hkey, hdepth⟩ := Frame.step_of_moment hm hstep
    have hcontract : s.contract = f.contract.name := congrArg Prod.fst hkey
    have hadmits : Admits ss.getLast? s.contract s.depth := by
      rw [hcontract, hdepth]
      exact h.next ⟨f, m :: ms⟩ List.mem_cons_self
    simp only [Option.toList_some]
    exact {
      bounded := by
        intro s' hs'
        rcases List.mem_append.mp hs' with hs' | hs'
        · exact h.bounded s' hs'
        · have hfit : f.depth ≤ stack.length := hs.depths.1
          have hheight : stack.length + 1 ≤ bound := hs.height
          rw [List.mem_singleton.mp hs', hdepth]
          omega
      entry := by
        intro s' hs' hz
        rcases List.mem_append.mp hs' with hs' | hs'
        · exact h.entry s' hs' hz
        · rw [List.mem_singleton.mp hs'] at hz ⊢
          have hc : f.contract = c :=
            hs.entry ⟨f, m :: ms⟩ List.mem_cons_self (hdepth.symm.trans hz)
          rw [hcontract, hc]
      owner := by
        intro s' hs'
        rcases List.mem_append.mp hs' with hs' | hs'
        · exact h.owner s' hs'
        · rw [List.mem_singleton.mp hs', hkey]
          exact hs.key ⟨f, m :: ms⟩ List.mem_cons_self
      first := by
        intro s' hs'
        rw [List.head?_append] at hs'
        cases ss with
        | nil => cases hs'; exact hadmits
        | cons a ss => exact h.first s' hs'
      chain := by
        refine List.isChain_append.mpr ⟨h.chain, .singleton s, fun a ha b hb => ?_⟩
        cases hb
        rw [Option.mem_def.mp ha] at hadmits
        exact hadmits
      next := by
        -- The frames below are no deeper than the step just taken.
        have hlast : (ss ++ [s]).getLast? = some s := List.getLast?_concat
        have hbelow := (List.pairwise_cons.mp hs.deeper).1
        intro o ho
        rw [hlast]
        rcases List.mem_cons.mp ho with rfl | ho
        · exact .inl (Nat.le_of_eq hdepth.symm)
        · exact .inl (by rw [hdepth]; exact hbelow o ho) }

theorem WellNested.enter (hs : WellStacked g target bound c ⟨⟨f, m :: ms⟩ :: stack, v, ss, rs⟩)
    (h : WellNested bound c ⟨⟨f, m :: ms⟩ :: stack, v, ss, rs⟩) (hd : m.descent? = some d) :
    WellNested bound c
      ⟨⟨d, d.moments g target⟩ :: ⟨f, ms⟩ :: stack, d.key :: v, ss ++ m.step?.toList, rs⟩ := by
  have hp : WellNested bound c ⟨⟨f, ms⟩ :: stack, v, ss ++ m.step?.toList, rs⟩ := h.pass hs
  have hm : m ∈ f.moments g target := hs.rest ⟨f, m :: ms⟩ List.mem_cons_self List.mem_cons_self
  have hnext : Admits (ss ++ m.step?.toList).getLast? d.contract.name d.depth := by
    obtain ⟨callee, line, h', -, hstep, -, rfl⟩ | ⟨i, line, site, c', h', -, -, hstep, -, -, rfl⟩ :=
      Frame.descent_cases hm hd
    · rw [hstep, Option.toList_none, List.append_nil]
      exact h.next ⟨f, m :: ms⟩ List.mem_cons_self
    · rw [hstep, Option.toList_some, List.getLast?_concat]
      exact .inr ⟨rfl, site.member, site.movesValue, rfl⟩
  exact {
    bounded := hp.bounded
    entry := hp.entry
    owner := fun s hs' => List.mem_cons_of_mem _ (hp.owner s hs')
    first := hp.first
    chain := hp.chain
    next := List.forall_mem_cons.mpr ⟨hnext, hp.next⟩ }

end

theorem Turn.wellNested {c : Contract} (h : Turn g target bound w w')
    (hs : WellStacked g target bound c w) (hw : WellNested bound c w) : WellNested bound c w' := by
  cases h with
  | close =>
    exact {
      bounded := hw.bounded
      entry := hw.entry
      owner := hw.owner
      first := hw.first
      chain := hw.chain
      next := fun o ho => hw.next o (List.mem_cons_of_mem _ ho) }
  | pass => exact hw.pass hs
  | enter hd => exact hw.enter hs hd
  | refuse => exact hw.pass hs

theorem Reaches.sound {c : Contract} (h : Reaches g target bound w w')
    (hs : WellStacked g target bound c w) (hw : WellNested bound c w) :
    WellStacked g target bound c w' ∧ WellNested bound c w' := by
  induction h with
  | refl => exact ⟨hs, hw⟩
  | tail _ hturn ih => exact ⟨hturn.wellStacked ih.1, hturn.wellNested ih.1 ih.2⟩

end Walker

/-! ## Flows -/

namespace Flow

open Walker

/-- A flow as the trace of a run of calls from the function `f` of the contract `c`, with at most `bound`
frames open at a time. -/
structure IsCallTrace (g : DependencyGraph) (target : CallPosition) (bound : Nat) (c : Contract)
    (f : Function) (flow : Flow) : Prop where
  entryContract : flow.entryContract = c.name
  entryFunction : flow.entryFunction = f.name
  /-- The run ends, its steps are those of the flow, and no frame was entered twice. -/
  run : ∃ w, Reaches g target bound (start g target ⟨c, f, 0⟩) w ∧ w.stack = [] ∧
    w.steps = flow.steps ∧ w.entered.Nodup ∧
    ∀ s ∈ flow.steps, (s.contract, s.function) ∈ w.entered
  bounded : ∀ s ∈ flow.steps, s.depth ≤ bound - 1
  first : ∀ s ∈ flow.steps.head?, s.depth = 0 ∧ s.contract = c.name
  entry : ∀ s ∈ flow.steps, s.depth = 0 → s.contract = c.name
  /-- Steps get deeper one boundary at a time, and only behind the call that crosses it. -/
  nested : flow.steps.IsChain fun s s' => s'.depth ≤ s.depth ∨
    (s'.depth = s.depth + 1 ∧ ∃ member moves, s.action = .call (s'.contract ++ "." ++ member) moves)
  truncation : flow.truncation? = some .recursionLimitExceeded ↔ flow.isTruncated = true
  /-- A flow is truncated exactly if its run came to a call for which there was no room. -/
  truncated : flow.isTruncated = true ↔
    ∃ w, Reaches g target bound (start g target ⟨c, f, 0⟩) w ∧ w.Refuses bound

theorem isCallTrace_follow (g : DependencyGraph) {maxDepth : Int} (hd : 1 ≤ maxDepth) (c : Contract)
    (f : Function) (target : CallPosition × String) :
    IsCallTrace g target.1 maxDepth.toNat c f (follow g maxDepth c f target) := by
  obtain ⟨n, hn⟩ : ∃ n, maxDepth.toNat = n + 1 := ⟨maxDepth.toNat - 1, by omega⟩
  have hrun := reaches_walk g target.1 n ⟨c, f, 0⟩
  rw [← hn] at hrun
  obtain ⟨hstack, hnested⟩ :=
    Reaches.sound hrun (wellStacked_start (by omega) c f) (wellNested_start c f)
  have htruncated := refused_ne_nil_iff hrun rfl rfl
  exact {
    entryContract := rfl
    entryFunction := rfl
    run := ⟨_, hrun, rfl, rfl, hstack.nodup, hnested.owner⟩
    bounded := fun s hs => Nat.le_sub_one_of_lt (hnested.bounded s hs)
    first := fun s hs =>
      ⟨hnested.first s hs, hnested.entry s (List.mem_of_mem_head? hs) (hnested.first s hs)⟩
    entry := hnested.entry
    nested := hnested.chain
    truncation := by simp [truncation?]
    truncated := by
      rw [← htruncated, ← Bool.not_eq_false, isTruncated_eq_false]
      rfl }

/-- Every flow of a batch is a call trace within the bound. -/
theorem all_callTraces (g : DependencyGraph) (cs : List Contract) {maxDepth : Int} (hd : 1 ≤ maxDepth)
    {flow : Flow} (hf : flow ∈ all g maxDepth cs) :
    ∃ c ∈ cs, ∃ f ∈ c.functions, f.isEntryPoint = true ∧ ∃ target ∈ targets g c f,
      flow.targetCall = target.2 ∧ IsCallTrace g target.1 maxDepth.toNat c f flow := by
  obtain ⟨c, hc, hf⟩ := List.mem_flatMap.mp hf
  obtain ⟨f, hfun, hf⟩ := List.mem_flatMap.mp hf
  obtain ⟨target, ht, rfl⟩ := List.mem_map.mp hf
  obtain ⟨hfun, hentry⟩ := List.mem_filter.mp hfun
  exact ⟨c, hc, f, hfun, hentry, target, ht, rfl, isCallTrace_follow g hd c f target⟩

/-- With room for two frames the call is followed over the boundary, with room for one it is refused. -/
theorem all_callTraces_pingPong :
    let cs := (Extraction.ofUnits [pingPong]).contracts
    let g := DependencyGraph.ofContracts cs
    (∃ flow ∈ all g 2 cs, (∃ s ∈ flow.steps, s.depth = 1) ∧ flow.isTruncated = false ∧
      ∃ c ∈ cs, ∃ f ∈ c.functions, ∃ target, IsCallTrace g target 2 c f flow) ∧
    ∃ flow ∈ all g 1 cs, flow.isTruncated = true ∧
      ∃ c ∈ cs, ∃ f ∈ c.functions, ∃ target, IsCallTrace g target 1 c f flow := by
  intro cs g
  -- One evaluation for both bounds: most of it reads the source.
  obtain ⟨⟨flow, hflow, hdeep, hwhole⟩, flow', hflow', hcut⟩ :
      (∃ flow ∈ all g 2 cs, (∃ s ∈ flow.steps, s.depth = 1) ∧ flow.isTruncated = false) ∧
        ∃ flow ∈ all g 1 cs, flow.isTruncated = true := by decide +kernel
  obtain ⟨c, hc, f, hf, -, target, -, -, htrace⟩ := all_callTraces g cs (by decide) hflow
  obtain ⟨c', hc', f', hf', -, target', -, -, htrace'⟩ := all_callTraces g cs (by decide) hflow'
  exact ⟨⟨flow, hflow, hdeep, hwhole, c, hc, f, hf, target.1, htrace⟩,
    flow', hflow', hcut, c', hc', f', hf', target'.1, htrace'⟩

end Flow

end ContractAudit
