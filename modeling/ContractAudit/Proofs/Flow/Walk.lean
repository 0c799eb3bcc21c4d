import ContractAudit.Proofs.Flow.Inlining

/-!
# Walks

`Follows g target n f ms v t`: with the frames `v` entered and room for `n` more on the way, the
moments `ms` of the frame `f` leave the trace `t`. It is the relation that `Trace.follow` and
`Trace.walk` compute, and everything said about all walks is proved by induction on it: what is
entered stays entered, a frame leads to frames of the graph, the steps of a walk belong to frames
that it has entered itself, and a frame entered without a refusal is walked to its end.
-/

namespace ContractAudit

theorem DependencyGraph.mem_of_resolveCall? {g : DependencyGraph} {name : String} {site : CallSite}
    {c : Contract} (h : g.resolveCall? name site = some c) : c ∈ g.nodes := by
  simp only [resolveCall?, resolve?] at h
  split at h
  · exact List.mem_of_find?_eq_some h
  · split at h
    · split at h
      · cases h
      · exact Dependency.mem_of_findByType? h
    · cases h

namespace Frame

/-- The frame of a helper of a contract of the graph. -/
structure IsHelper (g : DependencyGraph) (f : Frame) : Prop where
  contract_mem : f.contract ∈ g.nodes
  helper : f.contract.helper? f.function.name = some f.function

theorem isHelper_of_helper? {g : DependencyGraph} {c : Contract} {name : String} {h : Function}
    (hc : c ∈ g.nodes) (hh : c.helper? name = some h) (depth : Nat) :
    IsHelper g ⟨c, h, depth⟩ :=
  ⟨hc, Contract.helper?_name hh⟩

variable {g : DependencyGraph} {target : CallPosition} {f d : Frame} {m : Moment}

/-- The frames that a frame leads to: a helper at the same depth, without a step, or the function that a
followed call lands in, one boundary deeper, behind the step of the call. -/
theorem descent_cases (hm : m ∈ f.moments g target) (hd : m.descent? = some d) :
    (∃ callee line h, .internalCall callee line ∈ f.function.effects ∧ m.step? = none ∧
      f.contract.helper? callee = some h ∧ d = ⟨f.contract, h, f.depth⟩) ∨
    ∃ i line site c h, f.function.callSites[i]? = some site ∧ f.isFollowed target i = true ∧
      m.step? = some (f.step (.call (c.name ++ "." ++ site.member) site.movesValue) line) ∧
      g.resolveCall? f.contract.name site = some c ∧ c.helper? site.member = some h ∧
      d = ⟨c, h, f.depth + 1⟩ := by
  obtain ⟨e, he, rfl⟩ := List.mem_map.mp hm
  cases e with
  | read name line => simp [moment] at hd
  | write name line => simp [moment] at hd
  | internalCall callee line =>
    obtain ⟨h, hh, rfl⟩ := Option.map_eq_some_iff.mp hd
    exact .inl ⟨callee, line, h, he, rfl, hh, rfl⟩
  | externalCall i line =>
    cases hs : f.function.callSites[i]? with
    | none => simp [moment, hs] at hd
    | some site =>
      simp only [moment, hs] at hd ⊢
      split at hd
      · rename_i hf
        obtain ⟨c, hc, hd⟩ := Option.bind_eq_some_iff.mp hd
        obtain ⟨h, hh, rfl⟩ := Option.map_eq_some_iff.mp hd
        exact .inr ⟨i, line, site, c, h, hs, hf, by rw [hc]; rfl, hc, hh, rfl⟩
      · cases hd

theorem isHelper_descent (hc : f.contract ∈ g.nodes) (hm : m ∈ f.moments g target)
    (hd : m.descent? = some d) : d.IsHelper g := by
  obtain ⟨callee, line, h, -, -, hh, rfl⟩ | ⟨i, line, site, c, h, -, -, -, hr, hh, rfl⟩ :=
    descent_cases hm hd
  · exact isHelper_of_helper? hc hh _
  · exact isHelper_of_helper? (DependencyGraph.mem_of_resolveCall? hr) hh _

theorem depth_le_descent (hm : m ∈ f.moments g target) (hd : m.descent? = some d) :
    f.depth ≤ d.depth := by
  obtain ⟨callee, line, h, -, -, -, rfl⟩ | ⟨i, line, site, c, h, -, -, -, -, -, rfl⟩ :=
    descent_cases hm hd
  · exact Nat.le_refl _
  · exact Nat.le_succ _

/-- A frame leaves steps of its own only. -/
theorem step_of_moment {s : FlowStep} (hm : m ∈ f.moments g target) (hs : m.step? = some s) :
    (s.contract, s.function) = f.key ∧ s.depth = f.depth := by
  obtain ⟨e, -, rfl⟩ := List.mem_map.mp hm
  cases e with
  | read name line => simp only [moment, Option.some.injEq] at hs; subst hs; exact ⟨rfl, rfl⟩
  | write name line => simp only [moment, Option.some.injEq] at hs; subst hs; exact ⟨rfl, rfl⟩
  | internalCall callee line => simp [moment] at hs
  | externalCall i line =>
    simp only [moment] at hs
    split at hs
    · simp at hs
    · simp only [Option.some.injEq] at hs; subst hs; exact ⟨rfl, rfl⟩

end Frame

theorem Moment.descent_mem_or (m : Moment) (v : List FrameKey) :
    (∀ d, m.descent? = some d → d.key ∈ v) ∨ ∃ d, m.descent? = some d ∧ d.key ∉ v := by
  cases hd : m.descent? with
  | none => exact .inl fun d h => by cases h
  | some d =>
    by_cases hv : d.key ∈ v
    · exact .inl fun d' h => by cases h; exact hv
    · exact .inr ⟨d, rfl, hv⟩

namespace Trace

/-- The trace of nothing. -/
def idle (v : List FrameKey) : Trace := ⟨v, [], []⟩

/-- A moment whose descent leaves `inner`, and then `rest`. -/
def after (m : Moment) (inner rest : Trace) : Trace :=
  ⟨rest.visited, m.step?.toList ++ inner.steps ++ rest.steps, inner.refused ++ rest.refused⟩

/-- The moments `ms` of `f` leave the trace when `v` is entered and `n` more frames may be opened. -/
inductive Follows (g : DependencyGraph) (target : CallPosition) :
    Nat → Frame → List Moment → List FrameKey → Trace → Prop where
  | nil {n f v} : Follows g target n f [] v (idle v)
  | skip {n f m ms v t} (hd : ∀ d, m.descent? = some d → d.key ∈ v)
      (rest : Follows g target n f ms v t) : Follows g target n f (m :: ms) v (after m (idle v) t)
  | refuse {f m ms v d t} (hd : m.descent? = some d) (hv : d.key ∉ v)
      (rest : Follows g target 0 f ms v t) :
      Follows g target 0 f (m :: ms) v (after m ⟨v, [], [d.key]⟩ t)
  | descend {n f m ms v d t t'} (hd : m.descent? = some d) (hv : d.key ∉ v)
      (inner : Follows g target n d (d.moments g target) (d.key :: v) t)
      (rest : Follows g target (n + 1) f ms t.visited t') :
      Follows g target (n + 1) f (m :: ms) v (after m t t')

theorem follow_cons_of_mem {enter : Frame → List FrameKey → Trace} {m : Moment} {ms : List Moment}
    {v : List FrameKey} (hd : ∀ d, m.descent? = some d → d.key ∈ v) :
    follow enter (m :: ms) v = after m (idle v) (follow enter ms v) := by
  cases h : m.descent? with
  | none => simp [follow, h, after, idle]
  | some d => simp [follow, h, after, idle, hd d h]

theorem follow_cons_of_not_mem {enter : Frame → List FrameKey → Trace} {m : Moment}
    {ms : List Moment} {v : List FrameKey} {d : Frame} (hd : m.descent? = some d)
    (hv : d.key ∉ v) :
    follow enter (m :: ms) v = after m (enter d v) (follow enter ms (enter d v).visited) := by
  simp [follow, hd, after, hv]

variable {g : DependencyGraph} {target : CallPosition}

theorem follows_follow (n : Nat) (f : Frame) (ms : List Moment) (v : List FrameKey) :
    Follows g target n f ms v (follow (walk g target n) ms v) := by
  induction n generalizing f ms v with
  | zero =>
    induction ms generalizing v with
    | nil => exact .nil
    | cons m ms ih =>
      obtain hd | ⟨d, hd, hv⟩ := m.descent_mem_or v
      · rw [follow_cons_of_mem hd]
        exact .skip hd (ih v)
      · rw [follow_cons_of_not_mem hd hv]
        exact .refuse hd hv (ih v)
  | succ n ihn =>
    induction ms generalizing v with
    | nil => exact .nil
    | cons m ms ih =>
      obtain hd | ⟨d, hd, hv⟩ := m.descent_mem_or v
      · rw [follow_cons_of_mem hd]
        exact .skip hd (ih v)
      · rw [follow_cons_of_not_mem hd hv]
        exact .descend hd hv (ihn d _ _) (ih _)

/-- A walk with room for a frame follows all moments of the frame. -/
theorem follows_walk (n : Nat) (f : Frame) (v : List FrameKey) :
    Follows g target n f (f.moments g target) (f.key :: v) (walk g target (n + 1) f v) :=
  follows_follow n f _ _

/-! ## What is entered -/

variable {n : Nat} {f : Frame} {ms : List Moment} {v : List FrameKey} {t : Trace}

theorem mem_after_steps {m : Moment} {inner rest : Trace} {s : FlowStep} :
    s ∈ (after m inner rest).steps ↔ m.step? = some s ∨ s ∈ inner.steps ∨ s ∈ rest.steps := by
  simp [after]

namespace Follows

theorem visited_subset (h : Follows g target n f ms v t) : v ⊆ t.visited := by
  induction h with
  | nil => exact List.Subset.refl _
  | skip _ _ ih => exact ih
  | refuse _ _ _ ih => exact ih
  | descend _ _ _ _ ih ih' =>
    intro k hk
    exact ih' (ih (List.mem_cons_of_mem _ hk))

/-- A step belongs to the frame itself or to one that was entered on the way, which is no less deep. -/
theorem step_key (h : Follows g target n f ms v t) (hms : ms ⊆ f.moments g target) {s : FlowStep}
    (hs : s ∈ t.steps) :
    ((s.contract, s.function) = f.key ∧ s.depth = f.depth) ∨
      ((s.contract, s.function) ∈ t.visited ∧ (s.contract, s.function) ∉ v ∧
        f.depth ≤ s.depth) := by
  induction h with
  | nil => cases hs
  | skip _ _ ih =>
    obtain ⟨hm, hms⟩ := List.cons_subset.mp hms
    rcases mem_after_steps.mp hs with hs | hs | hs
    · exact .inl (Frame.step_of_moment hm hs)
    · cases hs
    · exact ih hms hs
  | refuse _ _ _ ih =>
    obtain ⟨hm, hms⟩ := List.cons_subset.mp hms
    rcases mem_after_steps.mp hs with hs | hs | hs
    · exact .inl (Frame.step_of_moment hm hs)
    · cases hs
    · exact ih hms hs
  | descend hd hv inner rest ih ih' =>
    obtain ⟨hm, hms⟩ := List.cons_subset.mp hms
    have hdepth := Frame.depth_le_descent hm hd
    rcases mem_after_steps.mp hs with hs | hs | hs
    · exact .inl (Frame.step_of_moment hm hs)
    · right
      rcases ih (List.Subset.refl _) hs with ⟨hk, he⟩ | ⟨hk, hn, hle⟩
      · rw [hk]
        exact ⟨rest.visited_subset (inner.visited_subset List.mem_cons_self), hv, by omega⟩
      · exact ⟨rest.visited_subset hk, fun h => hn (List.mem_cons_of_mem _ h), by omega⟩
    · rcases ih' hms hs with hk | ⟨hk, hn, hle⟩
      · exact .inl hk
      · exact .inr ⟨hk, fun h => hn (inner.visited_subset (List.mem_cons_of_mem _ h)), hle⟩

theorem depth_le (h : Follows g target n f ms v t) (hms : ms ⊆ f.moments g target) {s : FlowStep}
    (hs : s ∈ t.steps) : f.depth ≤ s.depth := by
  rcases h.step_key hms hs with ⟨-, he⟩ | ⟨-, -, hle⟩
  · exact Nat.le_of_eq he.symm
  · exact hle

/-- The steps of a frame that was not entered before belong to what it enters. -/
theorem step_entered {d : Frame} (h : Follows g target n d (d.moments g target) (d.key :: v) t)
    (hv : d.key ∉ v) {s : FlowStep} (hs : s ∈ t.steps) :
    (s.contract, s.function) ∈ t.visited ∧ (s.contract, s.function) ∉ v := by
  rcases h.step_key (List.Subset.refl _) hs with ⟨hk, -⟩ | ⟨hk, hn, -⟩
  · rw [hk]
    exact ⟨h.visited_subset List.mem_cons_self, hv⟩
  · exact ⟨hk, fun h => hn (List.mem_cons_of_mem _ h)⟩

end Follows

/-! ## One depth for each function -/

/-- Steps of one function of a contract have one depth. -/
def OneDepth (ss : List FlowStep) : Prop :=
  ∀ s ∈ ss, ∀ s' ∈ ss, (s.contract, s.function) = (s'.contract, s'.function) → s.depth = s'.depth

theorem OneDepth.append {ss ss' : List FlowStep} (h : OneDepth ss) (h' : OneDepth ss')
    (hc : ∀ s ∈ ss, ∀ s' ∈ ss', (s.contract, s.function) = (s'.contract, s'.function) →
      s.depth = s'.depth) : OneDepth (ss ++ ss') := by
  intro s hs s' hs' hk
  rcases List.mem_append.mp hs with hs | hs <;> rcases List.mem_append.mp hs' with hs' | hs'
  · exact h s hs s' hs' hk
  · exact hc s hs s' hs' hk
  · exact (hc s' hs' s hs hk.symm).symm
  · exact h' s hs s' hs' hk

/-- A moment of `f` keeps one depth for each function: what its descent enters was not entered before,
and the rest of `f` enters only what the descent has not. -/
theorem OneDepth.after {m : Moment} {inner rest : Trace} {w : List FrameKey}
    (hm : m ∈ f.moments g target) (hf : f.key ∈ v) (hw : v ⊆ w)
    (hi : ∀ s ∈ inner.steps, (s.contract, s.function) ∈ w ∧ (s.contract, s.function) ∉ v)
    (hr : ∀ s ∈ rest.steps, ((s.contract, s.function) = f.key ∧ s.depth = f.depth) ∨
      (s.contract, s.function) ∉ w)
    (hinner : OneDepth inner.steps) (hrest : OneDepth rest.steps) :
    OneDepth (after m inner rest).steps := by
  have own : ∀ s ∈ m.step?.toList, (s.contract, s.function) = f.key ∧ s.depth = f.depth :=
    fun s hs => Frame.step_of_moment hm (Option.mem_toList.mp hs)
  refine .append (.append ?_ hinner ?_) hrest ?_
  · intro s hs s' hs' _
    rw [(own s hs).2, (own s' hs').2]
  · intro s hs s' hs' hk
    exact absurd (hk ▸ (own s hs).1 ▸ hf) (hi s' hs').2
  · intro s hs s' hs' hk
    rcases List.mem_append.mp hs with hs | hs <;> rcases hr s' hs' with ⟨hk', hd'⟩ | hn
    · rw [(own s hs).2, hd']
    · exact absurd (hk ▸ (own s hs).1 ▸ hw hf) hn
    · exact absurd (hk ▸ hk' ▸ hf) (hi s hs).2
    · exact absurd (hk ▸ (hi s hs).1) hn

theorem Follows.oneDepth (h : Follows g target n f ms v t) (hms : ms ⊆ f.moments g target)
    (hf : f.key ∈ v) : OneDepth t.steps := by
  induction h with
  | nil => intro s hs; cases hs
  | skip _ rest ih =>
    obtain ⟨hm, hms⟩ := List.cons_subset.mp hms
    refine .after hm hf (List.Subset.refl _) (by simp [idle]) (fun s hs => ?_)
      (by simp [OneDepth, idle]) (ih hms hf)
    exact (rest.step_key hms hs).imp_right fun h => h.2.1
  | refuse _ _ rest ih =>
    obtain ⟨hm, hms⟩ := List.cons_subset.mp hms
    refine .after hm hf (List.Subset.refl _) (by simp) (fun s hs => ?_) (by simp [OneDepth])
      (ih hms hf)
    exact (rest.step_key hms hs).imp_right fun h => h.2.1
  | descend hd hv inner rest ih ih' =>
    obtain ⟨hm, hms⟩ := List.cons_subset.mp hms
    have hw := fun k hk => inner.visited_subset (List.mem_cons_of_mem _ (a := k) hk)
    refine .after hm hf hw (fun s hs => inner.step_entered hv hs) (fun s hs => ?_)
      (ih (List.Subset.refl _) List.mem_cons_self) (ih' hms (hw _ hf))
    exact (rest.step_key hms hs).imp_right fun h => h.2.1

/-! ## Walks without a refusal -/

/-- Every step that a frame leaves and every frame that it leads to is in the trace. -/
structure Covers (t : Trace) (ms : List Moment) : Prop where
  step : ∀ m ∈ ms, ∀ s, m.step? = some s → s ∈ t.steps
  descent : ∀ m ∈ ms, ∀ d, m.descent? = some d → d.key ∈ t.visited

theorem Covers.mono {t' : Trace} (h : Covers t ms) (hs : t.steps ⊆ t'.steps)
    (hv : t.visited ⊆ t'.visited) : Covers t' ms where
  step m hm s hms := hs (h.step m hm s hms)
  descent m hm d hmd := hv (h.descent m hm d hmd)

theorem steps_subset_after_inner {m : Moment} {inner rest : Trace} :
    inner.steps ⊆ (after m inner rest).steps :=
  fun _ hs => mem_after_steps.mpr (.inr (.inl hs))

theorem steps_subset_after_rest {m : Moment} {inner rest : Trace} :
    rest.steps ⊆ (after m inner rest).steps :=
  fun _ hs => mem_after_steps.mpr (.inr (.inr hs))

theorem refused_after {m : Moment} {inner rest : Trace} :
    (after m inner rest).refused = [] ↔ inner.refused = [] ∧ rest.refused = [] := by
  simp [after]

theorem Covers.cons {m : Moment} {inner rest : Trace} (h : Covers rest ms)
    (hd : ∀ d, m.descent? = some d → d.key ∈ rest.visited) :
    Covers (after m inner rest) (m :: ms) where
  step m' hm s hs := by
    rcases List.mem_cons.mp hm with rfl | hm
    · exact mem_after_steps.mpr (.inl hs)
    · exact steps_subset_after_rest (h.step m' hm s hs)
  descent m' hm d hmd := by
    rcases List.mem_cons.mp hm with rfl | hm
    · exact hd d hmd
    · exact h.descent m' hm d hmd

namespace Follows

theorem covers (h : Follows g target n f ms v t) (hr : t.refused = []) : Covers t ms := by
  induction h with
  | nil => exact ⟨by simp, by simp⟩
  | skip hd rest ih =>
    exact (ih (refused_after.mp hr).2).cons fun d h => rest.visited_subset (hd d h)
  | refuse _ _ _ _ => cases (refused_after.mp hr).1
  | descend hd hv inner rest _ ih =>
    refine (ih (refused_after.mp hr).2).cons fun d h => ?_
    rw [hd] at h
    cases h
    exact rest.visited_subset (inner.visited_subset List.mem_cons_self)

/-- Where nothing is refused, every frame entered on the way is walked to its end. -/
theorem covers_entered (h : Follows g target n f ms v t) (hms : ms ⊆ f.moments g target)
    (hc : f.contract ∈ g.nodes) (hr : t.refused = []) {k : FrameKey} (hk : k ∈ t.visited)
    (hkv : k ∉ v) :
    ∃ d : Frame, d.key = k ∧ d.IsHelper g ∧ f.depth ≤ d.depth ∧
      Covers t (d.moments g target) := by
  induction h with
  | nil => exact absurd hk hkv
  | skip _ _ ih =>
    obtain ⟨d, rfl, hh, hle, hw⟩ :=
      ih (List.cons_subset.mp hms).2 hc (refused_after.mp hr).2 hk hkv
    exact ⟨d, rfl, hh, hle, hw.mono steps_subset_after_rest (List.Subset.refl _)⟩
  | refuse _ _ _ _ => cases (refused_after.mp hr).1
  | @descend _ _ _ _ v d t _ hd hv inner rest ih ih' =>
    obtain ⟨hm, hms⟩ := List.cons_subset.mp hms
    obtain ⟨hr, hr'⟩ := refused_after.mp hr
    have hh := Frame.isHelper_descent hc hm hd
    have hle := Frame.depth_le_descent hm hd
    by_cases hkt : k ∈ t.visited
    · by_cases hkd : k = d.key
      · exact ⟨d, hkd.symm, hh, hle,
          (inner.covers hr).mono steps_subset_after_inner rest.visited_subset⟩
      · have hkv' : k ∉ d.key :: v := fun h => (List.mem_cons.mp h).elim hkd hkv
        obtain ⟨d', rfl, hh', hle', hw⟩ :=
          ih (List.Subset.refl _) hh.contract_mem hr hkt hkv'
        exact ⟨d', rfl, hh', Nat.le_trans hle hle',
          hw.mono steps_subset_after_inner rest.visited_subset⟩
    · obtain ⟨d', rfl, hh', hle', hw⟩ := ih' hms hc hr' hk hkt
      exact ⟨d', rfl, hh', hle', hw.mono steps_subset_after_rest (List.Subset.refl _)⟩

end Follows

end Trace

end ContractAudit
