import ContractAudit.Proofs.Contract.Effects

/-!
# Events, token by token

What the body of a function does is found token by token in the scope of its contract. The call sites of a function
are those of its tokens in order, and its effects are the events of its tokens, sorted. An access that is dropped
because it repeats the one before it is stood for by that one.
-/

namespace ContractAudit

namespace Focus

theorem getElem?_focusesFrom (before front : List Token) (t : Token) (after : List Token) :
    (focusesFrom before (front ++ t :: after))[front.length]? = some ⟨front.reverse ++ before, t, after⟩ := by
  induction front generalizing before with
  | nil => rfl
  | cons x front ih => simpa [focusesFrom] using ih (x :: before)

/-- A token with what stands in front of it and behind it. -/
theorem getElem?_all (front : List Token) (t : Token) (after : List Token) :
    (all (front ++ t :: after))[front.length]? = some ⟨front.reverse, t, after⟩ := by
  have h := getElem?_focusesFrom [] front t after
  rw [List.append_nil] at h
  exact h

theorem length_focusesFrom (before ts : List Token) : (focusesFrom before ts).length = ts.length := by
  induction ts generalizing before with
  | nil => rfl
  | cons t ts ih => simp [focusesFrom, ih]

theorem length_all (ts : List Token) : (all ts).length = ts.length := length_focusesFrom [] ts

end Focus

/-- A list read through by its positions. -/
theorem flatMap_range {α β : Type} (g : α → List β) (xs : List α) :
    (List.range xs.length).flatMap (fun i => (xs[i]?.map g).getD []) = xs.flatMap g := by
  induction xs with
  | nil => rfl
  | cons x xs ih =>
    rw [List.length_cons, List.range_succ_eq_map, List.flatMap_cons, List.flatMap_map, List.flatMap_cons, ← ih]
    rfl

namespace Contract

/-- What every body of a contract sees. -/
def memberScope (c : Contract) : Scope where
  contract := c.name
  stateVariables := c.stateVariables
  functionNames := c.functions.map (·.name)
  typeNames := c.typeNames
  locals := []

/-- What the body of a function sees. -/
def scope (c : Contract) (f : Function) : Scope :=
  { c.memberScope with locals := localsOf f.parameters f.bodyTokens }

/-- The events at the token `i` of the body of a function. -/
def eventsAt (c : Contract) (f : Function) (i : Nat) : List Positioned :=
  ((Focus.all f.bodyTokens)[i]?.map (·.events (c.scope f))).getD []

/-- The call sites recorded at the token `i` of the body of a function. -/
def sitesAt (c : Contract) (f : Function) (i : Nat) : List CallSite := callSitesOf (c.eventsAt f i)

theorem eventsAt_of_body {c : Contract} {f : Function} {front after : List Token} {t : Token}
    (h : f.body = some (front ++ t :: after)) :
    c.eventsAt f front.length = (Focus.mk front.reverse t after).events (c.scope f) := by
  simp only [eventsAt, Function.bodyTokens, h, Option.getD_some, Focus.getElem?_all, Option.map_some]

/-- Events are found only at the tokens of the body. -/
theorem lt_of_mem_eventsAt {c : Contract} {f : Function} {i : Nat} {p : Positioned} (h : p ∈ c.eventsAt f i) :
    i < f.bodyTokens.length := by
  by_contra hi
  have hnone : (Focus.all f.bodyTokens)[i]? = none := by
    rw [List.getElem?_eq_none_iff, Focus.length_all]
    omega
  rw [eventsAt, hnone] at h
  cases h

theorem eventsOf_eq (c : Contract) (f : Function) :
    eventsOf (c.scope f) f.bodyTokens = (List.range f.bodyTokens.length).flatMap (c.eventsAt f) := by
  rw [eventsOf, ← flatMap_range, Focus.length_all]
  rfl

/-- A name that no parameter and no local has is not among the locals of the scope. -/
theorem not_mem_locals_scope {c : Contract} {f : Function} {name : String}
    (hparameter : ∀ p ∈ f.parameters, p.name ≠ name) (hlocal : name ∉ f.bodyLocals) :
    name ∉ (c.scope f).locals.map (·.1) := by
  intro hmem
  obtain hbody | ⟨p, hp, -, hname⟩ := mem_names_localsOf.mp hmem
  · exact hlocal hbody
  · exact hparameter p hp hname

end Contract

namespace Scope

variable {s : Scope} {name : String}

theorem lookup_locals_eq_none (h : name ∉ s.locals.map (·.1)) : s.locals.lookup name = none := by
  rw [List.lookup_eq_none_iff]
  intro p hp
  exact bne_iff_ne.mpr fun he => h (List.mem_map.mpr ⟨p, hp, he.symm⟩)

theorem seesVariable_of_mem {v : StateVariable} (hv : v ∈ s.stateVariables) (h : v.name ∉ s.locals.map (·.1)) :
    s.seesVariable v.name = true := by
  rw [seesVariable, Bool.and_eq_true, List.any_eq_true]
  constructor
  · exact ⟨v, hv, beq_self_eq_true _⟩
  · rw [Bool.not_eq_true', isLocal, List.any_eq_false]
    intro p hp he
    exact h (List.mem_map.mpr ⟨p, hp, eq_of_beq he⟩)

theorem seesVariable_of_findVariable? {v : StateVariable} (hv : s.findVariable? name = some v)
    (h : name ∉ s.locals.map (·.1)) : s.seesVariable name = true := by
  have hname : (v.name == name) = true := List.find?_some (p := fun w : StateVariable => w.name == name) hv
  have hmem : v ∈ s.stateVariables := List.mem_reverse.mp (List.mem_of_find?_eq_some hv)
  rw [← eq_of_beq hname] at h ⊢
  exact seesVariable_of_mem hmem h

end Scope

theorem callSitesOf_flatMap {α : Type} (g : α → List Positioned) (xs : List α) :
    callSitesOf (xs.flatMap g) = xs.flatMap fun x => callSitesOf (g x) := List.filterMap_flatMap

/-- The call sites and the effects of a function come from the tokens of its body. -/
structure Function.ReadIn (f : Function) (c : Contract) : Prop where
  callSites : f.callSites = (List.range f.bodyTokens.length).flatMap (c.sitesAt f)
  effects : f.effects = effectsOf ((List.range f.bodyTokens.length).flatMap (c.eventsAt f))

theorem RawFunction.events_eq (s : Scope) (raw : RawFunction) :
    raw.events s = eventsOf (raw.scope s) (raw.body.getD []) := by
  unfold events scope
  cases raw.body with
  | none => rfl
  | some body => rfl

/-- Every function of a contract is read in the scope that the finished contract has. -/
theorem SourceUnit.exists_ofRaw {unit : SourceUnit} {cs : List Contract} {c : Contract} {f : Function}
    (h : unit.contracts = .ok cs) (hc : c ∈ cs) (hf : f ∈ c.functions) :
    ∃ raw, f = Function.ofRaw c.kind c.memberScope raw := by
  obtain ⟨kind, name, header, members, rfl⟩ := exists_ofMembers h hc
  obtain ⟨raw, -, rfl⟩ := List.mem_map.mp hf
  have hnames : (Contract.ofMembers unit kind name header members).functions.map (·.name) =
      (Member.functions members).map (·.name) := by
    simp [Contract.ofMembers, Function.ofRaw, Function.comp_def]
  refine ⟨raw, ?_⟩
  rw [Contract.memberScope, hnames]
  rfl

theorem SourceUnit.readIn {unit : SourceUnit} {cs : List Contract} {c : Contract} {f : Function}
    (h : unit.contracts = .ok cs) (hc : c ∈ cs) (hf : f ∈ c.functions) : f.ReadIn c := by
  obtain ⟨raw, rfl⟩ := exists_ofRaw h hc hf
  have hevents := (raw.events_eq c.memberScope).trans (c.eventsOf_eq (Function.ofRaw c.kind c.memberScope raw))
  constructor
  · exact (congrArg callSitesOf hevents).trans (callSitesOf_flatMap ..)
  · exact congrArg effectsOf hevents

/-! ## Effects that stand for others -/

theorem exists_mem_numberEvents {position first : Nat} {event : Event} {events : List Positioned}
    (h : (position, event) ∈ events) : ∃ i, (position, event.effect i) ∈ numberEvents first events := by
  induction events generalizing first with
  | nil => cases h
  | cons p events ih =>
    obtain ⟨q, e⟩ := p
    rw [numberEvents_cons]
    rcases List.mem_cons.mp h with h | h
    · cases h
      exact ⟨first, List.mem_cons_self⟩
    · obtain ⟨i, hi⟩ := @ih (first + e.sites.length) h
      exact ⟨i, List.mem_cons_of_mem _ hi⟩

/-- Every effect is kept or repeats one that is. -/
theorem exists_mem_collapseAfter {last e : Effect} {es : List Effect} (h : e ∈ es) :
    ∃ d ∈ last :: collapseAfter last es, d = e ∨ d.SameAccess e := by
  induction es generalizing last with
  | nil => cases h
  | cons x es ih =>
    simp only [collapseAfter]
    rcases List.mem_cons.mp h with rfl | h
    · split
      · rename_i hr
        exact ⟨last, List.mem_cons_self, .inr (Effect.repeats_iff.mp hr)⟩
      · exact ⟨e, by simp, .inl rfl⟩
    · split
      · exact ih h
      · obtain ⟨d, hd, hde⟩ := @ih x h
        exact ⟨d, List.mem_cons_of_mem _ hd, hde⟩

theorem exists_mem_collapse {e : Effect} {es : List Effect} (h : e ∈ es) :
    ∃ d ∈ collapse es, d = e ∨ d.SameAccess e := by
  cases es with
  | nil => cases h
  | cons x es =>
    rcases List.mem_cons.mp h with rfl | h
    · exact ⟨e, List.mem_cons_self, .inl rfl⟩
    · exact exists_mem_collapseAfter h

theorem exists_mem_effectsOf {position : Nat} {event : Event} {events : List Positioned}
    (h : (position, event) ∈ events) :
    ∃ i, ∃ d ∈ effectsOf events, d = event.effect i ∨ d.SameAccess (event.effect i) := by
  obtain ⟨i, hi⟩ := @exists_mem_numberEvents position 0 event events h
  exact ⟨i, exists_mem_collapse (List.mem_map.mpr ⟨_, mem_sortByPosition.mpr hi, rfl⟩)⟩

/-- A write to a variable leaves a write to it among the effects. -/
theorem exists_write_mem_effectsOf {position line : Nat} {name : String} {events : List Positioned}
    (h : (position, .write name line) ∈ events) : ∃ line', .write name line' ∈ effectsOf events := by
  obtain ⟨i, d, hd, rfl | hsame⟩ := exists_mem_effectsOf h
  · exact ⟨line, hd⟩
  · generalize he : Event.effect i (.write name line) = e at hsame
    cases hsame with
    | read n l l' => cases he
    | write n l l' =>
      cases he
      exact ⟨l, hd⟩

namespace Function.ReadIn

variable {f : Function} {c : Contract} {i : Nat}

theorem mem_callSites (h : f.ReadIn c) {site : CallSite} (hs : site ∈ c.sitesAt f i) : site ∈ f.callSites := by
  obtain ⟨p, hp, -⟩ := List.mem_filterMap.mp hs
  rw [h.callSites]
  exact List.mem_flatMap.mpr ⟨i, List.mem_range.mpr (Contract.lt_of_mem_eventsAt hp), hs⟩

theorem exists_write (h : f.ReadIn c) {position line : Nat} {name : String}
    (hw : (position, .write name line) ∈ c.eventsAt f i) : ∃ line', .write name line' ∈ f.effects := by
  rw [h.effects]
  exact exists_write_mem_effectsOf
    (List.mem_flatMap.mpr ⟨i, List.mem_range.mpr (Contract.lt_of_mem_eventsAt hw), hw⟩)

end Function.ReadIn

end ContractAudit
