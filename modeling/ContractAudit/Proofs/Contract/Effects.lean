import ContractAudit.Proofs.Batch
import ContractAudit.Proofs.Contract
import Mathlib.Data.List.Chain

/-!
# Effects and what they refer to

The effects of a function come from the events of its body, numbered, sorted by position and collapsed.
Numbering gives each call site its own effect; sorting keeps every effect, and collapsing drops only an
access that repeats the one before it. So every call site is the target of exactly one effect, and what an
effect names is declared in the contract.
-/

namespace ContractAudit

/-! ## What an effect says -/

namespace Effect

/-- The call site that an effect refers to. -/
def site? : Effect → Option Nat
  | externalCall i _ => some i
  | _ => none

/-- The state variable that an effect reads or writes. -/
def accessed? : Effect → Option String
  | read name _ | write name _ => some name
  | _ => none

/-- Both effects read, or both write, the same state variable. -/
inductive SameAccess : Effect → Effect → Prop where
  | read (name : String) (line line' : Nat) : SameAccess (.read name line) (.read name line')
  | write (name : String) (line line' : Nat) : SameAccess (.write name line) (.write name line')

theorem repeats_iff {a b : Effect} : a.repeats b = true ↔ SameAccess a b := by
  constructor
  · intro h
    cases a <;> cases b <;> simp only [repeats, beq_iff_eq, Bool.false_eq_true] at h
    · subst h
      exact .read ..
    · subst h
      exact .write ..
  · rintro (⟨name, line, line'⟩ | ⟨name, line, line'⟩) <;> simp [repeats]

theorem site?_of_repeats {a b : Effect} (h : a.repeats b = true) : b.site? = none := by
  obtain ⟨name, line, line'⟩ | ⟨name, line, line'⟩ := repeats_iff.mp h <;> rfl

end Effect

/-! ## Numbering -/

namespace Event

/-- The effect of an event, a call out having the number `i`. -/
def effect (i : Nat) : Event → Effect
  | read name line => .read name line
  | write name line => .write name line
  | internalCall callee line => .internalCall callee line
  | externalCall site => .externalCall i site.line

/-- The call site of an event, if it has one. -/
def sites : Event → List CallSite
  | externalCall site => [site]
  | _ => []

end Event

theorem numberEvents_cons (first position : Nat) (event : Event) (events : List Positioned) :
    numberEvents first ((position, event) :: events) =
      (position, event.effect first) :: numberEvents (first + event.sites.length) events := by
  cases event <;> rfl

theorem callSitesOf_cons (position : Nat) (event : Event) (events : List Positioned) :
    callSitesOf ((position, event) :: events) = event.sites ++ callSitesOf events := by
  cases event <;> rfl

/-- Every effect is that of an event, and a call out has the number of its call site. -/
theorem exists_event_of_mem_numberEvents {position first : Nat} {e : Effect} {events : List Positioned}
    (h : (position, e) ∈ numberEvents first events) :
    ∃ event i, (position, event) ∈ events ∧ e = event.effect (first + i) ∧
      ∀ site ∈ event.sites, (callSitesOf events)[i]? = some site := by
  induction events generalizing first with
  | nil => cases h
  | cons p events ih =>
    obtain ⟨q, event⟩ := p
    rw [numberEvents_cons] at h
    rcases List.mem_cons.mp h with h | h
    · cases h
      refine ⟨event, 0, List.mem_cons_self, rfl, fun site hs => ?_⟩
      cases event with
      | externalCall s => rw [List.mem_singleton.mp hs]; rfl
      | read name line => cases hs
      | write name line => cases hs
      | internalCall callee line => cases hs
    · obtain ⟨event', i, hmem, rfl, hsite⟩ := ih h
      refine ⟨event', event.sites.length + i, List.mem_cons_of_mem _ hmem, ?_, fun site hs => ?_⟩
      · rw [Nat.add_assoc]
      · rw [callSitesOf_cons, List.getElem?_append_right (Nat.le_add_right _ _),
          Nat.add_sub_cancel_left]
        exact hsite site hs

/-- The numbers given out are those of the call sites, in order. -/
theorem sites_numberEvents (first : Nat) (events : List Positioned) :
    (numberEvents first events).filterMap (·.2.site?) =
      List.range' first (callSitesOf events).length := by
  induction events generalizing first with
  | nil => rfl
  | cons p events ih =>
    obtain ⟨q, event⟩ := p
    cases event with
    | externalCall site =>
      rw [callSitesOf_cons, Event.sites, List.singleton_append, List.length_cons, List.range'_succ,
        ← ih]
      rfl
    | read name line => exact ih first
    | write name line => exact ih first
    | internalCall callee line => exact ih first

/-! ## Sorting and collapsing -/

theorem insertByPosition_perm (e : Nat × Effect) (es : List (Nat × Effect)) :
    (insertByPosition e es).Perm (e :: es) := by
  induction es with
  | nil => exact .refl _
  | cons d es ih =>
    simp only [insertByPosition]
    split
    · exact .refl _
    · exact (ih.cons d).trans (.swap e d es)

theorem sortByPosition_perm (es : List (Nat × Effect)) : (sortByPosition es).Perm es := by
  induction es with
  | nil => exact .refl _
  | cons e es ih => exact (insertByPosition_perm e _).trans (ih.cons e)

/-- Collapsing drops no call out. -/
theorem sites_collapseAfter (last : Effect) (es : List Effect) :
    (collapseAfter last es).filterMap Effect.site? = es.filterMap Effect.site? := by
  induction es generalizing last with
  | nil => rfl
  | cons e es ih =>
    simp only [collapseAfter]
    split
    · rename_i h
      rw [ih, List.filterMap_cons_none (Effect.site?_of_repeats h)]
    · simp only [List.filterMap_cons, ih]

theorem sites_collapse (es : List Effect) :
    (collapse es).filterMap Effect.site? = es.filterMap Effect.site? := by
  cases es with
  | nil => rfl
  | cons e es => simp only [collapse, List.filterMap_cons, sites_collapseAfter]

theorem isChain_collapseAfter (last : Effect) (es : List Effect) :
    (last :: collapseAfter last es).IsChain fun a b => ¬ a.SameAccess b := by
  induction es generalizing last with
  | nil => exact .singleton last
  | cons e es ih =>
    simp only [collapseAfter]
    split
    · exact ih last
    · rename_i h
      exact .cons_cons (fun hs => h (Effect.repeats_iff.mpr hs)) (ih e)

theorem isChain_collapse (es : List Effect) :
    (collapse es).IsChain fun a b => ¬ a.SameAccess b := by
  cases es with
  | nil => exact .nil
  | cons e es => exact isChain_collapseAfter e es

theorem sites_effectsOf (events : List Positioned) :
    ((effectsOf events).filterMap Effect.site?).Perm (List.range (callSitesOf events).length) := by
  have hsort := (sortByPosition_perm (numberEvents 0 events)).filterMap (·.2.site?)
  rw [sites_numberEvents, ← List.range_eq_range'] at hsort
  rw [effectsOf, sites_collapse, List.filterMap_map]
  exact hsort

/-! ## Where events come from -/

/-- An access has events on its own variable only. -/
theorem Focus.mem_stateAccess {f : Focus} {p : Positioned} (h : p ∈ f.stateAccess) :
    p.2 = .read f.token.text f.token.line ∨ p.2 = .write f.token.text f.token.line := by
  unfold stateAccess at h
  simp only at h
  split at h
  · rcases List.mem_append.mp h with h | h
    · split at h
      · cases h
      · rw [List.mem_singleton.mp h]
        exact .inl rfl
    · rw [List.mem_singleton.mp h]
      exact .inr rfl
  · split at h
    · rcases List.mem_cons.mp h with rfl | h
      · exact .inl rfl
      · rw [List.mem_singleton.mp h]
        exact .inr rfl
    · split at h
      · rw [List.mem_singleton.mp h]
        exact .inr rfl
      · split at h
        · split at h
          · split at h
            · rw [List.mem_singleton.mp h]
              exact .inr rfl
            · rw [List.mem_singleton.mp h]
              exact .inr rfl
          · rw [List.mem_singleton.mp h]
            exact .inl rfl
        · rw [List.mem_singleton.mp h]
          exact .inl rfl

/-- A call out stands at the line of its member. -/
theorem Focus.eq_externalCall_of_memberCall? {s : Scope} {f : Focus} {p : Positioned}
    (h : f.memberCall? s = some p) :
    ∃ site, p.2 = .externalCall site ∧ ∃ member ∈ f.after, site.line = member.line := by
  unfold memberCall? at h
  split at h
  · rename_i member x ts hafter
    split at h
    · cases h
    · obtain ⟨⟨options, rest⟩, -, h⟩ := Option.bind_eq_some_iff.mp h
      simp only at h
      split at h
      · cases h
      · split at h
        · cases h
        · obtain ⟨arguments, -, h⟩ := Option.bind_eq_some_iff.mp h
          obtain ⟨n, -, h⟩ := Option.bind_eq_some_iff.mp h
          obtain ⟨c, -, h⟩ := Option.bind_eq_some_iff.mp h
          cases h
          exact ⟨_, rfl, member, by simp [hafter], rfl⟩
  · cases h

/-- The events that a token can have. -/
theorem Focus.mem_events {s : Scope} {f : Focus} {p : Positioned} (h : p ∈ f.events s) :
    (∃ site, p.2 = .externalCall site ∧ ∃ member ∈ f.after, site.line = member.line) ∨
      (f.token.text ∈ s.functionNames ∧ p.2 = .internalCall f.token.text f.token.line) ∨
      (s.seesVariable f.token.text = true ∧
        (p.2 = .read f.token.text f.token.line ∨ p.2 = .write f.token.text f.token.line)) := by
  unfold events at h
  split at h
  · exact .inl (eq_externalCall_of_memberCall? (Option.mem_toList.mp h))
  · split at h
    · cases h
    · split at h
      · rename_i hcall
        split at h
        · cases h
        · rw [List.mem_singleton.mp h]
          rw [Bool.and_eq_true] at hcall
          exact .inr (.inl ⟨List.contains_iff_mem.mp hcall.2, rfl⟩)
      · split at h
        · rename_i hsees
          exact .inr (.inr ⟨hsees, mem_stateAccess h⟩)
        · cases h

/-- What an event names is visible in the scope. -/
def Event.IsVisible (s : Scope) : Event → Prop
  | .read name _ | .write name _ => s.seesVariable name = true
  | .internalCall callee _ => callee ∈ s.functionNames
  | .externalCall _ => True

theorem isVisible_of_mem_eventsOf {s : Scope} {body : List Token} {p : Positioned}
    (h : p ∈ eventsOf s body) : p.2.IsVisible s := by
  obtain ⟨f, -, hp⟩ := List.mem_flatMap.mp h
  rcases Focus.mem_events hp with ⟨site, he, -⟩ | ⟨hname, he⟩ | ⟨hsees, he | he⟩ <;> rw [he]
  · trivial
  · exact hname
  · exact hsees
  · exact hsees

/-! ## Functions of a contract -/

/-- The names of the variables that the body of a function declares. -/
def Function.bodyLocals (f : Function) : List String :=
  ((Focus.all f.bodyTokens).filterMap (·.local?)).map (·.1)

/-- The effects of a function of a contract agree with its call sites and with the declarations. -/
structure Function.RefersInto (f : Function) (c : Contract) : Prop where
  /-- Every call site is the target of exactly one effect. -/
  sites : (f.effects.filterMap Effect.site?).Perm (List.range f.callSites.length)
  line : ∀ i line, .externalCall i line ∈ f.effects →
    ∃ site, f.callSites[i]? = some site ∧ site.line = line
  declared : ∀ e ∈ f.effects, ∀ name, e.accessed? = some name →
    ∃ v ∈ c.stateVariables, v.name = name
  notParameter : ∀ e ∈ f.effects, ∀ name, e.accessed? = some name →
    ∀ p ∈ f.parameters, p.name ≠ "" → p.name ≠ name
  notLocal : ∀ e ∈ f.effects, ∀ name, e.accessed? = some name → name ∉ f.bodyLocals
  callee : ∀ callee line, .internalCall callee line ∈ f.effects → ∃ g ∈ c.functions, g.name = callee
  adjacent : f.effects.IsChain fun a b => ¬ a.SameAccess b

/-- The events that the effects of a function come from. -/
def RawFunction.events (s : Scope) (raw : RawFunction) : List Positioned :=
  match raw.body with
  | some body => eventsOf { s with locals := localsOf raw.parameters body } body
  | none => []

/-- The scope in which the body of a function is read. -/
def RawFunction.scope (s : Scope) (raw : RawFunction) : Scope :=
  { s with locals := localsOf raw.parameters (raw.body.getD []) }

theorem RawFunction.isVisible_of_mem_events {s : Scope} {raw : RawFunction} {p : Positioned}
    (h : p ∈ raw.events s) : p.2.IsVisible (raw.scope s) := by
  unfold events at h
  split at h
  · rename_i body hbody
    simpa only [scope, hbody, Option.getD_some] using isVisible_of_mem_eventsOf h
  · cases h

/-- Every effect is that of an event which is visible in the scope of the body. -/
theorem Function.exists_event_of_mem_effects {kind : ContractKind} {s : Scope} {raw : RawFunction}
    {e : Effect} (h : e ∈ (ofRaw kind s raw).effects) :
    ∃ event i, Event.IsVisible (raw.scope s) event ∧ e = event.effect i ∧
      ∀ site ∈ event.sites, (ofRaw kind s raw).callSites[i]? = some site := by
  obtain ⟨position, hp⟩ := exists_numbered_of_mem_effectsOf h
  obtain ⟨event, i, hmem, rfl, hsite⟩ := exists_event_of_mem_numberEvents hp
  exact ⟨event, i, raw.isVisible_of_mem_events hmem, by rw [Nat.zero_add], hsite⟩

theorem Function.seesVariable_of_mem_effects {kind : ContractKind} {s : Scope} {raw : RawFunction}
    {e : Effect} {name : String} (h : e ∈ (ofRaw kind s raw).effects) (hn : e.accessed? = some name) :
    (raw.scope s).seesVariable name = true := by
  obtain ⟨event, i, hvisible, rfl, -⟩ := exists_event_of_mem_effects h
  cases event with
  | read n line => cases hn; exact hvisible
  | write n line => cases hn; exact hvisible
  | internalCall callee line => cases hn
  | externalCall site => cases hn

theorem Scope.mem_of_seesVariable {s : Scope} {name : String} (h : s.seesVariable name = true) :
    ∃ v ∈ s.stateVariables, v.name = name := by
  rw [seesVariable, Bool.and_eq_true, List.any_eq_true] at h
  obtain ⟨⟨v, hv, hname⟩, -⟩ := h
  exact ⟨v, hv, eq_of_beq hname⟩

theorem Scope.not_mem_locals_of_seesVariable {s : Scope} {name : String}
    (h : s.seesVariable name = true) : name ∉ s.locals.map (·.1) := by
  intro hmem
  obtain ⟨l, hl, hname⟩ := List.mem_map.mp hmem
  have hlocal : s.isLocal name = true := List.any_eq_true.mpr ⟨l, hl, by simp [hname]⟩
  rw [seesVariable, Bool.and_eq_true, Bool.not_eq_true'] at h
  rw [h.2] at hlocal
  cases hlocal

/-- The locals of a scope are the named parameters and the variables of the body. -/
theorem mem_names_localsOf {parameters : List Parameter} {body : List Token} {name : String} :
    name ∈ (localsOf parameters body).map (·.1) ↔
      name ∈ ((Focus.all body).filterMap (·.local?)).map (·.1) ∨
        ∃ p ∈ parameters, p.name ≠ "" ∧ p.name = name := by
  simp [localsOf, and_assoc]

/-- No local of the body has the name of a variable that an effect reads or writes. -/
theorem Function.not_mem_locals_of_mem_effects {kind : ContractKind} {s : Scope} {raw : RawFunction}
    {e : Effect} {name : String} (h : e ∈ (ofRaw kind s raw).effects) (hn : e.accessed? = some name) :
    name ∉ (localsOf raw.parameters (raw.body.getD [])).map (·.1) :=
  Scope.not_mem_locals_of_seesVariable (seesVariable_of_mem_effects h hn)

theorem Contract.refersInto_ofMembers {unit : SourceUnit} {kind : ContractKind} {name : Token}
    {header : List Token} {members : List Member} {f : Function}
    (hf : f ∈ (ofMembers unit kind name header members).functions) :
    f.RefersInto (ofMembers unit kind name header members) := by
  obtain ⟨raw, -, rfl⟩ := List.mem_map.mp hf
  exact {
    sites := sites_effectsOf _
    line := by
      intro i line h
      obtain ⟨event, k, -, he, hsite⟩ := Function.exists_event_of_mem_effects h
      cases event with
      | externalCall site =>
        cases he
        exact ⟨site, hsite site List.mem_cons_self, rfl⟩
      | read n l => cases he
      | write n l => cases he
      | internalCall n l => cases he
    declared := fun e he x hx =>
      Scope.mem_of_seesVariable (Function.seesVariable_of_mem_effects he hx)
    notParameter := fun e he x hx p hp hne hpx =>
      Function.not_mem_locals_of_mem_effects he hx (mem_names_localsOf.mpr (.inr ⟨p, hp, hne, hpx⟩))
    notLocal := fun e he x hx hmem =>
      Function.not_mem_locals_of_mem_effects he hx (mem_names_localsOf.mpr (.inl hmem))
    callee := by
      intro callee line h
      obtain ⟨event, k, hvisible, he, -⟩ := Function.exists_event_of_mem_effects h
      cases event with
      | internalCall n l =>
        cases he
        obtain ⟨g, hg, rfl⟩ := List.mem_map.mp hvisible
        exact ⟨_, List.mem_map_of_mem hg, rfl⟩
      | read n l => cases he
      | write n l => cases he
      | externalCall site => cases he
    adjacent := isChain_collapse _ }

/-- In every source that has a model the effects of a function agree with its call sites and with what
its contract declares. -/
theorem SourceUnit.effects_refer {unit : SourceUnit} {cs : List Contract} {c : Contract} {f : Function}
    (h : unit.contracts = .ok cs) (hc : c ∈ cs) (hf : f ∈ c.functions) : f.RefersInto c := by
  obtain ⟨kind, name, header, members, rfl⟩ := exists_ofMembers h hc
  exact Contract.refersInto_ofMembers hf

/-- A vault whose parameter hides one of its state variables. -/
def shadowingVault : SourceUnit where
  name := "Vault.sol"
  path := ""
  text := "contract Vault \x7b Token token; uint shares; uint fee; " ++
    "function exit(uint fee) public \x7b uint paid = shares + shares; book(); " ++
    "token.send(paid, oracle.rate()); shares = fee; \x7d function book() internal \x7b \x7d \x7d"

set_option maxRecDepth 4000 in
theorem SourceUnit.effects_refer_shadowingVault :
    ∃ cs c f, shadowingVault.contracts = .ok cs ∧ c ∈ cs ∧ f ∈ c.functions ∧
      f.effects = [.read "shares" 1, .internalCall "book" 1, .read "token" 1, .externalCall 1 1,
        .externalCall 0 1, .write "shares" 1] ∧ f.RefersInto c := by
  have h : (shadowingVault.declared.flatMap (·.functions)).map (·.effects) =
      [[.read "shares" 1, .internalCall "book" 1, .read "token" 1, .externalCall 1 1,
        .externalCall 0 1, .write "shares" 1], []] := by
    have hs : shadowingVault.text = String.ofList ((_ ++ _) ++ _) :=
      ((String.ofList_append ..).trans (congrArg (· ++ _) (String.ofList_append ..))).symm
    rw [declared, contracts, tokenize, hs, String.toList_ofList]
    decide +kernel
  have hmem := List.mem_of_getElem? (congrArg (·[0]?) h)
  obtain ⟨f, hf, he⟩ := List.mem_map.mp hmem
  obtain ⟨c, hc, hf⟩ := List.mem_flatMap.mp hf
  cases hu : shadowingVault.contracts with
  | error e => rw [declared_of_error hu] at hc; cases hc
  | ok cs =>
    rw [declared_of_ok hu] at hc
    exact ⟨cs, c, f, rfl, hc, hf, he, effects_refer hu hc hf⟩

end ContractAudit
