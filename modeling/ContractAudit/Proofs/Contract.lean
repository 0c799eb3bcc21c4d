import ContractAudit.Batch

/-!
# Extracted contracts

Every contract of a batch is the model of the members of some declaration, so what is known about
the effects of all bodies holds of its functions. An effect that calls out of the contract refers to
a call site that is there.
-/

namespace ContractAudit

/-! ## Where contracts come from -/

theorem Contract.exists_ofMembers_of_ofTokens {unit : SourceUnit} {kind : ContractKind}
    {name : Token} {ts rest : List Token} {c : Contract}
    (h : ofTokens unit kind name ts = .ok (c, rest)) :
    ∃ header members, c = ofMembers unit kind name header members := by
  unfold ofTokens at h
  split at h
  · cases h
  · split at h
    · split at h
      · cases h
      · split at h
        · cases h
        · cases h
          exact ⟨_, _, rfl⟩
    · cases h

theorem Contract.exists_ofMembers_of_allFrom {unit : SourceUnit} {prev : Option Token}
    {ts : List Token} {cs : List Contract} {c : Contract} (h : allFrom unit prev ts = .ok cs)
    (hc : c ∈ cs) : ∃ kind name header members, c = ofMembers unit kind name header members := by
  fun_induction allFrom unit prev ts generalizing cs with
  | case1 => cases h; cases hc
  | case2 => cases h
  | case3 => cases h
  | case4 prev t ts kind name rest hh d rest' hd ds hds ih =>
    cases h
    rcases List.mem_cons.mp hc with rfl | hc
    · obtain ⟨header, members, rfl⟩ := exists_ofMembers_of_ofTokens hd
      exact ⟨kind, name, header, members, rfl⟩
    · exact ih hds hc
  | case5 => cases h
  | case6 _ _ _ _ _ _ _ ih => exact ih h hc
  | case7 _ _ _ _ _ ih => exact ih h hc

theorem SourceUnit.exists_ofMembers {unit : SourceUnit} {cs : List Contract} {c : Contract}
    (h : unit.contracts = .ok cs) (hc : c ∈ cs) :
    ∃ kind name header members, c = Contract.ofMembers unit kind name header members := by
  unfold contracts at h
  split at h
  · cases h
  · split at h
    · cases h
    · cases h
    · rename_i ds _ hds
      cases h
      exact Contract.exists_ofMembers_of_allFrom hds hc

namespace Extraction

theorem mem_of_mem_keepNew {unit : SourceUnit} {kept cs : List Contract} {c : Contract}
    (h : c ∈ (keepNew unit kept cs).contracts) : c ∈ cs := by
  induction cs generalizing kept with
  | nil => cases h
  | cons d cs ih =>
    simp only [keepNew] at h
    split at h
    · exact List.mem_cons_of_mem _ (ih h)
    · rcases List.mem_cons.mp h with rfl | h
      · exact List.mem_cons_self
      · exact List.mem_cons_of_mem _ (ih h)

theorem mem_of_mem_mergeFrom {results : List (SourceUnit × Except ParseError (List Contract))}
    {kept : List Contract} {c : Contract} (h : c ∈ (mergeFrom kept results).contracts) :
    ∃ unit cs, (unit, .ok cs) ∈ results ∧ c ∈ cs := by
  induction results generalizing kept with
  | nil => cases h
  | cons r rest ih =>
    obtain ⟨unit, e | cs⟩ := r
    · obtain ⟨u, ds, hr, hc⟩ := ih h
      exact ⟨u, ds, List.mem_cons_of_mem _ hr, hc⟩
    · rcases List.mem_append.mp h with h | h
      · exact ⟨unit, cs, List.mem_cons_self, mem_of_mem_keepNew h⟩
      · obtain ⟨u, ds, hr, hc⟩ := ih h
        exact ⟨u, ds, List.mem_cons_of_mem _ hr, hc⟩

theorem exists_ofMembers {units : List SourceUnit} {c : Contract}
    (h : c ∈ (ofUnits units).contracts) :
    ∃ unit ∈ units, ∃ kind name header members,
      c = Contract.ofMembers unit kind name header members := by
  obtain ⟨unit, cs, hr, hc⟩ := mem_of_mem_mergeFrom h
  obtain ⟨u, hu, he⟩ := List.mem_map.mp hr
  simp only [Prod.mk.injEq] at he
  obtain ⟨rfl, hu'⟩ := he
  exact ⟨u, hu, SourceUnit.exists_ofMembers hu' hc⟩

end Extraction

/-! ## Calls out of a body -/

theorem mem_insertByPosition {e d : Nat × Effect} {es : List (Nat × Effect)} :
    d ∈ insertByPosition e es ↔ d = e ∨ d ∈ es := by
  induction es with
  | nil => simp [insertByPosition]
  | cons c es ih =>
    simp only [insertByPosition]
    split
    · exact List.mem_cons
    · rw [List.mem_cons, ih, List.mem_cons]
      exact or_left_comm

theorem mem_sortByPosition {d : Nat × Effect} {es : List (Nat × Effect)} :
    d ∈ sortByPosition es ↔ d ∈ es := by
  induction es with
  | nil => rfl
  | cons e es ih => rw [sortByPosition, List.foldr_cons, mem_insertByPosition, ← sortByPosition, ih,
      List.mem_cons]

theorem mem_of_mem_collapseAfter {e last : Effect} {es : List Effect}
    (h : e ∈ collapseAfter last es) : e ∈ es := by
  induction es generalizing last with
  | nil => cases h
  | cons d es ih =>
    simp only [collapseAfter] at h
    split at h
    · exact List.mem_cons_of_mem _ (ih h)
    · rcases List.mem_cons.mp h with rfl | h
      · exact List.mem_cons_self
      · exact List.mem_cons_of_mem _ (ih h)

theorem mem_of_mem_collapse {e : Effect} {es : List Effect} (h : e ∈ collapse es) : e ∈ es := by
  cases es with
  | nil => cases h
  | cons d es =>
    rcases List.mem_cons.mp h with rfl | h
    · exact List.mem_cons_self
    · exact List.mem_cons_of_mem _ (mem_of_mem_collapseAfter h)

theorem exists_numbered_of_mem_effectsOf {e : Effect} {events : List Positioned}
    (h : e ∈ effectsOf events) : ∃ position, (position, e) ∈ numberEvents 0 events := by
  obtain ⟨⟨position, e⟩, hp, rfl⟩ := List.mem_map.mp (mem_of_mem_collapse h)
  exact ⟨position, mem_sortByPosition.mp hp⟩

/-- Calls out are numbered one after the other, as their call sites stand. -/
theorem lt_of_mem_numberEvents {position i line next : Nat} {events : List Positioned}
    (h : (position, .externalCall i line) ∈ numberEvents next events) :
    i < next + (callSitesOf events).length := by
  induction events generalizing next with
  | nil => cases h
  | cons p events ih =>
    obtain ⟨q, event⟩ := p
    cases event with
    | externalCall site =>
      simp only [numberEvents, List.mem_cons, Prod.mk.injEq, Effect.externalCall.injEq] at h
      simp only [callSitesOf, List.filterMap_cons, List.length_cons]
      rcases h with ⟨-, rfl, -⟩ | h
      · omega
      · have := ih h
        simp only [callSitesOf] at this
        omega
    | read name l =>
      simp only [numberEvents, List.mem_cons, Prod.mk.injEq, reduceCtorEq, and_false, false_or] at h
      exact ih h
    | write name l =>
      simp only [numberEvents, List.mem_cons, Prod.mk.injEq, reduceCtorEq, and_false, false_or] at h
      exact ih h
    | internalCall callee l =>
      simp only [numberEvents, List.mem_cons, Prod.mk.injEq, reduceCtorEq, and_false, false_or] at h
      exact ih h

/-- Every call out of the body refers to one of the call sites. -/
def Function.IsSited (f : Function) : Prop :=
  ∀ i line, .externalCall i line ∈ f.effects → i < f.callSites.length

theorem Function.isSited_ofRaw (kind : ContractKind) (s : Scope) (raw : RawFunction) :
    (ofRaw kind s raw).IsSited := by
  intro i line h
  obtain ⟨position, hp⟩ := exists_numbered_of_mem_effectsOf h
  have hi := lt_of_mem_numberEvents hp
  rw [Nat.zero_add] at hi
  exact hi

theorem Extraction.isSited {units : List SourceUnit} {c : Contract} {f : Function}
    (hc : c ∈ (ofUnits units).contracts) (hf : f ∈ c.functions) : f.IsSited := by
  obtain ⟨unit, -, kind, name, header, members, rfl⟩ := exists_ofMembers hc
  obtain ⟨raw, -, rfl⟩ := List.mem_map.mp hf
  exact Function.isSited_ofRaw kind _ raw

end ContractAudit
