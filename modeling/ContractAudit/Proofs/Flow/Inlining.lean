import ContractAudit.Flow

/-!
# Helpers and the inliner

A helper is a function of the contract with a body. The inliner takes the effects of a body one by
one: a call inside the contract leads into its helper, unless there is none or it was entered before,
and every other effect is passed on. `room` counts what is not entered yet; it bounds how deep the
inliner and the walk of a flow can go.
-/

namespace ContractAudit

/-! ## Helpers -/

namespace Contract

theorem name_of_function? {c : Contract} {name : String} {f : Function}
    (h : c.function? name = some f) : f.name = name := by
  simp only [function?, Option.or_eq_some_iff] at h
  rcases h with h | ⟨-, h⟩
  · have := List.find?_some h
    simp only [Bool.and_eq_true, beq_iff_eq] at this
    exact this.1
  · simpa using List.find?_some h

theorem mem_of_function? {c : Contract} {name : String} {f : Function}
    (h : c.function? name = some f) : f ∈ c.functions := by
  simp only [function?, Option.or_eq_some_iff] at h
  rcases h with h | ⟨-, h⟩
  · exact List.mem_of_find?_eq_some h
  · exact List.mem_of_find?_eq_some h

theorem function?_of_helper? {c : Contract} {name : String} {f : Function}
    (h : c.helper? name = some f) : c.function? name = some f := by
  simp only [helper?, Option.filter_eq_some_iff] at h
  exact h.1

theorem name_of_helper? {c : Contract} {name : String} {f : Function}
    (h : c.helper? name = some f) : f.name = name :=
  name_of_function? (function?_of_helper? h)

theorem helper?_name {c : Contract} {name : String} {f : Function}
    (h : c.helper? name = some f) : c.helper? f.name = some f := by
  rw [name_of_helper? h]
  exact h

theorem mem_of_helper? {c : Contract} {name : String} {f : Function}
    (h : c.helper? name = some f) : f ∈ c.functions :=
  mem_of_function? (function?_of_helper? h)

theorem helper?_mem_or (c : Contract) (callee : String) (u : List String) :
    (∀ h, c.helper? callee = some h → h.name ∈ u) ∨
      ∃ h, c.helper? callee = some h ∧ h.name ∉ u := by
  cases hc : c.helper? callee with
  | none => exact .inl fun h hh => by cases hh
  | some h =>
    by_cases hu : h.name ∈ u
    · exact .inl fun h' hh => by cases hh; exact hu
    · exact .inr ⟨h, rfl, hu⟩

end Contract

/-! ## Room -/

/-- How many of the keys are not entered yet. -/
def room {α : Type} [DecidableEq α] (ks v : List α) : Nat := ks.countP fun k => k ∉ v

section Room

variable {α : Type} [DecidableEq α] {ks v w : List α} {k : α}

theorem room_nil (ks : List α) : room ks [] = ks.length := by
  simp [room]

theorem room_mono (ks : List α) (h : v ⊆ w) : room ks w ≤ room ks v := by
  refine List.countP_mono_left fun k _ hk => ?_
  simp only [decide_eq_true_eq] at hk ⊢
  exact fun hv => hk (h hv)

/-- Entering one of the keys leaves less room. -/
theorem room_cons_lt (hk : k ∈ ks) (hv : k ∉ v) : room ks (k :: v) < room ks v := by
  induction ks with
  | nil => cases hk
  | cons a ks ih =>
    have hle : room ks (k :: v) ≤ room ks v := room_mono ks (List.subset_cons_self k v)
    by_cases ha : a = k
    · subst ha
      have hnew : room (a :: ks) (a :: v) = room ks (a :: v) := by simp [room]
      have hold : room (a :: ks) v = room ks v + 1 := by simp [room, hv]
      omega
    · have hlt := ih ((List.mem_cons.mp hk).resolve_left (Ne.symm ha))
      simp only [room, List.countP_cons, List.mem_cons, ha, false_or] at hlt ⊢
      omega

end Room

/-! ## The inliner, effect by effect -/

/-- What is done, and to which variable. -/
inductive EffectKind where
  | read (name : String)
  | write (name : String)
  | internalCall
  | externalCall
  deriving DecidableEq, Repr

def Effect.kind : Effect → EffectKind
  | read name _ => .read name
  | write name _ => .write name
  | internalCall .. => .internalCall
  | externalCall .. => .externalCall

theorem Effect.eq_internalCall {e : Effect} (h : e.kind = .internalCall) :
    ∃ callee line, e = .internalCall callee line := by
  cases e with
  | internalCall callee line => exact ⟨callee, line, rfl⟩
  | read name line => cases h
  | write name line => cases h
  | externalCall i line => cases h

namespace Inlining

variable {enter : Function → List String → Inlining} {c : Contract} {f h : Function} {e : Effect}
  {es : List Effect} {callee : String} {line : Nat} {u : List String}

theorem follow_cons (hk : e.kind ≠ .internalCall) :
    follow enter c f (e :: es) u =
      ⟨(follow enter c f es u).visited, (f, e) :: (follow enter c f es u).effects⟩ := by
  cases e with
  | internalCall callee line => exact absurd rfl hk
  | read name line => rfl
  | write name line => rfl
  | externalCall i line => rfl

theorem follow_call_of_mem (hh : ∀ h, c.helper? callee = some h → h.name ∈ u) :
    follow enter c f (.internalCall callee line :: es) u = follow enter c f es u := by
  cases hc : c.helper? callee with
  | none => simp [follow, hc]
  | some h => simp [follow, hc, hh h hc]

theorem follow_call_of_not_mem (hh : c.helper? callee = some h) (hu : h.name ∉ u) :
    follow enter c f (.internalCall callee line :: es) u =
      ⟨(follow enter c f es (enter h u).visited).visited,
        (enter h u).effects ++ (follow enter c f es (enter h u).visited).effects⟩ := by
  simp [follow, hh, hu]

theorem subset_visited_follow (henter : ∀ h u, u ⊆ (enter h u).visited) (es : List Effect)
    (u : List String) : u ⊆ (follow enter c f es u).visited := by
  induction es generalizing u with
  | nil => exact List.Subset.refl _
  | cons e es ih =>
    by_cases hk : e.kind = .internalCall
    · obtain ⟨callee, line, rfl⟩ := Effect.eq_internalCall hk
      obtain hm | ⟨h, hh, hu⟩ := c.helper?_mem_or callee u
      · rw [follow_call_of_mem hm]
        exact ih u
      · rw [follow_call_of_not_mem hh hu]
        exact fun k hk => ih _ (henter h u hk)
    · rw [follow_cons hk]
      exact ih u

theorem subset_visited_enter (c : Contract) (depth : Nat) (f : Function) (u : List String) :
    u ⊆ (Inlining.enter c depth f u).visited := by
  induction depth generalizing f u with
  | zero => exact List.Subset.refl _
  | succ depth ih =>
    exact fun k hk => subset_visited_follow ih f.effects _ (List.mem_cons_of_mem _ hk)

theorem room_visited_enter (c : Contract) (depth : Nat) (f : Function) (ks u : List String) :
    room ks (Inlining.enter c depth f u).visited ≤ room ks u :=
  room_mono ks (subset_visited_enter c depth f u)

end Inlining

end ContractAudit
