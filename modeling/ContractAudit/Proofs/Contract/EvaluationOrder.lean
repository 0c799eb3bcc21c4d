import ContractAudit.Proofs.Contract.Sequence
import ContractAudit.Proofs.Contract.Statement

/-!
# Effects follow the order of evaluation

In a body with properly nested brackets a call in the options or the arguments of a call out of the contract takes
place before it, and a call in an assignment takes place before a write to the variable on the left. Both follow
from where a call takes place: one that starts between two brackets, or between a variable and the end of its statement,
ends there.
-/

namespace ContractAudit

open scoped List

theorem Event.isCall_effect (event : Event) (n : Nat) : (event.effect n).isCall = event.isCall := by
  cases event <;> rfl

/-! ## One call for each token -/

theorem Focus.countP_isCall_events (s : Scope) (f : Focus) : (f.events s).countP (·.2.isCall) ≤ 1 := by
  unfold events
  split
  · cases f.memberCall? s with
    | none => exact Nat.zero_le 1
    | some p => exact List.countP_le_length
  · split
    · exact Nat.zero_le 1
    · split
      · split
        · exact Nat.zero_le 1
        · exact List.countP_le_length
      · split
        · have hnone : f.stateAccess.countP (·.2.isCall) = 0 := by
            rw [List.countP_eq_zero]
            intro p hp
            rcases mem_stateAccess hp with he | he <;> simp [he, Event.isCall]
          rw [hnone]
          exact Nat.zero_le 1
        · exact Nat.zero_le 1

theorem countP_isCall_numberEvents (first : Nat) (events : List Positioned) :
    (numberEvents first events).countP (·.2.isCall) = events.countP (·.2.isCall) := by
  induction events generalizing first with
  | nil => rfl
  | cons p events ih =>
    obtain ⟨position, event⟩ := p
    rw [numberEvents_cons, List.countP_cons, List.countP_cons, ih, Event.isCall_effect]

/-- A call of the token `i`. -/
def Recorded.isCallOf (i : Nat) (r : Recorded) : Bool := r.token == i && r.effect.isCall

namespace Contract

open Recorded

variable {c : Contract} {f : Function} {r : Recorded} {i : Nat}

theorem countP_isCall_recordedAt (c : Contract) (f : Function) (i : Nat) :
    (c.recordedAt f i).countP (·.effect.isCall) ≤ 1 := by
  have hcount : (c.recordedAt f i).countP (·.effect.isCall) = (c.eventsAt f i).countP (·.2.isCall) := by
    rw [recordedAt, List.countP_map]
    exact countP_isCall_numberEvents _ _
  rw [hcount, eventsAt]
  cases (Focus.all f.bodyTokens)[i]? with
  | none => exact Nat.zero_le 1
  | some spot => exact spot.countP_isCall_events _

theorem token_of_mem_recordedAt (h : r ∈ c.recordedAt f i) : r.token = i := by
  obtain ⟨p, -, rfl⟩ := List.mem_map.mp h
  rfl

/-- Among the effects of a function each token has at most one call. -/
theorem countP_isCallOf_performed (c : Contract) (f : Function) (i : Nat) :
    (c.performed f).countP (isCallOf i) ≤ 1 := by
  have hother {j : Nat} (hj : j ≠ i) : (c.recordedAt f j).countP (isCallOf i) = 0 := by
    rw [List.countP_eq_zero]
    intro r hr
    simp [isCallOf, token_of_mem_recordedAt hr, hj]
  have hsum (n : Nat) : ((List.range n).flatMap (c.recordedAt f)).countP (isCallOf i) ≤ if i < n then 1 else 0 := by
    induction n with
    | zero => exact Nat.le_refl 0
    | succ n ih =>
      rw [List.range_succ, List.flatMap_append, List.flatMap_singleton, List.countP_append]
      by_cases hn : n = i
      · have hle : (c.recordedAt f n).countP (isCallOf i) ≤ (c.recordedAt f n).countP (·.effect.isCall) :=
          List.countP_mono_left fun r _ hr => (Bool.and_eq_true_iff.mp hr).2
        have hone := c.countP_isCall_recordedAt f n
        rw [if_neg (by omega)] at ih
        rw [if_pos (by omega)]
        omega
      · rw [hother hn]
        split at ih
        · rw [if_pos (by omega)]
          exact ih
        · exact Nat.le_trans ih (Nat.zero_le _)
  calc (c.performed f).countP (isCallOf i)
    _ ≤ (c.sequence f).countP (isCallOf i) := (List.destutter_sublist _ _).countP_le
    _ = (c.recorded f).countP (isCallOf i) := (List.perm_insertionSort _ _).countP_eq _
    _ ≤ 1 := Nat.le_trans (hsum _) (by split <;> omega)

/-! ## Calls in nested runs -/

theorem exists_event_of_mem_recordedAt (h : r ∈ c.recordedAt f i) :
    ∃ event n, (r.position, event) ∈ c.eventsAt f i ∧ r.effect = event.effect n := by
  obtain ⟨p, hp, rfl⟩ := List.mem_map.mp h
  obtain ⟨event, n, he, heffect, -⟩ := exists_event_of_mem_numberEvents hp
  exact ⟨event, _, he, heffect⟩

/-- A call that a token of a nested run records takes place in the run. -/
theorem position_lt_of_nested {outside : Token → Bool} {before run rest : List Token} {stop : Token}
    (hbody : f.body = some (before ++ (run ++ stop :: rest))) (hn : Nested outside run) (hstop : stop.IsEnding)
    {m : Nat} (hm : m < run.length) (hr : r ∈ c.recordedAt f (before.length + m)) (hcall : r.effect.isCall = true) :
    r.position < before.length + run.length := by
  obtain ⟨event, n, he, heffect⟩ := exists_event_of_mem_recordedAt hr
  rw [heffect, Event.isCall_effect] at hcall
  -- The run is cut at the token that records the call.
  obtain ⟨head, t, tail, rfl, rfl⟩ : ∃ head t tail, run = head ++ t :: tail ∧ head.length = m :=
    ⟨run.take m, run.get ⟨m, hm⟩, run.drop (m + 1), by simp, by simp; omega⟩
  have hsplit : f.body = some ((before ++ head) ++ t :: (tail ++ stop :: rest)) := by simpa using hbody
  rw [← List.length_append, eventsAt_of_body hsplit] at he
  have hle := Focus.position_of_nested hn rfl hstop he hcall
  simp only [Focus.index, List.length_reverse, List.length_append, List.length_cons] at hle ⊢
  omega

/-- A call between matching brackets takes place between them. -/
theorem position_lt_of_bracketed {b : Bracket} {g : Bracketed b} {front after : List Token} {m : Nat}
    (hbody : f.body = some (front ++ (g.tokens ++ after))) (hn : Nested (fun _ => true) f.bodyTokens)
    (hm : m < g.inner.length) (hr : r ∈ c.recordedAt f (front.length + 1 + m)) (hcall : r.effect.isCall = true) :
    r.position < front.length + 1 + g.inner.length := by
  rw [Function.bodyTokens, hbody, Option.getD_some] at hn
  have hsplit : f.body = some ((front ++ [g.opening]) ++ (g.inner ++ g.closing :: after)) := by
    simpa [Bracketed.tokens] using hbody
  have hlength : (front ++ [g.opening]).length = front.length + 1 := List.length_append
  rw [← hlength] at hr ⊢
  exact position_lt_of_nested hsplit hn.inner_of_bracketed (.inr ⟨b, g.closes⟩) hm hr hcall

end Contract

/-! ## Calls in calls -/

namespace MemberCall

variable (k : MemberCall)

/-- The token `m` of the call stands in its options or in its arguments. -/
inductive Encloses (m : Nat) : Prop where
  | options {o : Bracketed .brace} (ho : k.options = some o) (first : 3 ≤ m) (last : m < 3 + o.inner.length)
  | arguments (first : 3 + k.optionTokens.length ≤ m)
      (last : m < 3 + k.optionTokens.length + k.arguments.inner.length)

variable {k} {c : Contract} {f : Function} {before after : List Token}

/-- What the dot of a call records is a call, at the parenthesis that closes the arguments. -/
theorem recorded_at_dot (hbody : f.body = some (before ++ (k.tokens ++ after))) {r : Recorded}
    (hr : r ∈ c.recordedAt f before.length) :
    r.position = before.length + k.tokens.length - 1 ∧ r.effect.isCall = true := by
  obtain ⟨event, n, he, heffect⟩ := Contract.exists_event_of_mem_recordedAt hr
  have hsplit : f.body = some (before ++ k.dot :: (k.tail ++ after)) := by simpa [tokens] using hbody
  rw [Contract.eventsAt_of_body hsplit, Focus.events, if_pos k.isPunct_dot, Option.mem_toList] at he
  obtain ⟨site, hp, -⟩ := k.eq_of_memberCall?_atDot he
  rw [List.length_reverse, Prod.mk.injEq] at hp
  rw [heffect, Event.isCall_effect, hp.2]
  exact ⟨hp.1, rfl⟩

/-- A call in the options or the arguments of a call takes place before the parenthesis that closes the arguments. -/
theorem position_lt_of_encloses (hbody : f.body = some (before ++ (k.tokens ++ after)))
    (hn : Nested (fun _ => true) f.bodyTokens) {m : Nat} (hm : k.Encloses m) {r : Recorded}
    (hr : r ∈ c.recordedAt f (before.length + m)) (hcall : r.effect.isCall = true) :
    r.position < before.length + k.tokens.length - 1 := by
  cases hm with
  | @options o ho first last =>
    have hoptions : k.optionTokens = o.tokens := by simp [optionTokens, ho]
    have hsplit : f.body = some ((before ++ [k.dot, k.member]) ++ (o.tokens ++ (k.arguments.tokens ++ after))) := by
      simpa [tokens, tail, hoptions] using hbody
    have hplace : before.length + m = (before ++ [k.dot, k.member]).length + 1 + (m - 3) := by
      simp only [List.length_append, List.length_cons, List.length_nil]
      omega
    rw [hplace] at hr
    have hlt := Contract.position_lt_of_bracketed hsplit hn (by omega) hr hcall
    rw [length_tokens, hoptions, Bracketed.length_tokens]
    simp only [List.length_append, List.length_cons, List.length_nil] at hlt
    omega
  | arguments first last =>
    have hsplit : f.body =
        some ((before ++ k.dot :: k.member :: k.optionTokens) ++ (k.arguments.tokens ++ after)) := by
      simpa [tokens, tail] using hbody
    have hplace : before.length + m =
        (before ++ k.dot :: k.member :: k.optionTokens).length + 1 + (m - (3 + k.optionTokens.length)) := by
      simp only [List.length_append, List.length_cons]
      omega
    rw [hplace] at hr
    have hlt := Contract.position_lt_of_bracketed hsplit hn (by omega) hr hcall
    rw [length_tokens]
    simp only [List.length_append, List.length_cons] at hlt
    omega

end MemberCall

/-! ## Calls in assignments -/

namespace Assignment

variable {a : Assignment} {c : Contract} {f : Function} {before after : List Token}

/-- What an assignment records of its write. -/
def written (a : Assignment) (k : Nat) : Recorded := ⟨k, k + a.statement.length, .write a.root.text a.root.line⟩

theorem writes_written (a : Assignment) (k : Nat) : (a.written k).effect.writes a.root.text = true := by
  simp [written, Effect.writes, Effect.written?]

theorem written_mem_recordedAt {k : Nat} (h : c.eventsAt f k = a.events k) : a.written k ∈ c.recordedAt f k := by
  rw [Contract.recordedAt, h, events]
  split <;> simp [numberEvents, written]

/-- A call in an assignment takes place before the statement ends. -/
theorem position_lt_of_statement (hbody : f.body = some (before ++ (a.tokens ++ after))) {m : Nat}
    (hm : m < a.statement.length) {r : Recorded} (hr : r ∈ c.recordedAt f (before.length + m))
    (hcall : r.effect.isCall = true) : r.position < before.length + a.statement.length := by
  have hsplit : f.body = some (before ++ (a.statement ++ a.ending :: after)) := by simpa [tokens] using hbody
  exact Contract.position_lt_of_nested hsplit a.nested_statement a.isEnding hm hr hcall

end Assignment

/-- The effects of a function follow the order of evaluation. -/
structure Function.FollowsEvaluation (f : Function) (c : Contract) : Prop where
  effects : (c.performed f).map (·.effect) = f.effects
  /-- A token has at most one call among the effects. -/
  single : ∀ i, (c.performed f).countP (Recorded.isCallOf i) ≤ 1
  /-- A call in the options or the arguments of a call out takes place before it. -/
  enclosed : ∀ (k : MemberCall) (before after : List Token) (m : Nat) (outer inner : Recorded),
    f.body = some (before ++ (k.tokens ++ after)) → k.Encloses m → outer ∈ c.recordedAt f before.length →
    inner ∈ c.recordedAt f (before.length + m) → inner.effect.isCall = true → [inner, outer] <+ c.performed f
  /-- A call in an assignment to a state variable that nothing hides takes place before a write to the variable. -/
  assigned : ∀ (a : Assignment) (before after : List Token) (m : Nat) (v : StateVariable) (call : Recorded),
    f.body = some (before ++ (a.tokens ++ after)) → (∀ t ∈ before.getLast?, t.isPunct "." = false) →
    c.findVariable? a.root.text = some v → (∀ p ∈ f.parameters, p.name ≠ a.root.text) →
    a.root.text ∉ f.bodyLocals → 0 < m → m < a.statement.length → call ∈ c.recordedAt f (before.length + m) →
    call.effect.isCall = true → ∃ w, w.effect.writes a.root.text = true ∧ [call, w] <+ c.performed f

/-- In every source that has a model the effects of a function whose body has properly nested brackets follow the
order of evaluation. -/
theorem SourceUnit.effects_follow_evaluation {unit : SourceUnit} {cs : List Contract} {c : Contract} {f : Function}
    (h : unit.contracts = .ok cs) (hc : c ∈ cs) (hf : f ∈ c.functions) (hn : Nested (fun _ => true) f.bodyTokens) :
    f.FollowsEvaluation c where
  effects := Contract.map_effect_performed (readIn h hc hf)
  single := c.countP_isCallOf_performed f
  enclosed := by
    intro k before after m outer inner hbody hm houter hinner hcall
    obtain ⟨hposition, hcall'⟩ := k.recorded_at_dot hbody houter
    have hlt := k.position_lt_of_encloses hbody hn hm hinner hcall
    rw [← hposition] at hlt
    exact Contract.pair_sublist_performed (Contract.mem_recorded hinner) (Contract.mem_recorded houter) hcall hcall' hlt
  assigned := by
    intro a before after m v call hbody hprev hv hparameter hlocal _ hm hr hcall
    have hsees := Scope.seesVariable_of_findVariable? (s := c.scope f) hv
      (Contract.not_mem_locals_scope hparameter hlocal)
    have hwritten := Assignment.written_mem_recordedAt (a.eventsAt_root hbody hprev hsees)
    obtain ⟨w, hw, rfl | hrepeats⟩ := Contract.exists_performed_behind (Contract.mem_recorded hr)
      (Contract.mem_recorded hwritten) hcall (a.position_lt_of_statement hbody hm hr hcall)
    · exact ⟨_, a.writes_written _, hw⟩
    · refine ⟨w, ?_, hw⟩
      rw [Effect.writes_of_repeats hrepeats, a.writes_written]

/-- A vault that stores what a call returns whose options and arguments call as well. -/
def nestedVault : SourceUnit where
  name := "Vault.sol"
  path := ""
  text := "contract Vault \x7b uint shares; Hook hook; function exit(Token token) public \x7b " ++
    "shares = token.pay\x7bvalue: hook.rate()\x7d(fee()); \x7d function fee() internal \x7b \x7d \x7d"

set_option maxRecDepth 4000 in
theorem SourceUnit.effects_follow_evaluation_nestedVault :
    ∃ cs c f, nestedVault.contracts = .ok cs ∧ c ∈ cs ∧ f ∈ c.functions ∧ Nested (fun _ => true) f.bodyTokens ∧
      f.effects = [.read "hook" 1, .externalCall 1 1, .internalCall "fee" 1, .externalCall 0 1,
        .write "shares" 1] ∧ f.FollowsEvaluation c := by
  have h : (nestedVault.declared.flatMap (·.functions)).map (fun f => (f.effects, Token.areNested [] f.bodyTokens)) =
      [([.read "hook" 1, .externalCall 1 1, .internalCall "fee" 1, .externalCall 0 1, .write "shares" 1], true),
        ([], true)] := by
    have hs : nestedVault.text = String.ofList (_ ++ _) := (String.ofList_append ..).symm
    rw [declared, contracts, tokenize, hs, String.toList_ofList]
    decide +kernel
  have hmem := List.mem_of_getElem? (congrArg (·[0]?) h)
  obtain ⟨f, hf, he⟩ := List.mem_map.mp hmem
  obtain ⟨c, hc, hf⟩ := List.mem_flatMap.mp hf
  rw [Prod.mk.injEq, Nested.areNested_iff] at he
  cases hu : nestedVault.contracts with
  | error e => rw [declared_of_error hu] at hc; cases hc
  | ok cs =>
    rw [declared_of_ok hu] at hc
    exact ⟨cs, c, f, rfl, hc, hf, he.2, he.1, effects_follow_evaluation hu hc hf he.2⟩

end ContractAudit
