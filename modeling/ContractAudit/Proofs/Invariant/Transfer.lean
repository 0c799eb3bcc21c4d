import ContractAudit.Invariant
import ContractAudit.Proofs.Contract.EvaluationOrder
import ContractAudit.Proofs.Flow.Inlining

/-!
# Transfers between accounts

A function that writes a map of accounts twice is taken for a transfer. What is counted are writes among the effects of
the function and of its helpers, and there a write that follows another one to the same map is dropped. So two
assignments count as two exactly if something else takes place between two writes to the map, or a helper writes it.
-/

namespace ContractAudit

open scoped List

/-! ## Effects of a function and of its helpers -/

namespace Inlining

variable {enter : Function → List String → Inlining} {c : Contract} {f : Function}

/-- The effects of helpers belong to functions that were not entered before. -/
theorem owner_of_mem_follow (hsubset : ∀ h u, u ⊆ (enter h u).visited)
    (howner : ∀ h u, h.name ∉ u → ∀ p ∈ (enter h u).effects, p.1.name ∉ u) {es : List Effect} {u : List String}
    {p : Function × Effect} (hp : p ∈ (follow enter c f es u).effects) : p.1 = f ∨ p.1.name ∉ u := by
  induction es generalizing u with
  | nil => cases hp
  | cons e es ih =>
    by_cases hk : e.kind = .internalCall
    · obtain ⟨callee, line, rfl⟩ := Effect.eq_internalCall hk
      obtain hm | ⟨h, hh, hu⟩ := c.helper?_mem_or callee u
      · rw [follow_call_of_mem hm] at hp
        exact ih hp
      · rw [follow_call_of_not_mem hh hu] at hp
        rcases List.mem_append.mp hp with hp | hp
        · exact .inr (howner h u hu p hp)
        · exact (ih hp).imp_right fun hn hmem => hn (hsubset h u hmem)
    · rw [follow_cons hk] at hp
      rcases List.mem_cons.mp hp with rfl | hp
      · exact .inl rfl
      · exact ih hp

theorem owner_of_mem_enter (c : Contract) (depth : Nat) (h : Function) (u : List String) (hu : h.name ∉ u)
    (p : Function × Effect) (hp : p ∈ (Inlining.enter c depth h u).effects) : p.1.name ∉ u := by
  induction depth generalizing h u p with
  | zero => cases hp
  | succ depth ih =>
    rcases owner_of_mem_follow (subset_visited_enter c depth) ih hp with he | hn
    · rw [he]
      exact hu
    · exact fun hmem => hn (List.mem_cons_of_mem _ hmem)

/-- The effects of the function itself are passed on, and those of helpers belong to others. -/
theorem countP_follow (hsubset : ∀ h u, u ⊆ (enter h u).visited)
    (howner : ∀ h u, h.name ∉ u → ∀ p ∈ (enter h u).effects, p.1.name ∉ u) {q : Effect → Bool}
    (hq : ∀ e, e.kind = .internalCall → q e = false) {es : List Effect} {u : List String} (hf : f.name ∈ u) :
    (follow enter c f es u).effects.countP (fun p => decide (p.1 = f) && q p.2) = es.countP q := by
  induction es generalizing u with
  | nil => rfl
  | cons e es ih =>
    by_cases hk : e.kind = .internalCall
    · rw [List.countP_cons_of_neg (by simp [hq e hk])]
      obtain ⟨callee, line, rfl⟩ := Effect.eq_internalCall hk
      obtain hm | ⟨h, hh, hu⟩ := c.helper?_mem_or callee u
      · rw [follow_call_of_mem hm]
        exact ih hf
      · have hnone : (enter h u).effects.countP (fun p => decide (p.1 = f) && q p.2) = 0 := by
          rw [List.countP_eq_zero]
          intro p hp hpf
          rw [Bool.and_eq_true, decide_eq_true_iff] at hpf
          exact howner h u hu p hp (hpf.1 ▸ hf)
        rw [follow_call_of_not_mem hh hu, List.countP_append, hnone, Nat.zero_add]
        exact ih (hsubset h u hf)
    · rw [follow_cons hk, List.countP_cons, List.countP_cons, ih hf]
      simp

end Inlining

namespace Contract

/-- A helper of the function writes the variable. -/
def HelperWrites (c : Contract) (f : Function) (name : String) : Prop :=
  ∃ p ∈ c.inlined f, p.1 ≠ f ∧ p.2.writes name = true

theorem countP_inlined (c : Contract) (f : Function) (name : String) :
    (c.inlined f).countP (fun p => p.2.writes name) =
      f.effects.countP (·.writes name) +
        (c.inlined f).countP fun p => decide (p.1 ≠ f) && p.2.writes name := by
  have hown : (c.inlined f).countP (fun p => decide (p.1 = f) && p.2.writes name) =
      f.effects.countP (·.writes name) :=
    Inlining.countP_follow (Inlining.subset_visited_enter c _) (Inlining.owner_of_mem_enter c _)
      (fun e he => by obtain ⟨callee, line, rfl⟩ := Effect.eq_internalCall he; rfl) List.mem_cons_self
  rw [← hown]
  induction c.inlined f with
  | nil => rfl
  | cons p ps ih =>
    simp only [List.countP_cons, ih]
    by_cases hp : p.1 = f <;> simp [hp] <;> omega

end Contract

namespace Invariant

variable {c : Contract} {f : Function} {name : String}

theorem count_writes (c : Contract) (f : Function) (name : String) :
    (writes c f).count name = (c.inlined f).countP fun p => p.2.writes name := by
  rw [writes, List.count_filterMap]
  rfl

theorem mem_writes_iff : name ∈ writes c f ↔ 0 < (c.inlined f).countP fun p => p.2.writes name := by
  rw [← count_writes, List.count_pos_iff]

/-- A variable that the function itself writes counts once exactly if nothing else takes place between two of these
writes and no helper writes it. -/
theorem count_writes_le_one_iff (h : f.ReadIn c) (hown : 0 < f.effects.countP (·.writes name)) :
    (writes c f).count name ≤ 1 ↔ ¬ c.WritesApart f name ∧ ¬ c.HelperWrites f name := by
  have hhelper : c.HelperWrites f name ↔ 0 < (c.inlined f).countP fun p => decide (p.1 ≠ f) && p.2.writes name := by
    simp [Contract.HelperWrites, List.countP_pos_iff]
  rw [← Contract.two_le_countP_effects_iff h, hhelper, count_writes, Contract.countP_inlined]
  omega

/-! ## Functions at fault -/

/-- The functions that do not keep the accounts and the total together. -/
def offenders (c : Contract) : List Function :=
  c.functions.filter fun f => f.isEntryPoint && f.isMutating && ! isReconciled c f

theorem functions_evaluate_accounting (c : Contract) :
    (accounting.evaluate c).map (·.functions) = some ((offenders c).map (·.name)) := by
  simp [accounting, Verdict.ofOffenders, offenders]

/-- A condition of the function, or of a helper that it calls itself, names a map of accounts and a total. -/
def Relates (c : Contract) (f : Function) : Prop :=
  ∃ check ∈ localChecks c f, (∃ a ∈ perAccount c, Text.contains check a = true) ∧
    ∃ t ∈ totals c, Text.contains check t = true

/-- A function that writes a map of accounts is excused by a write to a total, by a map that it writes twice, or by a
condition. -/
theorem isReconciled_iff (hname : name ∈ perAccount c) (hwritten : name ∈ writes c f) :
    isReconciled c f = true ↔
      (∃ t ∈ totals c, t ∈ writes c f) ∨ (∃ a ∈ perAccount c, 2 ≤ (writes c f).count a) ∨ Relates c f := by
  have haccount : (perAccount c).any (writes c f).contains = true :=
    List.any_eq_true.mpr ⟨name, hname, List.contains_iff_mem.mpr hwritten⟩
  have htotal : (totals c).any (writes c f).contains = true ↔ ∃ t ∈ totals c, t ∈ writes c f := by
    simp
  have hrelates : ((localChecks c f).any fun check =>
      (perAccount c).any (Text.contains check ·) && (totals c).any (Text.contains check ·)) = true ↔ Relates c f := by
    simp [Relates]
  unfold isReconciled
  simp only [haccount, Bool.or_eq_true, Bool.true_and, hrelates, or_assoc]
  rw [← htotal]
  simp

theorem isReconciled_eq_false_iff (hname : name ∈ perAccount c) (hwritten : name ∈ writes c f) :
    isReconciled c f = false ↔
      (∀ a ∈ perAccount c, (writes c f).count a ≤ 1) ∧ (∀ t ∈ totals c, t ∉ writes c f) ∧ ¬ Relates c f := by
  rw [Bool.eq_false_iff, ne_eq, isReconciled_iff hname hwritten, not_or, not_or, and_left_comm]
  simp [Nat.lt_succ_iff]

theorem mem_offenders_iff (hf : f ∈ c.functions) (hentry : f.isEntryPoint = true) (hmutating : f.isMutating = true) :
    f ∈ offenders c ↔ isReconciled c f = false := by
  simp [offenders, hf, hentry, hmutating]

end Invariant

/-! ## Two assignments -/

/-- Two separate assignments to the variable `name` in the body of a function, neither as a member of something else. -/
structure AssignedTwice (f : Function) (name : String) where
  front : List Token
  first : Assignment
  mid : List Token
  second : Assignment
  rest : List Token
  body : f.body = some (front ++ (first.tokens ++ (mid ++ (second.tokens ++ rest))))
  text_first : first.root.text = name
  text_second : second.root.text = name
  not_member_first : ∀ t ∈ front.getLast?, t.isPunct "." = false
  not_member_second : ∀ t ∈ mid.getLast?, t.isPunct "." = false

namespace AssignedTwice

variable {c : Contract} {f : Function} {name : String} (t : AssignedTwice f name)

/-- The place of the second variable in the body. -/
def secondStart : Nat := t.front.length + t.first.tokens.length + t.mid.length

/-- Where the first write takes place. -/
def firstEnd : Nat := t.front.length + t.first.statement.length

/-- Where the second write takes place. -/
def secondEnd : Nat := t.secondStart + t.second.statement.length

theorem firstEnd_lt_secondStart : t.firstEnd < t.secondStart := by
  simp only [firstEnd, secondStart, Assignment.tokens, List.length_append, List.length_singleton]
  omega

theorem secondStart_lt_secondEnd : t.secondStart < t.secondEnd := by
  simp only [secondEnd, Assignment.statement, List.length_cons]
  omega

theorem eventsAt_first (hs : (c.scope f).seesVariable name = true) :
    c.eventsAt f t.front.length = t.first.events t.front.length := by
  rw [← t.text_first] at hs
  exact t.first.eventsAt_root t.body t.not_member_first hs

theorem eventsAt_second (hs : (c.scope f).seesVariable name = true) :
    c.eventsAt f t.secondStart = t.second.events t.secondStart := by
  have hbody : f.body = some ((t.front ++ (t.first.tokens ++ t.mid)) ++ (t.second.tokens ++ t.rest)) := by
    simpa using t.body
  have hprev : ∀ x ∈ (t.front ++ (t.first.tokens ++ t.mid)).getLast?, x.isPunct "." = false := by
    intro x hx
    cases hm : t.mid.getLast? with
    | some y =>
      rw [List.getLast?_append, List.getLast?_append, hm] at hx
      cases hx
      exact t.not_member_second x hm
    | none =>
      -- The first assignment ends right in front of the second variable.
      have hx : x = t.first.ending := by
        rw [List.getLast?_eq_none_iff.mp hm] at hx
        simpa [Assignment.tokens, eq_comm] using hx
      rw [hx]
      rcases t.first.isEnding with he | ⟨b, he⟩
      · exact Token.isPunct_of_isPunct he
      · rw [Token.isPunct_of_isPunct he]
        cases b <;> decide
  have hlength : (t.front ++ (t.first.tokens ++ t.mid)).length = t.secondStart := by
    simp only [secondStart, List.length_append, Nat.add_assoc]
  rw [← t.text_second] at hs
  rw [← hlength]
  exact t.second.eventsAt_root hbody hprev hs

/-- What takes place between the two writes keeps them apart. -/
theorem writesApart (hs : (c.scope f).seesVariable name = true) {x : Recorded} (hx : x ∈ c.recorded f)
    (hother : x.effect.writes name = false) (hfirst : t.firstEnd < x.position) (hsecond : x.position < t.secondEnd) :
    c.WritesApart f name := by
  have hw := Contract.mem_recorded (Assignment.written_mem_recordedAt (t.eventsAt_first hs))
  have hw' := Contract.mem_recorded (Assignment.written_mem_recordedAt (t.eventsAt_second hs))
  have hsublist : [t.first.written t.front.length, x, t.second.written t.secondStart] <+ c.sequence f := by
    apply Contract.sublist_sequence
    · simp [hw, hx, hw']
    · have hends : t.firstEnd < t.secondEnd := Nat.lt_trans hfirst hsecond
      simpa [Assignment.written] using ⟨⟨hfirst, hends⟩, hsecond⟩
  have hwrites := t.first.writes_written t.front.length
  have hwrites' := t.second.writes_written t.secondStart
  rw [t.text_first] at hwrites
  rw [t.text_second] at hwrites'
  exact ⟨_, x, _, hsublist, hwrites, hother, hwrites'⟩

/-- An operator that reads the variable before it stores keeps the two writes apart. -/
theorem writesApart_of_update (hs : (c.scope f).seesVariable name = true)
    (hoperator : t.second.operator.text ≠ "=") : c.WritesApart f name := by
  have hread : ⟨t.secondStart, t.secondStart, .read name t.second.root.line⟩ ∈ c.recordedAt f t.secondStart := by
    rw [Contract.recordedAt, t.eventsAt_second hs, Assignment.events]
    simp [hoperator, numberEvents, t.text_second]
  exact t.writesApart hs (Contract.mem_recorded hread) rfl t.firstEnd_lt_secondStart t.secondStart_lt_secondEnd

include t in
theorem countP_effects_pos (h : f.ReadIn c) (hs : (c.scope f).seesVariable name = true) :
    0 < f.effects.countP (·.writes name) := by
  have hwritten : (t.front.length + t.first.statement.length, .write name t.first.root.line) ∈
      c.eventsAt f t.front.length := by
    rw [t.eventsAt_first hs, Assignment.events, t.text_first]
    simp
  obtain ⟨line, hline⟩ := h.exists_write hwritten
  exact List.countP_pos_iff.mpr ⟨_, hline, by simp [Effect.writes, Effect.written?]⟩

end AssignedTwice

namespace Invariant

/-- How a function is judged that assigns the map of accounts `name` twice. -/
structure TransferJudged (c : Contract) (f : Function) (name : String) (t : AssignedTwice f name) : Prop where
  /-- The verdict names the functions at fault. -/
  verdict : (accounting.evaluate c).map (·.functions) = some ((offenders c).map (·.name))
  /-- With anything but a write to the map between the two writes the function is taken for a transfer. -/
  separated : ∀ x ∈ c.recorded f, x.effect.writes name = false → t.firstEnd < x.position → x.position < t.secondEnd →
    f ∉ offenders c
  /-- So it is if the second assignment adds to what an account holds, or takes from it. -/
  updated : t.second.operator.text ≠ "=" → f ∉ offenders c
  /-- It is at fault exactly if its writes to the map all follow one another, no helper writes it, no other map is
  written twice, no total is written and no condition relates the two sides. -/
  fault : f ∈ offenders c ↔ ¬ c.WritesApart f name ∧ ¬ c.HelperWrites f name ∧
    (∀ a ∈ perAccount c, a ≠ name → (writes c f).count a ≤ 1) ∧ (∀ t ∈ totals c, t ∉ writes c f) ∧ ¬ Relates c f

/-- In every source that has a model a mutating entry point that assigns a map of accounts twice is taken for a
transfer, unless the writes to the map all follow one another. -/
theorem transfer_judged {unit : SourceUnit} {cs : List Contract} {c : Contract} {f : Function} {name : String}
    (t : AssignedTwice f name) (h : unit.contracts = .ok cs) (hc : c ∈ cs) (hf : f ∈ c.functions)
    (hentry : f.isEntryPoint = true) (hmutating : f.isMutating = true) (hname : name ∈ perAccount c)
    (hparameter : ∀ p ∈ f.parameters, p.name ≠ name) (hlocal : name ∉ f.bodyLocals) : TransferJudged c f name t := by
  have hread := SourceUnit.readIn h hc hf
  have hsees : (c.scope f).seesVariable name = true := by
    obtain ⟨v, hv, rfl⟩ := List.mem_map.mp hname
    exact Scope.seesVariable_of_mem (List.mem_filter.mp hv).1 (Contract.not_mem_locals_scope hparameter hlocal)
  have hown := t.countP_effects_pos hread hsees
  have hwritten : name ∈ writes c f := by
    rw [mem_writes_iff, Contract.countP_inlined]
    omega
  have hone := count_writes_le_one_iff hread hown
  have hoffender := mem_offenders_iff hf hentry hmutating
  have hapart (hw : c.WritesApart f name) : f ∉ offenders c := by
    rw [hoffender, Bool.not_eq_false, isReconciled_iff hname hwritten]
    refine .inr (.inl ⟨name, hname, Nat.lt_of_not_le fun hle => ?_⟩)
    exact (hone.mp hle).1 hw
  exact {
    verdict := functions_evaluate_accounting c
    separated := fun x hx hother hfirst hsecond => hapart (t.writesApart hsees hx hother hfirst hsecond)
    updated := fun hoperator => hapart (t.writesApart_of_update hsees hoperator)
    fault := by
      have hsplit : (∀ a ∈ perAccount c, (writes c f).count a ≤ 1) ↔ (writes c f).count name ≤ 1 ∧
          ∀ a ∈ perAccount c, a ≠ name → (writes c f).count a ≤ 1 := by
        refine ⟨fun h => ⟨h name hname, fun a ha _ => h a ha⟩, fun h a ha => ?_⟩
        by_cases hne : a = name
        · rw [hne]
          exact h.1
        · exact h.2 a ha hne
      rw [hoffender, isReconciled_eq_false_iff hname hwritten, hsplit, hone, and_assoc, and_assoc] }

/-- A bank that moves a sum from one account to another. -/
def payingBank : SourceUnit where
  name := "Bank.sol"
  path := ""
  text := "contract Bank \x7b mapping(address => uint) balances; uint total; function pay(address from, " ++
    "address to, uint sum) external \x7b balances[from] -= sum; balances[to] += sum; \x7d \x7d"

/-- An update of the balance of `account`, with the place where each of its tokens starts. -/
def balanceUpdate (account operator : String) (root subscript key close update value ending : Nat)
    (h : (Token.mk .operator operator 1 update).isAssignment = true) : Assignment where
  root := ⟨.ident, "balances", 1, root⟩
  path := [.subscript
    { opening := ⟨.punct, "[", 1, subscript⟩
      inner := [⟨.ident, account, 1, key⟩]
      closing := ⟨.punct, "]", 1, close⟩
      opens := rfl
      closes := rfl
      balanced := Nested.balanced (.token rfl rfl (.nil fun _ => true)) _ } (.token rfl rfl (.nil _))]
  operator := ⟨.operator, operator, 1, update⟩
  value := [⟨.ident, "sum", 1, value⟩]
  ending := ⟨.punct, ";", 1, ending⟩
  isIdent_root := rfl
  isAssignment_operator := h
  nested_value := .token rfl rfl (.nil _)
  isEnding := .inl rfl

/-- The update of the account that pays. -/
def payerUpdate : Assignment := balanceUpdate "from" "-=" 123 131 132 136 138 141 144 rfl

/-- The update of the account that is paid. -/
def payeeUpdate : Assignment := balanceUpdate "to" "+=" 146 154 155 157 159 162 165 rfl

set_option maxRecDepth 4000 in
theorem transfer_judged_payingBank :
    ∃ cs c f, ∃ t : AssignedTwice f "balances", payingBank.contracts = .ok cs ∧ c ∈ cs ∧ f ∈ c.functions ∧
      f.isEntryPoint = true ∧ f.isMutating = true ∧ "balances" ∈ perAccount c ∧ t.second = payeeUpdate ∧
      TransferJudged c f "balances" t ∧ f ∉ offenders c := by
  have h : (payingBank.declared.flatMap fun c => c.functions.map fun f =>
      (f.body, f.isEntryPoint && f.isMutating, [perAccount c, f.parameters.map (·.name), f.bodyLocals])) =
      [(some (payerUpdate.tokens ++ payeeUpdate.tokens), true, [["balances"], ["from", "to", "sum"], []])] := by
    have hs : payingBank.text = String.ofList (_ ++ _) := (String.ofList_append ..).symm
    rw [SourceUnit.declared, SourceUnit.contracts, tokenize, hs, String.toList_ofList]
    decide +kernel
  have hmem := List.mem_of_getElem? (congrArg (·[0]?) h)
  obtain ⟨c, hc, hf⟩ := List.mem_flatMap.mp hmem
  obtain ⟨f, hf, he⟩ := List.mem_map.mp hf
  simp only [Prod.mk.injEq, List.cons.injEq, Bool.and_eq_true] at he
  obtain ⟨hbody, ⟨hentry, hmutating⟩, haccounts, hparameters, hlocals, -⟩ := he
  let t : AssignedTwice f "balances" :=
    { front := [], first := payerUpdate, mid := [], second := payeeUpdate, rest := [], body := by simp [hbody],
      text_first := rfl, text_second := rfl, not_member_first := by simp, not_member_second := by simp }
  have hname : "balances" ∈ perAccount c := by simp [haccounts]
  have hnames : ∀ p ∈ f.parameters, p.name ≠ "balances" := by
    intro p hp hname
    have hmem := List.mem_map_of_mem (f := (·.name)) hp
    rw [hparameters, hname] at hmem
    exact absurd hmem (by decide)
  cases hu : payingBank.contracts with
  | error e => rw [SourceUnit.declared_of_error hu] at hc; cases hc
  | ok cs =>
    rw [SourceUnit.declared_of_ok hu] at hc
    have hjudged := transfer_judged t hu hc hf hentry hmutating hname hnames (by simp [hlocals])
    exact ⟨cs, c, f, t, rfl, hc, hf, hentry, hmutating, hname, rfl, hjudged,
      hjudged.updated (show payeeUpdate.operator.text ≠ "=" by decide)⟩

/-- A bank that stores the two balances after a transfer as they are given. -/
def storingBank : SourceUnit where
  name := "Bank.sol"
  path := ""
  text := "contract Bank \x7b mapping(address => uint) balances; uint total; function move(address from, " ++
    "address to, uint rest, uint sum) external \x7b balances[from] = rest; balances[to] = sum; \x7d \x7d"

set_option maxRecDepth 4000 in
/-- The two assignments are one write, and the function is at fault. -/
theorem transfer_at_fault_storingBank :
    (storingBank.declared.flatMap fun c => c.functions.map fun f =>
      (Token.render f.bodyTokens, f.isEntryPoint && f.isMutating, [perAccount c, totals c, writes c f],
        (accounting.evaluate c).map (·.functions))) =
      [("balances[from] = rest; balances[to] = sum;", true, [["balances"], ["total"], ["balances"]],
        some ["move"])] := by
  have hs : storingBank.text = String.ofList (_ ++ _) := (String.ofList_append ..).symm
  rw [SourceUnit.declared, SourceUnit.contracts, tokenize, hs, String.toList_ofList]
  decide +kernel

end Invariant

end ContractAudit
