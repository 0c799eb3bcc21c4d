import ContractAudit.Proofs.Contract.EvaluationOrder
import ContractAudit.Proofs.Contract.Layout
import ContractAudit.Proofs.Contract.Ranges
import ContractAudit.Proofs.OutboundCall.Condition

/-!
# Calls judged at their tokens

A call site says on which line its member stands, and is judged at the first member of that name on the line that no
earlier site has taken. This is its own token exactly if every member of the name in front of it on the line belongs to
a judged call as well. Where it is so for all calls of a function, what is reported does not depend on line breaks.
-/

namespace ContractAudit

/-! ## Tokens in order -/

namespace Focus

theorem le_index_of_mem_focusesFrom {before ts : List Token} {f : Focus} (h : f ∈ focusesFrom before ts) :
    before.length ≤ f.index := by
  induction ts generalizing before with
  | nil => cases h
  | cons t ts ih =>
    rcases List.mem_cons.mp h with rfl | h
    · exact Nat.le_refl _
    · exact Nat.le_of_succ_le (ih h)

theorem pairwise_focusesFrom (before ts : List Token) : (focusesFrom before ts).Pairwise (·.index < ·.index) := by
  induction ts generalizing before with
  | nil => exact .nil
  | cons t ts ih => exact .cons (fun f hf => le_index_of_mem_focusesFrom hf) (ih (t :: before))

theorem pairwise_all (ts : List Token) : (all ts).Pairwise (·.index < ·.index) := pairwise_focusesFrom [] ts

theorem mem_all (front : List Token) (t : Token) (after : List Token) :
    ⟨front.reverse, t, after⟩ ∈ all (front ++ t :: after) := List.mem_of_getElem? (getElem?_all front t after)

/-- The next token, if there is one. -/
def step (f : Focus) : Focus :=
  match f.after with
  | [] => f
  | t :: after => ⟨f.token :: f.before, t, after⟩

theorem step_unplaced (f : Focus) : f.unplaced.step = f.step.unplaced := by
  obtain ⟨before, t, after⟩ := f
  cases after <;> rfl

theorem step_mem_all {ts : List Token} {f : Focus} (h : f ∈ all ts) : f.step ∈ all ts := by
  have hrun := run_of_mem_all h
  obtain ⟨before, t, after⟩ := f
  cases after with
  | nil => exact h
  | cons u after =>
    have hmem := mem_all (before.reverse ++ [t]) u after
    rw [List.append_assoc, List.singleton_append, hrun, List.reverse_append, List.reverse_reverse] at hmem
    exact hmem

end Focus

/-- In a list sorted by a key the first element of a kind is the one with the least key. -/
theorem find?_eq_some_iff_of_pairwise {α : Type} {key : α → Nat} {p : α → Bool} {l : List α} {x : α}
    (hl : l.Pairwise (key · < key ·)) (hx : x ∈ l) (hp : p x = true) :
    l.find? p = some x ↔ ∀ y ∈ l, key y < key x → p y = false := by
  induction l with
  | nil => cases hx
  | cons a l ih =>
    obtain ⟨ha, hl⟩ := List.pairwise_cons.mp hl
    rcases List.mem_cons.mp hx with rfl | hx
    · rw [List.find?_cons_of_pos hp]
      refine iff_of_true rfl fun y hy hlt => ?_
      rcases List.mem_cons.mp hy with rfl | hy
      · exact absurd hlt (Nat.lt_irrefl _)
      · exact absurd hlt (Nat.lt_asymm (ha y hy))
    · have hax := ha x hx
      rw [List.forall_mem_cons]
      cases hpa : p a with
      | true =>
        rw [List.find?_cons_of_pos hpa]
        refine iff_of_false ?_ fun h => by simp [hax] at h
        rintro ⟨rfl⟩
        exact Nat.lt_irrefl _ hax
      | false =>
        rw [List.find?_cons_of_neg (by simp [hpa]), ih hl hx]
        simp

namespace OutboundCall

/-! ## Where calls are judged -/

/-- A call whose success must be asked for. -/
def isJudged (s : CallSite) : Bool := isRaw s && flagMembers.contains s.member

/-- Each call site with the token at which it is judged. -/
def judgedAt (body : List Focus) (taken : List Nat) : List CallSite → List (CallSite × Focus)
  | [] => []
  | s :: sites =>
    match siteToken? body s taken with
    | none => judgedAt body taken sites
    | some spot => (s, spot) :: judgedAt body (spot.index :: taken) sites

/-- The first call is reported that is not checked at its token. -/
theorem firstUnchecked?_eq (body : List Focus) (taken : List Nat) (sites : List CallSite) :
    firstUnchecked? body taken sites =
      ((judgedAt body taken (sites.filter isJudged)).find? (! isChecked ·.2)).map (·.1) := by
  induction sites generalizing taken with
  | nil => rfl
  | cons s sites ih =>
    rw [firstUnchecked?, ← isJudged]
    by_cases hs : isJudged s = true
    · rw [if_pos hs, List.filter_cons_of_pos hs, judgedAt]
      cases siteToken? body s taken with
      | none => exact ih taken
      | some spot =>
        simp only [ih]
        cases hc : isChecked spot <;> simp [hc]
    · rw [if_neg hs, List.filter_cons_of_neg hs, ih]

/-- A member that a call site can be taken to stand at. -/
def isCandidate (s : CallSite) (spot : Focus) : Bool :=
  spot.token.isName s.member && spot.token.line == s.line && spot.prev?.any (·.isPunct ".")

section Pairing

variable {body : List Focus} {taken : List Nat} {s : CallSite} {own : Focus} {rest : List (CallSite × Focus)}

theorem siteToken?_eq (body : List Focus) (s : CallSite) (taken : List Nat) :
    siteToken? body s taken = body.find? fun spot => ! taken.contains spot.index && isCandidate s spot := by
  simp only [siteToken?, isCandidate, Bool.and_assoc]

theorem isFree_of_forall_lt (hcandidate : isCandidate s own = true) (htaken : ∀ i ∈ taken, i < own.index) :
    (! taken.contains own.index && isCandidate s own) = true := by
  have hnot : own.index ∉ taken := fun h => Nat.lt_irrefl _ (htaken _ h)
  simp [hnot, hcandidate]

/-- A call is judged at its own token exactly if every candidate in front of it is taken. -/
theorem siteToken?_eq_some_iff (hbody : body.Pairwise (·.index < ·.index)) (hown : own ∈ body)
    (hcandidate : isCandidate s own = true) (htaken : ∀ i ∈ taken, i < own.index) :
    siteToken? body s taken = some own ↔
      ∀ spot ∈ body, isCandidate s spot = true → spot.index < own.index → spot.index ∈ taken := by
  rw [siteToken?_eq, find?_eq_some_iff_of_pairwise hbody hown (isFree_of_forall_lt hcandidate htaken)]
  constructor
  · intro h spot hspot hc hlt
    simpa [hc] using h spot hspot hlt
  · intro h spot hspot hlt
    cases hc : isCandidate s spot with
    | false => simp
    | true => simp [h spot hspot hc hlt]

theorem judgedAt_cons_eq_iff (hown : own ∈ body) (hcandidate : isCandidate s own = true)
    (htaken : ∀ i ∈ taken, i < own.index) (sites : List CallSite) :
    judgedAt body taken (s :: sites) = (s, own) :: rest ↔
      siteToken? body s taken = some own ∧ judgedAt body (own.index :: taken) sites = rest := by
  rw [judgedAt]
  cases hs : siteToken? body s taken with
  | none =>
    -- Its own token is free, so one is found.
    rw [siteToken?_eq, List.find?_eq_none] at hs
    exact absurd (isFree_of_forall_lt hcandidate htaken) (hs own hown)
  | some spot =>
    simp only [List.cons.injEq, Prod.mk.injEq, true_and, Option.some.injEq]
    refine and_congr_right fun he => ?_
    rw [he]

/-- Calls at increasing tokens are judged there exactly if every candidate in front of one of them is taken already or
belongs to another one. -/
theorem judgedAt_eq_iff (hbody : body.Pairwise (·.index < ·.index))
    (hrest : ∀ p ∈ rest, p.2 ∈ body ∧ isCandidate p.1 p.2 = true) (hsorted : rest.Pairwise (·.2.index < ·.2.index))
    (htaken : ∀ p ∈ rest, ∀ i ∈ taken, i < p.2.index) :
    judgedAt body taken (rest.map (·.1)) = rest ↔
      ∀ p ∈ rest, ∀ spot ∈ body, isCandidate p.1 spot = true → spot.index < p.2.index →
        spot.index ∈ taken ∨ ∃ q ∈ rest, q.2.index = spot.index := by
  induction rest generalizing taken with
  | nil => simp [judgedAt]
  | cons p rest ih =>
    obtain ⟨s, own⟩ := p
    obtain ⟨⟨hown, hcandidate⟩, hrest⟩ := List.forall_mem_cons.mp hrest
    obtain ⟨hfirst, hsorted⟩ := List.pairwise_cons.mp hsorted
    obtain ⟨hbehind, htaken⟩ := List.forall_mem_cons.mp htaken
    have htaken' : ∀ q ∈ rest, ∀ i ∈ own.index :: taken, i < q.2.index := fun q hq =>
      List.forall_mem_cons.mpr ⟨hfirst q hq, htaken q hq⟩
    rw [List.map_cons, judgedAt_cons_eq_iff hown hcandidate hbehind,
      siteToken?_eq_some_iff hbody hown hcandidate hbehind, ih hrest hsorted htaken', List.forall_mem_cons]
    refine and_congr ⟨fun h spot hspot hc hlt => .inl (h spot hspot hc hlt), fun h spot hspot hc hlt => ?_⟩ ?_
    · rcases h spot hspot hc hlt with hmem | ⟨q, hq, hindex⟩
      · exact hmem
      · -- The calls that are left stand at this token or behind it.
        rcases List.mem_cons.mp hq with rfl | hq
        · exact absurd hindex (Nat.ne_of_gt hlt)
        · exact absurd hindex (Nat.ne_of_gt (Nat.lt_trans hlt (hfirst q hq)))
    · have hmem (i : Nat) : (i ∈ own.index :: taken ∨ ∃ q ∈ rest, q.2.index = i) ↔
          i ∈ taken ∨ ∃ q ∈ (s, own) :: rest, q.2.index = i := by
        rw [List.mem_cons, List.exists_mem_cons_iff, or_assoc, or_left_comm, eq_comm]
      simp only [hmem]

end Pairing

/-! ## Own tokens -/

/-- The call sites of a token, each with the member behind the token. -/
def ownAt (s : Scope) (dot : Focus) : List (CallSite × Focus) :=
  (callSitesOf (dot.events s)).map fun site => (site, dot.step)

/-- The judged calls of a function, each with its own token. -/
def owned (c : Contract) (f : Function) : List (CallSite × Focus) :=
  ((Focus.all f.bodyTokens).flatMap (ownAt (c.scope f))).filter (isJudged ·.1)

section Own

variable {s : Scope} {dot : Focus} {c : Contract} {f : Function} {p : CallSite × Focus}

theorem length_callSitesOf_events (s : Scope) (dot : Focus) : (callSitesOf (dot.events s)).length ≤ 1 := by
  rw [callSitesOf, List.length_filterMap_eq_countP]
  refine Nat.le_trans (List.countP_mono_left fun p _ hp => ?_) (dot.countP_isCall_events s)
  obtain ⟨position, event⟩ := p
  cases event with
  | externalCall site => rfl
  | internalCall callee line => rfl
  | read name line => cases hp
  | write name line => cases hp

/-- A call site stands at the member behind a dot. -/
theorem candidate_of_mem_ownAt (h : p ∈ ownAt s dot) : isCandidate p.1 p.2 = true ∧ p.2.index = dot.index + 1 := by
  obtain ⟨site, hsite, rfl⟩ := List.mem_map.mp h
  obtain ⟨e, he, hevent⟩ := exists_mem_of_mem_callSitesOf hsite
  rcases Focus.call_cases he (by rw [hevent]; rfl) with ⟨hdot, hcall⟩ | ⟨-, hinternal⟩
  · obtain ⟨k, after, hk⟩ := MemberCall.exists_of_memberCall? hdot hcall
    rw [hk] at hcall
    obtain ⟨site', rfl, hmember, hline⟩ := k.eq_of_memberCall?_atDot hcall
    cases hevent
    have hident := k.isIdent_member
    rw [Token.isIdent] at hident
    rw [hk]
    simp [isCandidate, Focus.step, MemberCall.atDot, MemberCall.tail, Token.isName, hident, hmember, hline, Focus.prev?,
      k.isPunct_dot, Focus.index]
  · rw [hinternal] at hevent
    cases hevent

theorem map_fst_owned (h : f.ReadIn c) : (owned c f).map (·.1) = f.callSites.filter isJudged := by
  have hsites : ((Focus.all f.bodyTokens).flatMap (ownAt (c.scope f))).map (·.1) = f.callSites := by
    have hown (dot : Focus) : (ownAt (c.scope f) dot).map (·.1) = callSitesOf (dot.events (c.scope f)) := by
      rw [ownAt, List.map_map]
      exact List.map_id _
    rw [List.map_flatMap]
    simp only [hown]
    rw [← callSitesOf_flatMap, ← eventsOf, Contract.eventsOf_eq, callSitesOf_flatMap, h.callSites]
    rfl
  rw [← hsites, List.filter_map]
  rfl

theorem mem_of_mem_owned (h : p ∈ owned c f) : p.2 ∈ Focus.all f.bodyTokens ∧ isCandidate p.1 p.2 = true := by
  obtain ⟨dot, hdot, hp⟩ := List.mem_flatMap.mp (List.mem_filter.mp h).1
  refine ⟨?_, (candidate_of_mem_ownAt hp).1⟩
  obtain ⟨site, -, rfl⟩ := List.mem_map.mp hp
  exact Focus.step_mem_all hdot

theorem pairwise_owned (c : Contract) (f : Function) : (owned c f).Pairwise (·.2.index < ·.2.index) := by
  refine List.Pairwise.filter _ (List.pairwise_flatMap.mpr ⟨fun dot _ => ?_, ?_⟩)
  · have hone := length_callSitesOf_events (c.scope f) dot
    unfold ownAt
    generalize callSitesOf (dot.events (c.scope f)) = sites at hone ⊢
    rcases sites with _ | ⟨a, _ | ⟨b, sites⟩⟩
    · exact .nil
    · exact List.pairwise_singleton ..
    · simp at hone
  · refine (Focus.pairwise_all f.bodyTokens).imp fun hlt p hp q hq => ?_
    rw [(candidate_of_mem_ownAt hp).2, (candidate_of_mem_ownAt hq).2]
    exact Nat.succ_lt_succ hlt

/-- Every member in front of a judged call that has its name and stands on its line belongs to a judged call. -/
def Faithful (c : Contract) (f : Function) : Prop :=
  ∀ p ∈ owned c f, ∀ spot ∈ Focus.all f.bodyTokens, isCandidate p.1 spot = true → spot.index < p.2.index →
    ∃ q ∈ owned c f, q.2.index = spot.index

instance (c : Contract) (f : Function) : Decidable (Faithful c f) :=
  inferInstanceAs (Decidable (∀ p ∈ owned c f, ∀ spot ∈ Focus.all f.bodyTokens, isCandidate p.1 spot = true →
    spot.index < p.2.index → ∃ q ∈ owned c f, q.2.index = spot.index))

/-- All calls are judged at their own tokens exactly if no other member stands in front of one of them. -/
theorem judgedAt_eq_owned_iff (h : f.ReadIn c) :
    judgedAt (Focus.all f.bodyTokens) [] (f.callSites.filter isJudged) = owned c f ↔ Faithful c f := by
  rw [← map_fst_owned h, judgedAt_eq_iff (Focus.pairwise_all _) (fun p hp => mem_of_mem_owned hp) (pairwise_owned c f)
    (by simp)]
  simp [Faithful]

end Own

/-! ## Other layouts -/

section Layout

theorem statementStart_unplaced (before : List Token) :
    statementStart (before.map Token.unplaced) =
      ⟨(statementStart before).length, (statementStart before).callers.map Token.unplaced⟩ := by
  have hclosed (t : Token) (before : List Token) :
      t.unplaced.closer?.bind (·.enclosedBack? (before.map Token.unplaced)) =
        (t.closer?.bind (·.enclosedBack? before)).map Enclosed.unplaced := by
    rw [Token.closer?_unplaced, Option.map_bind]
    simp only [Bracket.enclosedBack?_unplaced]
    rfl
  fun_induction statementStart before with
  | case1 => simp [statementStart]
  | case2 t before ht hnone =>
    rw [List.map_cons, statementStart_cons, Token.isPunctIn_unplaced, if_pos ht, hclosed, hnone]
    rfl
  | case3 t before ht e he _ s ih =>
    rw [List.map_cons, statementStart_cons, Token.isPunctIn_unplaced, if_pos ht, hclosed, he]
    simp [Enclosed.unplaced, ih, s]
  | case4 t before ht ht' s ih =>
    rw [List.map_cons, statementStart_cons]
    simp only [Token.isPunctIn_unplaced, if_neg ht, if_pos ht', ih, s]
    cases before <;> simp
  | case5 t before ht ht' hstop =>
    rw [List.map_cons, statementStart_cons]
    simp only [Token.isPunctIn_unplaced, if_neg ht, if_neg ht', if_pos hstop]
    rfl
  | case6 t before ht ht' hstop s ih =>
    rw [List.map_cons, statementStart_cons]
    simp only [Token.isPunctIn_unplaced, if_neg ht, if_neg ht', if_neg hstop, ih, s]

theorem assigned?_unplaced (depth : Int) (ts : List Token) :
    assigned? depth (ts.map Token.unplaced) = (assigned? depth ts).map (List.map Token.unplaced) := by
  induction ts generalizing depth with
  | nil => rfl
  | cons t ts ih =>
    simp only [List.map_cons, assigned?, Token.text_unplaced, Token.nesting_unplaced, ih]
    split
    · rfl
    · rw [Option.map_map, Option.map_map]
      rfl

theorem lastName?_unplaced (ts : List Token) : lastName? (ts.map Token.unplaced) = lastName? ts := by
  have hident : Token.isIdent ∘ Token.unplaced = Token.isIdent := rfl
  have htext : Token.text ∘ Token.unplaced = Token.text := rfl
  rw [lastName?, Token.identifiers, List.filter_map, List.map_map, hident, htext]
  rfl

theorem flagName?_unplaced (ts : List Token) : flagName? (ts.map Token.unplaced) = flagName? ts := by
  cases ts with
  | nil => rfl
  | cons t ts =>
    simp only [List.map_cons, flagName?, Token.isPunct_unplaced, ← List.map_dropLast]
    split
    · cases ts.dropLast with
      | nil => rfl
      | cons u inner =>
        simp only [List.map_cons, Token.isPunct_unplaced]
        rw [← List.map_cons, Token.splitCommas_unplaced]
        cases Token.splitCommas (u :: inner) with
        | nil => rfl
        | cons part parts => simp only [List.map_cons, List.headD_cons, lastName?_unplaced]
    · rw [← List.map_cons, lastName?_unplaced]

/-- Whether a call is checked at a token does not depend on lines. -/
theorem isChecked_unplaced (call : Focus) : isChecked call.unplaced = isChecked call := by
  have hstatement (n : Nat) : ((call.before.map Token.unplaced).take n).reverse =
      (call.before.take n).reverse.map Token.unplaced := by
    rw [← List.map_take, List.map_reverse]
  have hname : (assigned? 0 ((call.before.take (statementStart call.before).length).reverse.map Token.unplaced)).bind
      flagName? = (assigned? 0 (call.before.take (statementStart call.before).length).reverse).bind flagName? := by
    rw [assigned?_unplaced, Option.bind_map]
    congr 1
    funext ts
    exact flagName?_unplaced ts
  simp only [isChecked, Focus.before_unplaced, Focus.after_unplaced, statementStart_unplaced, hstatement, hname,
    List.head?_map, Option.any_map, List.any_map, Function.comp_def, Token.isOneOf_unplaced, Token.isName_unplaced]

/-- A call and its token without their places. -/
def unplacedOwn (p : CallSite × Focus) : CallSite × Focus := (p.1.unplaced, p.2.unplaced)

theorem ownAt_unplaced (s : Scope) (dot : Focus) : ownAt s.unplaced dot.unplaced = (ownAt s dot).map unplacedOwn := by
  rw [ownAt, Focus.events_unplaced, callSitesOf_unplaced, Focus.step_unplaced, ownAt, List.map_map, List.map_map]
  rfl

theorem bodyTokens_unplaced (f : Function) : f.unplaced.bodyTokens = f.bodyTokens.map Token.unplaced := by
  rw [Function.bodyTokens, Function.bodyTokens, Function.unplaced]
  cases f.body <;> rfl

theorem scope_unplaced (c : Contract) (f : Function) : c.unplaced.scope f.unplaced = (c.scope f).unplaced := by
  have hlocals : localsOf f.unplaced.parameters f.unplaced.bodyTokens = localsOf f.parameters f.bodyTokens := by
    rw [bodyTokens_unplaced, localsOf_unplaced]
    rfl
  have hnames : c.unplaced.functions.map (·.name) = c.functions.map (·.name) := List.map_map
  simp only [Contract.scope, Contract.memberScope, hlocals, hnames]
  rfl

theorem owned_unplaced (c : Contract) (f : Function) : owned c.unplaced f.unplaced = (owned c f).map unplacedOwn := by
  have hjudged : (fun p : CallSite × Focus => isJudged p.1) ∘ unplacedOwn = fun p => isJudged p.1 := rfl
  simp only [owned, bodyTokens_unplaced, Focus.all_unplaced, scope_unplaced, List.flatMap_map, ownAt_unplaced]
  rw [← List.map_flatMap, List.filter_map, hjudged]

end Layout

/-! ## What is reported -/

/-- The judged calls of a function, each with the token at which it is judged. -/
def judgedCalls (f : Function) : List (CallSite × Focus) :=
  judgedAt (Focus.all f.bodyTokens) [] (f.callSites.filter isJudged)

/-- The call of a function that is reported. -/
def reported? (f : Function) : Option CallSite := firstUnchecked? (Focus.all f.bodyTokens) [] f.callSites

/-- A member that is named like those whose calls are judged. -/
def isFlag (spot : Focus) : Bool := spot.token.isOneOf flagMembers && spot.prev?.any (·.isPunct ".")

/-- No two members of one such name stand on a line. -/
def OnePerLine (f : Function) : Prop :=
  ∀ x ∈ Focus.all f.bodyTokens, ∀ y ∈ Focus.all f.bodyTokens, isFlag x = true → isFlag y = true →
    x.token.text = y.token.text → x.token.line = y.token.line → x.index = y.index

theorem isFlag_of_isCandidate {s : CallSite} {spot : Focus} (hs : isJudged s = true) (h : isCandidate s spot = true) :
    isFlag spot = true ∧ spot.token.text = s.member ∧ spot.token.line = s.line := by
  simp only [isJudged, isCandidate, isFlag, Bool.and_eq_true, Token.isName, Token.isOneOf, beq_iff_eq] at *
  obtain ⟨⟨⟨hkind, htext⟩, hline⟩, hdot⟩ := h
  exact ⟨⟨⟨hkind, htext ▸ hs.2⟩, hdot⟩, htext, hline⟩

theorem faithful_of_onePerLine {c : Contract} {f : Function} (h : OnePerLine f) : Faithful c f := by
  intro p hp spot hspot hcandidate hlt
  have hjudged : isJudged p.1 = true := (List.mem_filter.mp hp).2
  obtain ⟨hown, hcandidate'⟩ := mem_of_mem_owned hp
  obtain ⟨hflag, htext, hline⟩ := isFlag_of_isCandidate hjudged hcandidate
  obtain ⟨hflag', htext', hline'⟩ := isFlag_of_isCandidate hjudged hcandidate'
  have hindex := h spot hspot p.2 hown hflag hflag' (htext.trans htext'.symm) (hline.trans hline'.symm)
  exact absurd hindex (Nat.ne_of_lt hlt)

/-- How the calls of one function are judged. -/
structure CallsJudged (c : Contract) (f : Function) : Prop where
  /-- Reported is the first call that is not checked at the token where it is judged. -/
  reported : reported? f = ((judgedCalls f).find? (! isChecked ·.2)).map (·.1)
  sites : (owned c f).map (·.1) = f.callSites.filter isJudged
  /-- All calls are judged at their own tokens exactly if no member of something else stands in front of one of them. -/
  own_iff : judgedCalls f = owned c f ↔ Faithful c f
  spread : OnePerLine f → Faithful c f

theorem callsJudged {c : Contract} {f : Function} (h : f.ReadIn c) : CallsJudged c f where
  reported := firstUnchecked?_eq ..
  sites := map_fst_owned h
  own_iff := judgedAt_eq_owned_iff h
  spread := faithful_of_onePerLine

/-- Where calls are judged at their own tokens the one that is reported depends on these alone. -/
theorem reported?_of_faithful {c : Contract} {f : Function} (h : f.ReadIn c) (hf : Faithful c f) :
    (reported? f).map CallSite.unplaced = ((owned c.unplaced f.unplaced).find? (! isChecked ·.2)).map (·.1) := by
  have hchecked : (fun p : CallSite × Focus => ! isChecked p.2) ∘ unplacedOwn = fun p => ! isChecked p.2 := by
    funext p
    exact congrArg (! ·) (isChecked_unplaced p.2)
  rw [(callsJudged h).reported, (callsJudged h).own_iff.mpr hf, owned_unplaced, List.find?_map, hchecked,
    Option.map_map, Option.map_map]
  rfl

/-- Two layouts of one function are judged alike. -/
structure JudgedAlike (c c' : Contract) (f f' : Function) : Prop where
  here : CallsJudged c f
  there : CallsJudged c' f'
  /-- If all calls are judged at their own tokens the same call is reported, or none. -/
  reported : Faithful c f → Faithful c' f' → (reported? f).map CallSite.unplaced = (reported? f').map CallSite.unplaced
  /-- The findings then say the same. -/
  finding : Faithful c f → Faithful c' f' → (uncheckedFinding? c f).map (fun x => (x.title, x.description)) =
    (uncheckedFinding? c' f').map fun x => (x.title, x.description)

theorem finding_of_reported {c c' : Contract} {f f' : Function} (hc : c.name = c'.name) (hf : f.name = f'.name)
    (h : (reported? f).map CallSite.unplaced = (reported? f').map CallSite.unplaced) :
    (uncheckedFinding? c f).map (fun x => (x.title, x.description)) =
      (uncheckedFinding? c' f').map fun x => (x.title, x.description) := by
  have hsaid (c : Contract) (f : Function) : (uncheckedFinding? c f).map (fun x => (x.title, x.description)) =
      ((reported? f).map CallSite.unplaced).map fun s => ("Unchecked return value of low-level " ++ s.member,
        c.name ++ "." ++ f.name ++ " ignores whether `" ++ s.callee ++ "` succeeded. A failed " ++
          "call does not revert, so execution continues as if it had.") := by
    rw [uncheckedFinding?, reported?, Option.map_map, Option.map_map]
    rfl
  rw [hsaid, hsaid, h, hc, hf]

end OutboundCall

/-- Two sources with the same name and path and the same tokens: of each function the same call is reported in both,
if in both all its calls are judged at their own tokens. -/
theorem OutboundCall.unchecked_judged_alike {u u' : SourceUnit} {cs cs' : List Contract} {c c' : Contract}
    {f f' : Function} {i j : Nat} (hn : u.name = u'.name) (hp : u.path = u'.path)
    (ht : (tokenize u.text).map (fun t => (t.kind, t.text)) = (tokenize u'.text).map fun t => (t.kind, t.text))
    (h : u.contracts = .ok cs) (h' : u'.contracts = .ok cs') (hc : cs[i]? = some c) (hc' : cs'[i]? = some c')
    (hf : c.functions[j]? = some f) (hf' : c'.functions[j]? = some f') : JudgedAlike c c' f f' := by
  have hread := SourceUnit.readIn h (List.mem_of_getElem? hc) (List.mem_of_getElem? hf)
  have hread' := SourceUnit.readIn h' (List.mem_of_getElem? hc') (List.mem_of_getElem? hf')
  have hcontract : c.unplaced = c'.unplaced := by
    have hsame := congrArg (·[i]?) (SourceUnit.map_unplaced_of_ok hn hp ht h h')
    simpa [hc, hc'] using hsame
  have hfunction : f.unplaced = f'.unplaced := by
    have hsame := congrArg (fun c : Contract => c.functions[j]?) hcontract
    simpa [Contract.unplaced, hf, hf'] using hsame
  have hreported (hfaithful : Faithful c f) (hfaithful' : Faithful c' f') :
      (reported? f).map CallSite.unplaced = (reported? f').map CallSite.unplaced := by
    rw [reported?_of_faithful hread hfaithful, reported?_of_faithful hread' hfaithful', hcontract, hfunction]
  have hname : c.unplaced.name = c'.unplaced.name := congrArg Contract.name hcontract
  have hname' : f.unplaced.name = f'.unplaced.name := congrArg Function.name hfunction
  exact {
    here := callsJudged hread
    there := callsJudged hread'
    reported := hreported
    finding := fun hfaithful hfaithful' => finding_of_reported hname hname' (hreported hfaithful hfaithful') }

/-- Two payouts, each on one line. The first calls a member of a contract that is named like that of an address. -/
def flatPayout : SourceUnit where
  name := "Payout.sol"
  path := ""
  text := "contract Payout \x7b function pay(Proxy proxy, address payable to) external \x7b " ++
    "proxy.send(1); require(to.send(1)); \x7d " ++
    "function both(address payable a, address payable b) external \x7b require(a.send(1)); b.send(2); \x7d \x7d"

/-- The same payouts with a line for each call. -/
def spreadPayout : SourceUnit where
  name := "Payout.sol"
  path := ""
  text := "contract Payout \x7b function pay(Proxy proxy, address payable to) external \x7b " ++
    "proxy.send(1);\nrequire(to.send(1)); \x7d " ++
    "function both(address payable a, address payable b) external \x7b require(a.send(1));\nb.send(2); \x7d \x7d"

theorem ofList_append_append (a b c : List Char) :
    String.ofList a ++ String.ofList b ++ String.ofList c = String.ofList (a ++ b ++ c) := by
  rw [String.ofList_append, String.ofList_append]

theorem map_kind_text_payout : (tokenize flatPayout.text).map (fun t => (t.kind, t.text)) =
    (tokenize spreadPayout.text).map fun t => (t.kind, t.text) := by
  have hflat : flatPayout.text = String.ofList (_ ++ _ ++ _) := ofList_append_append ..
  have hspread : spreadPayout.text = String.ofList (_ ++ _ ++ _) := ofList_append_append ..
  rw [tokenize, tokenize, hflat, hspread, String.toList_ofList, String.toList_ofList]
  decide +kernel

theorem OutboundCall.exists_faithful {u : SourceUnit} {first : Bool}
    (h : u.declared.map (fun c => c.functions.map fun f => decide (Faithful c f)) = [[first, true]]) :
    ∃ cs c f, u.contracts = .ok cs ∧ cs[0]? = some c ∧ c.functions[1]? = some f ∧ Faithful c f := by
  cases hu : u.contracts with
  | error e => rw [SourceUnit.declared_of_error hu] at h; cases h
  | ok cs =>
    rw [SourceUnit.declared_of_ok hu] at h
    have hcontract := congrArg (·[0]?) h
    simp only [List.getElem?_map, List.getElem?_cons_zero, Option.map_eq_some_iff] at hcontract
    obtain ⟨c, hc, hfunctions⟩ := hcontract
    have hfunction := congrArg (·[1]?) hfunctions
    simp only [List.getElem?_map, List.getElem?_cons_succ, List.getElem?_cons_zero, Option.map_eq_some_iff,
      decide_eq_true_iff] at hfunction
    obtain ⟨f, hf, hfaithful⟩ := hfunction
    exact ⟨cs, c, f, rfl, hc, hf, hfaithful⟩

set_option maxRecDepth 4000 in
theorem OutboundCall.faithful_flatPayout :
    flatPayout.declared.map (fun c => c.functions.map fun f => decide (Faithful c f)) = [[false, true]] := by
  have hs : flatPayout.text = String.ofList (_ ++ _ ++ _) := ofList_append_append ..
  rw [SourceUnit.declared, SourceUnit.contracts, tokenize, hs, String.toList_ofList]
  decide +kernel

set_option maxRecDepth 4000 in
theorem OutboundCall.faithful_spreadPayout :
    spreadPayout.declared.map (fun c => c.functions.map fun f => decide (Faithful c f)) = [[true, true]] := by
  have hs : spreadPayout.text = String.ofList (_ ++ _ ++ _) := ofList_append_append ..
  rw [SourceUnit.declared, SourceUnit.contracts, tokenize, hs, String.toList_ofList]
  decide +kernel

theorem OutboundCall.unchecked_judged_alike_payout :
    ∃ cs cs' c c' f f', flatPayout.contracts = .ok cs ∧ spreadPayout.contracts = .ok cs' ∧ cs[0]? = some c ∧
      cs'[0]? = some c' ∧ c.functions[1]? = some f ∧ c'.functions[1]? = some f' ∧ Faithful c f ∧ Faithful c' f' ∧
      JudgedAlike c c' f f' := by
  have hname : flatPayout.name = spreadPayout.name := rfl
  have hpath : flatPayout.path = spreadPayout.path := rfl
  obtain ⟨cs, c, f, h, hc, hf, hfaithful⟩ := exists_faithful faithful_flatPayout
  obtain ⟨cs', c', f', h', hc', hf', hfaithful'⟩ := exists_faithful faithful_spreadPayout
  exact ⟨cs, cs', c, c', f, f', h, h', hc, hc', hf, hf', hfaithful, hfaithful',
    unchecked_judged_alike hname hpath map_kind_text_payout h h' hc hc' hf hf'⟩

set_option maxRecDepth 4000 in
/-- The sending in the condition is reported or not, as the lines are broken. -/
theorem OutboundCall.unchecked_differs_payout :
    (tokenize flatPayout.text).map (fun t => (t.kind, t.text)) =
        (tokenize spreadPayout.text).map (fun t => (t.kind, t.text)) ∧
      (flatPayout.declared.flatMap fun c => c.functions.map fun f => (f.name, (uncheckedFinding? c f).isSome)) =
        [("pay", true), ("both", true)] ∧
      (spreadPayout.declared.flatMap fun c => c.functions.map fun f => (f.name, (uncheckedFinding? c f).isSome)) =
        [("pay", false), ("both", true)] := by
  have hflat : flatPayout.text = String.ofList (_ ++ _ ++ _) := ofList_append_append ..
  have hspread : spreadPayout.text = String.ofList (_ ++ _ ++ _) := ofList_append_append ..
  refine ⟨map_kind_text_payout, ?_, ?_⟩
  · rw [SourceUnit.declared, SourceUnit.contracts, tokenize, hflat, String.toList_ofList]
    decide +kernel
  · rw [SourceUnit.declared, SourceUnit.contracts, tokenize, hspread, String.toList_ofList]
    decide +kernel

end ContractAudit
