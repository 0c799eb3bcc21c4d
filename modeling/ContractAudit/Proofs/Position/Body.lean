import ContractAudit.Proofs.Position.Call

/-!
# Function bodies by position

Each pass over a body asks at every position what stands there.
-/

namespace ContractAudit.Position

open Attempt

/-! ## Passes -/

def collectTurn {β : Type} (ts : List Token) (visit : Int → Attempt (List β)) :
    Int × List β → Attempt (Turn (Int × List β) (List β))
  | (i, out) =>
    if i < ts.length then do return .again (i + 1, out ++ (← visit i)) else return .done out

/-- What is found at the positions of a run, in order. -/
def collect {β : Type} (ts : List Token) (visit : Int → Attempt (List β)) : Attempt (List β) :=
  loop (fun s => ahead ts s.1) (collectTurn ts visit) (0, [])

theorem collect_eq {β : Type} {ts : List Token} {visit : Int → Attempt (List β)} {g : Focus → List β}
    (hvisit : ∀ i (f : Focus), Stands ts i f.before (f.token :: f.after) → visit i = .ok (g f)) :
    collect ts visit = .ok ((Focus.all ts).flatMap g) := by
  have hloop : collect ts visit = .ok ([] ++ (Focus.focusesFrom [] ts).flatMap g) := by
    refine loop_spec (fun (k : List β × List Token × List Token) s => s.2 = k.1 ∧ Stands ts s.1 k.2.1 k.2.2)
      (fun k r => r = .ok (k.1 ++ (Focus.focusesFrom k.2.1 k.2.2).flatMap g)) ?_ ([], [], ts) ⟨rfl, .start ts⟩
    rintro ⟨_, before, run⟩ ⟨i, out⟩ ⟨rfl, h⟩
    simp only at h
    cases run with
    | nil => exact .done out (by simp [collectTurn, h.not_lt]) (by simp [Focus.focusesFrom])
    | cons t run =>
      refine .again (i + 1, out ++ g ⟨before, t, run⟩) (_, t :: before, run) ?_ (ahead_next h) ⟨rfl, h.next⟩
        fun r hr => ?_
      · simp [collectTurn, h.lt, hvisit i ⟨before, t, run⟩ h]
      · simpa [Focus.focusesFrom] using hr
  simpa [Focus.all] using hloop

/-! ## Local variables -/

def locationTurn (ts : List Token) (i : Int) : Attempt (Turn Int Int) := do
  if ← test (i < ts.length) ts i (·.isOneOf locationWords) then return .again (i + 1) else return .done i

/-- The position behind the location words at `i`. -/
def locationsEnd (ts : List Token) (i : Int) : Attempt Int := loop (ahead ts) (locationTurn ts) i

/-- The name that is declared at `i`. -/
def declaredName (ts : List Token) (i : Int) : Attempt (Option String) := do
  if ← test (i + 1 < ts.length) ts i (·.isIdent) then
    let after ← elementAt ts (i + 1)
    if after.isOperator "=" || after.isPunctIn [";", ",", ")"] then return some (← elementAt ts i).text
    else return none
  else return none

/-- The name and type that a declaration at `i` gives to a local. -/
def localAt (ts : List Token) (i : Int) : Attempt (Option (String × String)) := do
  let t ← elementAt ts i
  if ! t.isIdent || statementKeywords.contains t.text then return none
  else
    let prev ← peek (0 < i) ts (i - 1)
    if (prev.map fun p => ! p.isPunctIn ["\x7b", "\x7d", ";", "(", ","]).getD false then return none
    else
      let stop ← typeEnd ts i
      if stop = -1 then return none
      else
        match ← declaredName ts (← locationsEnd ts stop) with
        | none => return none
        | some name => return some (name, Token.render (← slice ts i stop))

def locals (parameters : List Parameter) (body : List Token) : Attempt (List (String × String)) := do
  let found ← collect body fun i => do return (← localAt body i).toList
  return found.reverse ++ ((parameters.filter (! ·.name.isEmpty)).map fun p => (p.name, p.typeName)).reverse

section Locals

variable {ts before run : List Token} {i : Int}

theorem locationsEnd_finds (h : Stands ts i before run) :
    Finds ts before (locationsEnd ts i)
      (some (run.takeWhile (·.isOneOf locationWords), run.dropWhile (·.isOneOf locationWords))) := by
  refine loop_spec (fun (k : List Token × List Token) i => Stands ts i k.1 k.2)
    (fun k r => Finds ts k.1 r
      (some (k.2.takeWhile (·.isOneOf locationWords), k.2.dropWhile (·.isOneOf locationWords))))
    ?_ (before, run) h
  rintro ⟨before, run⟩ i h
  simp only at h
  have htest := h.test_eq (·.isOneOf locationWords)
  cases run with
  | nil => exact .done i (by simp [locationTurn, htest]) (finds_some.mpr ⟨i, rfl, h⟩)
  | cons t run =>
    cases hw : t.isOneOf locationWords with
    | false =>
      refine .done i (by simp [locationTurn, htest, hw]) (finds_some.mpr ⟨i, rfl, ?_⟩)
      simpa [hw] using h
    | true =>
      refine .again (i + 1) (t :: before, run) (by simp [locationTurn, htest, hw]) (ahead_next h) h.next
        fun r hr => ?_
      obtain ⟨j, rfl, hj⟩ := finds_some.mp hr
      exact finds_some.mpr ⟨j, rfl, by simpa [hw] using hj⟩

/-- The name that a run declares, where the name stands at its front. -/
def declaredName? : List Token → Option String
  | name :: after :: _ =>
    if name.isIdent && (after.isOperator "=" || after.isPunctIn [";", ",", ")"]) then some name.text else none
  | _ => none

theorem declaredName_eq (h : Stands ts i before run) : declaredName ts i = .ok (declaredName? run) := by
  rcases run with _ | ⟨name, _ | ⟨after, rest⟩⟩
  · have hi : ¬ i + 1 < ts.length := h.not_add_lt (n := 1) (by simp)
    simp [declaredName, hi, declaredName?]
  · simp [declaredName, h.next.not_lt, declaredName?]
  · have htest : test (i + 1 < ts.length) ts i (·.isIdent) = .ok name.isIdent :=
      h.test_of_guard (by simp [h.next.lt]) _
    simp only [declaredName, htest, ok_bind, h.next.elementAt_eq, h.elementAt_eq, declaredName?]
    cases name.isIdent with
    | false => rfl
    | true =>
      simp only [↓reduceIte, Bool.true_and]
      split <;> rfl

theorem local?_eq (f : Focus) :
    f.local? =
      if ! f.token.isIdent || statementKeywords.contains f.token.text then none
      else if (f.prev?.map fun p => ! p.isPunctIn ["\x7b", "\x7d", ";", "(", ","]).getD false then none
      else
        (splitType? (f.token :: f.after)).bind fun p =>
          (declaredName? (p.2.dropWhile (·.isOneOf locationWords))).map fun name =>
            (name, Token.render p.1) := by
  unfold Focus.local?
  split
  · rfl
  · split
    · rfl
    · cases splitType? (f.token :: f.after) with
      | none => rfl
      | some p =>
        simp only [Option.bind_eq_bind, Option.bind_some]
        generalize p.2.dropWhile (·.isOneOf locationWords) = rest
        rcases rest with _ | ⟨name, _ | ⟨after, rest⟩⟩
        · rfl
        · rfl
        · simp only [declaredName?, apply_ite (Option.map fun name => (name, Token.render p.1))]
          rfl

theorem localAt_eq {f : Focus} (h : Stands ts i f.before (f.token :: f.after)) :
    localAt ts i = .ok f.local? := by
  have htype := typeEnd_finds h
  rw [localAt, local?_eq, h.elementAt_eq, ok_bind, h.peek_back, ok_bind, Focus.prev?]
  split
  · rfl
  · split
    · rfl
    · cases hs : splitType? (f.token :: f.after) with
      | none =>
        rw [hs] at htype
        rw [show typeEnd ts i = .ok (-1) from htype]
        rfl
      | some p =>
        rw [hs] at htype
        obtain ⟨stop, hstop, hj⟩ := finds_some.mp htype
        obtain ⟨k, hlocations, hk⟩ := finds_some.mp (locationsEnd_finds hj)
        simp only [hstop, ok_bind, hj.ne_none, ↓reduceIte, hlocations, declaredName_eq hk, h.slice_eq hj,
          Option.bind_some]
        cases declaredName? (p.2.dropWhile (·.isOneOf locationWords)) <;> rfl

theorem locals_eq (parameters : List Parameter) (body : List Token) :
    locals parameters body = .ok (localsOf parameters body) := by
  have hfound : (collect body fun i => do return (← localAt body i).toList) =
      .ok ((Focus.all body).filterMap (·.local?)) := by
    rw [collect_eq (g := fun f => f.local?.toList) fun i f h => by simp [localAt_eq h],
      List.filterMap_eq_flatMap_toList]
  rw [locals, hfound]
  rfl

end Locals

/-! ## State variables -/

def accessTurn (ts : List Token) (i : Int) : Attempt (Turn Int Int) := do
  if i < ts.length then
    let t ← elementAt ts i
    if t.opens .square then
      let close ← closing ts i
      if close = -1 then return .done i else return .again (close + 1)
    else if ← test (t.isPunct "." && i + 2 < ts.length) ts (i + 1) (·.isIdent) then
      if (← elementAt ts (i + 2)).opens .paren then return .done i else return .again (i + 2)
    else return .done i
  else return .done i

/-- The position behind the subscripts and members at `i`. -/
def accessEnd (ts : List Token) (i : Int) : Attempt Int := loop (ahead ts) (accessTurn ts) i

/-- Where the call of `push` or `pop` behind the dot at `i` closes: nothing if there is no such call. -/
def growthEnd (ts : List Token) (i : Int) : Attempt (Option Int) := do
  if ← test (i < ts.length) ts i (·.isPunct ".") then
    if ← test (i + 2 < ts.length) ts (i + 1) (·.isOneOf ["push", "pop"]) then
      if (← elementAt ts (i + 2)).opens .paren then return some (← closing ts (i + 2)) else return none
    else return none
  else return none

/-- The events of an access to the state variable at `k`. -/
def stateAccess (ts : List Token) (k : Int) : Attempt (List Positioned) := do
  let t ← elementAt ts k
  let stop ← accessEnd ts (k + 1)
  let next ← peek (stop < ts.length) ts stop
  let prev ← peek (0 < k) ts (k - 1)
  let isStep (t : Token) := t.text == "++" || t.text == "--"
  let read : Event := .read t.text t.line
  let write : Event := .write t.text t.line
  if (next.map Token.isAssignment).getD false then
    let statement ← statementStop ts k
    return (if (next.map (·.text == "=")).getD false then [] else [(k.toNat, read)]) ++
      [(statement.toNat, write)]
  else if (next.map isStep).getD false || (prev.map isStep).getD false then
    return [(k.toNat, read), (k.toNat, write)]
  else if (prev.map (·.isName "delete")).getD false then return [(k.toNat, write)]
  else
    match ← growthEnd ts stop with
    | some close => return [((if close = -1 then k else close).toNat, write)]
    | none => return [(k.toNat, read)]

section Access

variable {ts before run : List Token} {t : Token} {i : Int}

/-- What is taken from a run, where its front is passed over first. -/
theorem finds_take {r : Attempt Int} {front rest : List Token} {m n : Nat} (hrun : run = front ++ rest)
    (hm : m = n + front.length) (h : Finds ts (front.reverse ++ before) r (some (rest.take n, rest.drop n))) :
    Finds ts before r (some (run.take m, run.drop m)) := by
  rw [hrun, hm, Nat.add_comm, List.take_length_add_append, List.drop_length_add_append]
  exact (finds_map (o := some (rest.take n, rest.drop n)) front).mpr h

/-- One turn of the search from `i` on. -/
abbrev AccessLeads (ts : List Token) (k : List Token × List Token) (i : Int) : Prop :=
  Leads (ahead ts) (accessTurn ts) (fun (k : List Token × List Token) i => Stands ts i k.1 k.2)
    (fun k r => Finds ts k.1 r (some (k.2.take (accessLength k.2), k.2.drop (accessLength k.2)))) k i

theorem AccessLeads.stop (h : Stands ts i before run) (hturn : accessTurn ts i = .ok (.done i))
    (hlength : accessLength run = 0) : AccessLeads ts (before, run) i := by
  refine .done i hturn ?_
  simp only [hlength]
  exact finds_some.mpr ⟨i, rfl, h⟩

theorem accessTurn_subscript (h : Stands ts i before (t :: run)) (ho : t.opens .square = true) :
    AccessLeads ts (before, t :: run) i := by
  have hlength := accessLength_cons t run
  simp only [ho, ↓reduceIte] at hlength
  cases he : Bracket.square.enclosed? run with
  | none =>
    rw [he] at hlength
    exact .stop h (by simp [accessTurn, h.lt, h.elementAt_eq, ho, closing_of_none h ho he]) hlength
  | some e =>
    obtain ⟨j, hclose, hj⟩ := closing_of_some h ho he
    rw [he] at hlength
    refine .again (j + 1) (_, e.rest) ?_ (ahead_close h he hj) hj.next fun r hr => ?_
    · simp [accessTurn, h.lt, h.elementAt_eq, ho, hclose, hj.ne_none]
    · have hfront : t :: run = (t :: e.inner ++ [e.close]) ++ e.rest := by
        simp [← Enclosed.run_of_find? he]
      exact finds_take (n := accessLength e.rest) hfront (by simp [hlength]) (by simpa using hr)

theorem accessTurn_member (h : Stands ts i before (t :: run)) (ho : t.opens .square = false) :
    AccessLeads ts (before, t :: run) i := by
  have hlength := accessLength_cons t run
  simp only [ho, Bool.false_eq_true, ↓reduceIte] at hlength
  cases hdot : t.isPunct "." with
  | false =>
    simp only [hdot, Bool.false_eq_true, ↓reduceIte] at hlength
    exact .stop h (by simp [accessTurn, h.lt, h.elementAt_eq, ho, hdot]) hlength
  | true =>
    simp only [hdot, ↓reduceIte] at hlength
    have hshort : ¬ i + 2 < ts.length → accessTurn ts i = .ok (.done i) := by
      intro hi
      simp [accessTurn, h.lt, h.elementAt_eq, ho, hi]
    rcases run with _ | ⟨name, _ | ⟨x, more⟩⟩
    · exact .stop h (hshort (h.not_add_lt (n := 2) (by simp))) hlength
    · exact .stop h (hshort (h.not_add_lt (n := 2) (by simp))) hlength
    · have htwo := h.next_next
      have htest : test (t.isPunct "." && i + 2 < ts.length) ts (i + 1) (·.isIdent) = .ok name.isIdent :=
        h.next.test_of_guard (by simp [hdot, htwo.lt]) _
      cases hm : name.isIdent && ! x.opens .paren with
      | false =>
        simp only [hm, Bool.false_eq_true, ↓reduceIte] at hlength
        refine .stop h ?_ hlength
        simp only [accessTurn, h.lt, h.elementAt_eq, ho, htest, htwo.elementAt_eq, ok_bind,
          Bool.false_eq_true, ↓reduceIte, pure_eq]
        cases hname : name.isIdent with
        | false => rfl
        | true =>
          have hx : x.opens .paren = true := by simpa [hname] using hm
          simp only [hx, ↓reduceIte]
      | true =>
        simp only [hm, ↓reduceIte] at hlength
        obtain ⟨hname, hx⟩ : name.isIdent = true ∧ x.opens .paren = false := by simpa using hm
        refine .again (i + 2) (_, x :: more) ?_ (h.ahead_lt htwo (by simp)) htwo fun r hr => ?_
        · simp [accessTurn, h.lt, h.elementAt_eq, ho, htest, htwo.elementAt_eq, hname, hx]
        · have hfront : t :: name :: x :: more = [t, name] ++ x :: more := rfl
          exact finds_take hfront hlength hr

theorem accessEnd_finds (h : Stands ts i before run) :
    Finds ts before (accessEnd ts i) (some (run.take (accessLength run), run.drop (accessLength run))) := by
  refine loop_spec (fun (k : List Token × List Token) i => Stands ts i k.1 k.2)
    (fun k r => Finds ts k.1 r (some (k.2.take (accessLength k.2), k.2.drop (accessLength k.2))))
    ?_ (before, run) h
  rintro ⟨before, run⟩ i h
  cases run with
  | nil => exact AccessLeads.stop h (by simp [accessTurn, h.not_lt]) (by simp [accessLength])
  | cons t run =>
    cases ho : t.opens .square with
    | true => exact accessTurn_subscript h ho
    | false => exact accessTurn_member h ho

/-- Where the call of `push` or `pop` at the start of a run closes, counted from the run's start: nothing if
there is no such call or if it does not close. -/
def growth? : List Token → Option (Option Nat)
  | dot :: member :: call =>
    if dot.isPunct "." && member.isOneOf ["push", "pop"] && (call.head?.map (·.opens .paren)).getD false then
      some ((callEnd? call).map (· + 2))
    else none
  | _ => none

theorem growthEnd_eq (h : Stands ts i before run) :
    growthEnd ts i = .ok ((growth? run).map fun o => o.elim (-1) fun n => i + n) := by
  have hdot := h.test_eq (·.isPunct ".")
  have hshort : ¬ i + 2 < ts.length → growthEnd ts i = .ok none := by
    intro hi
    simp only [growthEnd, hdot, ok_bind, hi, decide_false, test_false, Bool.false_eq_true, ↓reduceIte]
    split <;> rfl
  rcases run with _ | ⟨dot, _ | ⟨member, _ | ⟨p, call⟩⟩⟩
  · exact hshort (h.not_add_lt (n := 2) (by simp))
  · exact hshort (h.not_add_lt (n := 2) (by simp))
  · rw [hshort (h.not_add_lt (n := 2) (by simp))]
    simp [growth?]
  · have htwo := h.next_next
    have hmember : test (i + 2 < ts.length) ts (i + 1) (·.isOneOf ["push", "pop"]) =
        .ok (member.isOneOf ["push", "pop"]) :=
      h.next.test_of_guard (by simp [htwo.lt]) _
    have hgrowth : growth? (dot :: member :: p :: call) =
        if dot.isPunct "." && member.isOneOf ["push", "pop"] && p.opens .paren then
          some ((callEnd? (p :: call)).map (· + 2))
        else none := rfl
    simp only [growthEnd, hdot, ok_bind, List.head?_cons, Option.map_some, Option.getD_some, hmember,
      htwo.elementAt_eq, hgrowth]
    by_cases hd : (dot.isPunct "." && member.isOneOf ["push", "pop"] && p.opens .paren) = true
    · obtain ⟨⟨hdot, hmember⟩, hp⟩ : (dot.isPunct "." = true ∧ member.isOneOf ["push", "pop"] = true) ∧
          p.opens .paren = true := by simpa using hd
      cases he : Bracket.paren.enclosed? call with
      | none => simp [hdot, hmember, hp, closing_of_none htwo hp he, callEnd?, he]
      | some e =>
        obtain ⟨j, hclose, hj⟩ := closing_of_some htwo hp he
        have hposition := hj.position
        have htwice := htwo.position
        simp only [List.length_append, List.length_reverse, List.length_cons] at hposition htwice
        simp only [hdot, hmember, hclose, callEnd?, hp, he, ok_bind, ↓reduceIte, pure_eq, Option.map_some,
          Bool.and_self, Option.elim_some, Except.ok.injEq, Option.some.injEq]
        omega
    · rw [if_neg hd]
      rw [Bool.not_eq_true, Bool.and_eq_false_iff, Bool.and_eq_false_iff] at hd
      rcases hd with (hd | hd) | hd <;> simp [hd]

/-- The events of an access that is no assignment, step or deletion. -/
theorem growth_events (rest : List Token) (k length : Nat) (read write : Event) :
    (match rest with
    | dot :: member :: call =>
      if dot.isPunct "." && member.isOneOf ["push", "pop"] &&
          (call.head?.map (·.opens .paren)).getD false then
        match callEnd? call with
        | some n => [(k + length + 3 + n, write)]
        | none => [(k, write)]
      else [(k, read)]
    | _ => [(k, read)]) =
    match growth? rest with
    | some (some n) => [(k + length + 1 + n, write)]
    | some none => [(k, write)]
    | none => [(k, read)] := by
  unfold growth?
  split
  · split
    · rename_i call _
      cases callEnd? call with
      | none => rfl
      | some n =>
        simp only [Option.map_some, List.cons.injEq, Prod.mk.injEq, and_true]
        omega
    · rfl
  · rfl

theorem ne_nil_of_growth? {o : Option Nat} (h : growth? run = some o) : run ≠ [] := by
  rintro rfl
  cases h

theorem stateAccess_eq {f : Focus} (h : Stands ts i f.before (f.token :: f.after)) :
    stateAccess ts i = .ok f.stateAccess := by
  obtain ⟨stop, hstop, hj⟩ := finds_some.mp (accessEnd_finds h.next)
  have hk : i.toNat = f.index := by
    rw [h.position]
    rfl
  have hprev : peek (0 < i) ts (i - 1) = .ok f.prev? := h.peek_back
  have hstatement := statementStop_eq h (List.cons_ne_nil _ _)
  have hend : (i + statementEnd (f.token :: f.after)).toNat =
      f.index + statementEnd (f.token :: f.after) := by
    have := h.nonneg
    omega
  unfold stateAccess Focus.stateAccess
  simp only [h.elementAt_eq, ok_bind, hstop, hj.peek_eq, hprev, hstatement, hend, growthEnd_eq hj, hk,
    pure_eq, apply_ite (Except.ok (ε := Failure))]
  refine if_congr Iff.rfl rfl (if_congr Iff.rfl rfl (if_congr Iff.rfl rfl ?_))
  refine Eq.trans ?_ (congrArg Except.ok (growth_events _ f.index (accessLength f.after) _ _).symm)
  rcases hg : growth? (f.after.drop (accessLength f.after)) with _ | _ | n
  · rfl
  · simp [hk]
  · -- Tokens are left behind the access, and so all of its length was taken.
    have hposition := hj.position
    have hlength := List.length_pos_iff.mpr (ne_nil_of_growth? hg)
    have := h.position
    simp only [List.length_append, List.length_reverse, List.length_cons, List.length_take,
      List.length_drop] at hposition hlength
    have hclose : ¬ stop + n = -1 := by omega
    simp only [Option.map_some, Option.elim_some, hclose, ↓reduceIte, Except.ok.injEq, List.cons.injEq,
      Prod.mk.injEq, and_true]
    omega

end Access

/-! ## Events and checks -/

/-- The events at `k`. -/
def eventsAt (s : Scope) (ts : List Token) (k : Int) : Attempt (List Positioned) := do
  let t ← elementAt ts k
  let next ← peek (k + 1 < ts.length) ts (k + 1)
  let prev ← peek (0 < k) ts (k - 1)
  if t.isPunct "." then return (← memberCall s ts k).toList
  else if ! t.isIdent || (prev.map (·.isPunct ".")).getD false then return []
  else if (next.map (·.opens .paren)).getD false && s.functionNames.contains t.text then
    if (prev.map (·.isOneOf ["function", "new", "emit"])).getD false then return []
    else
      let close ← closing ts (k + 1)
      return [((if close = -1 then k else close).toNat, .internalCall t.text t.line)]
  else if s.seesVariable t.text then stateAccess ts k
  else return []

/-- The condition tested at `k`. -/
def checkAt (ts : List Token) (k : Int) : Attempt (Option String) := do
  let t ← elementAt ts k
  if t.isOneOf ["require", "assert", "if"] then
    if ← test (k + 1 < ts.length) ts (k + 1) (·.opens .paren) then
      let close ← closing ts (k + 1)
      if close = -1 then return none
      else
        let arguments ← split "," (← slice ts (k + 2) close)
        if arguments.isEmpty then return none else return some (Token.render (← elementAt arguments 0))
    else return none
  else return none

section Events

variable {ts before run : List Token} {t : Token} {i : Int}

/-- The position of a call whose parenthesis stands behind `k`. -/
theorem closing_toNat {k : Nat} (h : Stands ts i before (t :: run)) (ho : t.opens .paren = true)
    (hi : i = k + 1) :
    ∃ close, closing ts i = .ok close ∧ (if close = -1 then (k : Int) else close).toNat =
      match callEnd? (t :: run) with
      | some n => k + 1 + n
      | none => k := by
  simp only [callEnd?, ho, ↓reduceIte]
  cases he : Bracket.paren.enclosed? run with
  | none => exact ⟨-1, closing_of_none h ho he, by simp⟩
  | some e =>
    obtain ⟨j, hclose, hj⟩ := closing_of_some h ho he
    have hposition := hj.position
    have hbefore := h.position
    simp only [List.length_append, List.length_reverse, List.length_cons] at hposition
    refine ⟨j, hclose, ?_⟩
    rw [if_neg hj.ne_none, show j = (k + 1 + (e.inner.length + 1) : Nat) by omega]
    rfl

theorem eventsAt_eq {s : Scope} {f : Focus} (hs : s.HasWords)
    (h : Stands ts i f.before (f.token :: f.after)) : eventsAt s ts i = .ok (f.events s) := by
  have hnext : peek (i + 1 < ts.length) ts (i + 1) = .ok f.next? := h.next.peek_eq
  have hprev : peek (0 < i) ts (i - 1) = .ok f.prev? := h.peek_back
  unfold eventsAt Focus.events
  simp only [h.elementAt_eq, hnext, hprev, ok_bind, memberCall_eq hs h, stateAccess_eq h, pure_eq,
    apply_ite (Except.ok (ε := Failure))]
  refine if_congr Iff.rfl rfl (if_congr Iff.rfl rfl (ite_congr rfl (fun hcall => ?_) fun _ => rfl))
  refine if_congr Iff.rfl rfl ?_
  obtain ⟨before, t, after⟩ := f
  cases after with
  | nil => cases hcall
  | cons p after =>
    have hp : p.opens .paren = true := (Bool.and_eq_true_iff.mp hcall).1
    obtain ⟨close, hclose, hposition⟩ := closing_toNat h.next hp (by rw [h.position])
    simp only [hclose, ok_bind]
    rw [h.position]
    exact congrArg (fun n => Except.ok [(n, Event.internalCall t.text t.line)]) hposition

theorem checkAt_eq {f : Focus} (h : Stands ts i f.before (f.token :: f.after)) :
    checkAt ts i = .ok f.check? := by
  obtain ⟨before, t, after⟩ := f
  rw [checkAt, Focus.check?, h.elementAt_eq, ok_bind]
  split
  · cases after with
    | nil => simp [h.next.test_eq]
    | cons p after =>
      have htest : test (i + 1 < ts.length) ts (i + 1) (·.opens .paren) = .ok (p.opens .paren) :=
        h.next.test_eq (·.opens .paren)
      rw [htest, ok_bind]
      cases hp : p.opens .paren with
      | false => simp [hp]
      | true =>
        cases he : Bracket.paren.enclosed? after with
        | none => simp [closing_of_none h.next hp he, he]
        | some e =>
          obtain ⟨j, hclose, hj⟩ := closing_of_some h.next hp he
          have hslice : slice ts (i + 2) j = .ok e.inner := by
            rw [show i + 2 = i + 1 + 1 by omega]
            exact h.next.next.slice_eq hj
          simp only [hclose, ok_bind, hj.ne_none, ↓reduceIte, hslice, split_eq, hp, he,
            Token.splitCommas, Option.bind_eq_bind, Option.bind_some]
          cases Token.split "," e.inner with
          | nil => rfl
          | cons part parts => simp [(Stands.start (part :: parts)).elementAt_eq]
  · rfl

end Events

/-! ## Effects -/

/-- One more effect for those kept so far. -/
def collapseStep (kept : List Effect) (e : Effect) : Attempt (List Effect) := do
  if kept.isEmpty then return [e]
  else if (← last kept).repeats e then return kept
  else return kept ++ [e]

def effects (events : List Positioned) : Attempt (List Effect) :=
  ((sortByPosition (numberEvents 0 events)).map (·.2)).foldlM collapseStep []

theorem foldlM_collapseStep (kept : List Effect) (e : Effect) (es : List Effect) :
    es.foldlM collapseStep (kept ++ [e]) = .ok (kept ++ e :: collapseAfter e es) := by
  induction es generalizing kept e with
  | nil => rfl
  | cons d es ih =>
    have hstep : collapseStep (kept ++ [e]) d =
        .ok (if e.repeats d then kept ++ [e] else kept ++ [e] ++ [d]) := by
      simp only [collapseStep, last, List.getLast?_concat, known_some, ok_bind]
      cases e.repeats d <;> simp
    rw [List.foldlM_cons, hstep, ok_bind, collapseAfter]
    cases e.repeats d with
    | true => exact ih kept e
    | false =>
      have hrest := ih (kept ++ [e]) d
      simpa using hrest

theorem effects_eq (events : List Positioned) : effects events = .ok (effectsOf events) := by
  unfold effects effectsOf
  cases (sortByPosition (numberEvents 0 events)).map (·.2) with
  | nil => rfl
  | cons e es => exact foldlM_collapseStep [] e es

end ContractAudit.Position
