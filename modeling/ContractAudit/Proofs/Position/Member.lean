import ContractAudit.Proofs.Position.Declaration

/-!
# Members by position

Functions with their specifiers, and the members between the braces of a contract.
-/

namespace ContractAudit.Position

open Attempt

/-! ## Functions -/

/-- The name of a function and the position behind it; `i` is the position behind the keyword. -/
def functionName (keyword : Token) (ts : List Token) (i : Int) : Attempt (String × Int) := do
  if ← test (["function", "modifier"].contains keyword.text && i < ts.length) ts i (·.isIdent) then
    return ((← elementAt ts i).text, i + 1)
  else return (if keyword.text == "function" then "fallback" else keyword.text, i)

/-- The parameters in parentheses at `i` and the position behind them. -/
def functionParameters (name : String) (line : Nat) (ts : List Token) (i : Int) :
    Attempt (List Parameter × Int) := do
  if ← test (i < ts.length) ts i (·.opens .paren) then
    let close ← closing ts i
    if close = -1 then refuse (.unbalancedParameters name line)
    else return (← parameters (← slice ts (i + 1) close), close + 1)
  else return ([], i)

def specifierTurn (name : String) (line : Nat) (ts : List Token) (i : Int) : Attempt (Turn Int Int) := do
  if i < ts.length then
    let t ← elementAt ts i
    if t.isPunct "\x7b" || t.isPunct ";" then return .done i
    else if t.opens .paren then
      let close ← closing ts i
      if close = -1 then refuse (.unbalancedSpecifiers name line) else return .again (close + 1)
    else return .again (i + 1)
  else return .done i

/-- The position of the brace or semicolon that ends the specifiers at `i`. -/
def specifiersEnd (name : String) (line : Nat) (ts : List Token) (i : Int) : Attempt Int :=
  loop (ahead ts) (specifierTurn name line ts) i

/-- The rest of a function from its specifiers on. -/
def functionRest (name : String) (line : Nat) (parameters : List Parameter) (ts : List Token) (i : Int) :
    Attempt (RawFunction × Int) := do
  let q ← specifiersEnd name line ts i
  if q < ts.length then
    let specifiers ← slice ts i q
    let stop ← elementAt ts q
    if stop.isPunct "\x7b" then
      let close ← closing ts q
      if close = -1 then refuse (.unbalancedBody name line)
      else
        let body ← slice ts (q + 1) close
        return (⟨name, parameters, specifiers, some body, line, (← elementAt ts close).line⟩, close + 1)
    else return (⟨name, parameters, specifiers, none, line, stop.line⟩, q + 1)
  else refuse (.unterminated name line)

/-- The function whose keyword stands at `i`. -/
def function (ts : List Token) (i : Int) : Attempt (RawFunction × Int) := do
  let keyword ← elementAt ts i
  let (name, p) ← functionName keyword ts (i + 1)
  let (parameters, p) ← functionParameters name keyword.line ts p
  functionRest name keyword.line parameters ts p

section Functions

variable {ts before run : List Token} {i : Int}

theorem functionName_eq {keyword : Token} (hk : keyword.isIdent = true) (h : Stands ts i before run) :
    ∃ j before', functionName keyword ts i = .ok ((RawFunction.splitName keyword run).1, j) ∧
      Stands ts j before' (RawFunction.splitName keyword run).2 := by
  have hone : keyword.isOneOf ["function", "modifier"] = ["function", "modifier"].contains keyword.text := by
    simp only [Token.isOneOf]
    rw [show (keyword.kind == .ident) = true from hk, Bool.true_and]
  unfold functionName RawFunction.splitName
  rw [hone]
  cases hw : ["function", "modifier"].contains keyword.text with
  | false => exact ⟨i, before, rfl, h⟩
  | true =>
    rw [Bool.true_and, h.test_eq]
    cases run with
    | nil => exact ⟨i, before, rfl, h⟩
    | cons t rest =>
      cases ht : t.isIdent with
      | false => exact ⟨i, before, by simp [ht], by simpa [ht] using h⟩
      | true => exact ⟨i + 1, t :: before, by simp [ht, h.elementAt_eq], by simpa [ht] using h.next⟩

theorem functionParameters_reads (name : String) (line : Nat) (h : Stands ts i before run) :
    Reads ts (functionParameters name line ts i) (RawFunction.splitParameters name line run) := by
  unfold functionParameters RawFunction.splitParameters
  rw [h.test_eq]
  cases run with
  | nil => exact .read h
  | cons t rest =>
    simp only [List.head?_cons, Option.map_some, Option.getD_some, ok_bind]
    cases ht : t.opens .paren with
    | false => exact .read h
    | true =>
      cases he : Bracket.paren.enclosed? rest with
      | none =>
        simp only [closing_of_none h ht he, ok_bind, ↓reduceIte]
        exact .refused _
      | some e =>
        obtain ⟨j, hclose, hj⟩ := closing_of_some h ht he
        simp only [↓reduceIte, hclose, ok_bind, hj.ne_none, h.next.slice_eq hj, parameters_eq, pure_eq]
        exact .read hj.next

/-- The tokens from the end of the specifiers on. -/
def endRun : Option (Token × List Token) → List Token
  | some (t, rest) => t :: rest
  | none => []

/-- Where the search for the end of specifiers gets to. -/
inductive FindsEnd (name : String) (line : Nat) (ts before : List Token) :
    Attempt Int → Option (List Token × Option (Token × List Token)) → Prop where
  | refused : FindsEnd name line ts before (.error (.refused (.unbalancedSpecifiers name line))) none
  | found {j : Int} {taken : List Token} {tail : Option (Token × List Token)}
      (h : Stands ts j (taken.reverse ++ before) (endRun tail)) :
      FindsEnd name line ts before (.ok j) (some (taken, tail))

theorem FindsEnd.map {name : String} {line : Nat} {r : Attempt Int}
    {o : Option (List Token × Option (Token × List Token))} (front : List Token)
    (h : FindsEnd name line ts (front.reverse ++ before) r o) :
    FindsEnd name line ts before r (o.map fun p => (front ++ p.1, p.2)) := by
  cases h with
  | refused => exact .refused
  | found h => exact .found (by simpa using h)

theorem specifiersEnd_finds (name : String) (line : Nat) (h : Stands ts i before run) :
    FindsEnd name line ts before (specifiersEnd name line ts i) (RawFunction.splitSpecifiers run) := by
  refine loop_spec (fun (k : List Token × List Token) s => Stands ts s k.1 k.2)
    (fun k r => FindsEnd name line ts k.1 r (RawFunction.splitSpecifiers k.2)) ?_ (before, run) h
  rintro ⟨before, run⟩ i h
  simp only at h
  cases run with
  | nil =>
    refine .done i (by simp [specifierTurn, h.not_lt]) ?_
    simp only [RawFunction.splitSpecifiers]
    exact .found h
  | cons t rest =>
    cases hstop : t.isPunct "\x7b" || t.isPunct ";" with
    | true =>
      refine .done i ?_ ?_
      · simp only [specifierTurn, h.lt, h.elementAt_eq, hstop, ok_bind, ↓reduceIte, pure_eq]
      · simp only [RawFunction.splitSpecifiers_cons, hstop, ↓reduceIte]
        exact .found h
    | false =>
      cases ho : t.opens .paren with
      | false =>
        refine .again (i + 1) (t :: before, rest) ?_ (ahead_next h) h.next fun r hr => ?_
        · simp only [specifierTurn, h.lt, h.elementAt_eq, hstop, ho, ok_bind, Bool.false_eq_true, ↓reduceIte,
            pure_eq]
        · simp only [RawFunction.splitSpecifiers_cons, hstop, ho, Bool.false_eq_true, ↓reduceIte]
          exact FindsEnd.map [t] hr
      | true =>
        cases he : Bracket.paren.enclosed? rest with
        | none =>
          refine .failed (.refused (.unbalancedSpecifiers name line)) ?_ ?_
          · simp only [specifierTurn, h.lt, h.elementAt_eq, hstop, ho, closing_of_none h ho he, ok_bind,
              Bool.false_eq_true, ↓reduceIte]
            rfl
          · simp only [RawFunction.splitSpecifiers_cons, hstop, ho, he, Bool.false_eq_true, ↓reduceIte,
              Option.bind_none]
            exact .refused
        | some e =>
          obtain ⟨j, hclose, hj⟩ := closing_of_some h ho he
          refine .again (j + 1) (e.close :: (e.inner.reverse ++ t :: before), e.rest) ?_
            (ahead_close h he hj) hj.next fun r hr => ?_
          · simp only [specifierTurn, h.lt, h.elementAt_eq, hstop, ho, hclose, hj.ne_none, ok_bind,
              Bool.false_eq_true, ↓reduceIte, pure_eq]
          · simp only [RawFunction.splitSpecifiers_cons, hstop, ho, he, Bool.false_eq_true, ↓reduceIte,
              Option.bind_some]
            have hfront := FindsEnd.map (t :: e.inner ++ [e.close]) (by simpa using hr)
            simpa using hfront

theorem functionRest_reads (name : String) (line : Nat) (ps : List Parameter) (h : Stands ts i before run) :
    Reads ts (functionRest name line ps ts i) (RawFunction.ofSpecifiers name line ps run) := by
  have hend := specifiersEnd_finds name line h
  unfold functionRest RawFunction.ofSpecifiers
  generalize RawFunction.splitSpecifiers run = o, specifiersEnd name line ts i = r at hend
  cases hend with
  | refused => exact .refused _
  | @found j taken tail hj =>
    rcases tail with _ | ⟨t, rest⟩
    · have hj : Stands ts j (taken.reverse ++ before) [] := hj
      simp only [ok_bind, hj.not_lt, ↓reduceIte]
      exact .refused _
    · have hj : Stands ts j (taken.reverse ++ before) (t :: rest) := hj
      simp only [ok_bind, hj.lt, ↓reduceIte, h.slice_eq hj, hj.elementAt_eq]
      cases hb : t.isPunct "\x7b" with
      | false => exact .read hj.next
      | true =>
        have ho : t.opens .brace = true := hb
        cases he : Bracket.brace.enclosed? rest with
        | none =>
          simp only [closing_of_none hj ho he, ok_bind, ↓reduceIte]
          exact .refused _
        | some e =>
          obtain ⟨k, hclose, hk⟩ := closing_of_some hj ho he
          simp only [↓reduceIte, hclose, ok_bind, hk.ne_none, hj.next.slice_eq hk, hk.elementAt_eq, pure_eq]
          exact .read hk.next

theorem function_reads {t : Token} (ht : t.isIdent = true) (h : Stands ts i before (t :: run)) :
    Reads ts (function ts i) (RawFunction.ofTokens t run) := by
  obtain ⟨j, before', hname, hj⟩ := functionName_eq ht h.next
  have hparameters := functionParameters_reads (RawFunction.splitName t run).1 t.line hj
  unfold function RawFunction.ofTokens
  simp only [h.elementAt_eq, ok_bind, hname]
  generalize RawFunction.splitParameters _ _ _ = o, functionParameters _ _ ts j = r at hparameters
  cases hparameters with
  | refused e => exact .refused e
  | read hk => exact functionRest_reads _ _ _ hk

end Functions

/-! ## Members -/

/-- The member of a statement that starts with `t`, `next` being the token after it. -/
def statementMember (t : Token) (next : Option Token) (statement : List Token) : Attempt (Option Member) := do
  if t.isOneOf ["type"] && (next.map (·.isIdent)).getD false then
    return some (.typeName (← known .missing next).text)
  else if t.isOneOf ["event", "error", "struct", "enum", "using"] then return none
  else return (← stateVariable statement).map .stateVariable

/-- The type `name` that the keyword `t` at `i` declares, and the position behind its braces or statement. -/
def typeAt (t : Token) (name : String) (ts : List Token) (i : Int) : Attempt (Option Member × Int) := do
  if ← test (i + 2 < ts.length) ts (i + 2) (·.opens .brace) then
    let close ← closing ts (i + 2)
    if close = -1 then refuse (.unbalancedType t.text name t.line)
    else return (some (.typeName name), close + 1)
  else return (some (.typeName name), (← statementStop ts i) + 1)

/-- The member at `i` and the position behind it. -/
def memberAt (ts : List Token) (i : Int) : Attempt (Option Member × Int) := do
  let t ← elementAt ts i
  let next ← peek (i + 1 < ts.length) ts (i + 1)
  if t.isOneOf ["function", "modifier"] ||
      (t.isOneOf ["constructor", "fallback", "receive"] && (next.map (·.opens .paren)).getD false) then
    let (f, j) ← function ts i
    return (some (if t.text == "modifier" then .modifier f else .function f), j)
  else if t.isOneOf ["struct", "enum"] && (next.map (·.isIdent)).getD false then
    typeAt t (← known .missing next).text ts i
  else
    let stop ← statementStop ts i
    return (← statementMember t next (← slice ts i stop), stop + 1)

def memberTurn (ts : List Token) :
    Int × List Member → Attempt (Turn (Int × List Member) (List Member))
  | (i, ms) =>
    if i < ts.length then do
      let (m, j) ← memberAt ts i
      return .again (j, ms ++ m.toList)
    else return .done ms

def members (ts : List Token) : Attempt (List Member) :=
  loop (fun s => ahead ts s.1) (memberTurn ts) (0, [])

section Members

variable {ts before run : List Token} {t : Token} {i : Int}

theorem statement_stands (h : Stands ts i before (t :: run)) :
    ∃ j, statementStop ts i = .ok j ∧
      slice ts i j = .ok ((t :: run).take (statementEnd (t :: run))) ∧
      ∃ before', Stands ts (j + 1) before' (run.drop (statementEnd (t :: run))) := by
  have hne : t :: run ≠ [] := List.cons_ne_nil _ _
  have hlt := statementEnd_lt hne
  have hstop := statementStop_eq h hne
  generalize statementEnd (t :: run) = n at hlt hstop ⊢
  have hcut : Stands ts i before ((t :: run).take n ++ (t :: run).drop n) := by
    rwa [List.take_append_drop]
  have hj := hcut.advance
  rw [List.length_take_of_le (Nat.le_of_lt hlt)] at hj
  refine ⟨i + n, hstop, hcut.slice_eq hj, ?_⟩
  rw [List.drop_eq_getElem_cons hlt] at hj
  exact ⟨_, hj.next⟩

theorem statementMember_eq (statement : List Token)
    (hn : (t.isOneOf ["struct", "enum"] && (run.head?.map (·.isIdent)).getD false) = false) :
    statementMember t run.head? statement = .ok (Member.ofStatement? t run statement) := by
  have htype : t.isOneOf ["type", "struct", "enum"] =
      (t.isOneOf ["type"] || t.isOneOf ["struct", "enum"]) := by
    simp [Token.isOneOf, Bool.and_or_distrib_left]
  unfold statementMember Member.ofStatement?
  rw [htype, stateVariable_eq]
  cases run with
  | nil => cases hs : t.isOneOf ["event", "error", "struct", "enum", "using"] <;> simp [Member.nameAfter?]
  | cons name run =>
    cases hname : name.isIdent with
    | false =>
      cases hs : t.isOneOf ["event", "error", "struct", "enum", "using"] <;> simp [Member.nameAfter?, hname]
    | true =>
      have hstruct : t.isOneOf ["struct", "enum"] = false := by simpa [hname] using hn
      cases ht : t.isOneOf ["type"] <;>
        cases hs : t.isOneOf ["event", "error", "struct", "enum", "using"] <;>
          simp [Member.nameAfter?, hname, hstruct]

/-- A member is read as a statement unless it is a function or a type with braces. -/
theorem next_of_statement (hf : Member.startsFunction t run = false)
    (hb : t.isOneOf ["struct", "enum"] = true → ∀ name p rest, run = name :: p :: rest →
      (name.isIdent && p.opens .brace) = false) :
    Member.next t run = .ok (Member.ofStatement? t run ((t :: run).take (statementEnd (t :: run))),
      run.drop (statementEnd (t :: run))) := by
  unfold Member.next
  simp only [hf, Bool.false_eq_true, ↓reduceIte]
  split
  · rename_i name p rest hs
    simp only [hb hs name p rest rfl, Bool.false_eq_true, ↓reduceIte]
    rfl
  · rfl

theorem typeAt_reads {name : Token} (hf : Member.startsFunction t (name :: run) = false)
    (hs : t.isOneOf ["struct", "enum"] = true) (hname : name.isIdent = true)
    (h : Stands ts i before (t :: name :: run)) :
    Reads ts (typeAt t name.text ts i) (Member.next t (name :: run)) := by
  have htwo : Stands ts (i + 2) (name :: t :: before) run := h.next_next
  unfold typeAt
  rw [htwo.test_eq, ok_bind]
  cases hb : (run.head?.map (·.opens .brace)).getD false with
  | false =>
    obtain ⟨j, hstop, -, before', hj⟩ := statement_stands h
    have htype : t.isOneOf ["type", "struct", "enum"] = true := by
      simp only [Token.isOneOf, Bool.and_eq_true] at hs ⊢
      exact ⟨hs.1, by simpa using .inr (by simpa using hs.2)⟩
    rw [next_of_statement hf]
    · simp only [hstop, ok_bind, Bool.false_eq_true, ↓reduceIte, pure_eq, Member.ofStatement?, htype,
        Member.nameAfter?, hname, Option.isSome_some, Bool.and_self, Option.map_some]
      exact .read hj
    · rintro - _ p rest ⟨rfl, rfl⟩
      have hp : p.opens .brace = false := hb
      simp [hp]
  | true =>
    cases run with
    | nil => cases hb
    | cons p rest =>
      have ho : p.opens .brace = true := hb
      unfold Member.next
      simp only [hf, hs, hname, ho, Bool.and_self, Bool.false_eq_true, ↓reduceIte]
      cases he : Bracket.brace.enclosed? rest with
      | none =>
        simp only [closing_of_none htwo ho he, ok_bind, ↓reduceIte]
        exact .refused _
      | some e =>
        obtain ⟨j, hclose, hj⟩ := closing_of_some htwo ho he
        simp only [hclose, ok_bind, hj.ne_none, ↓reduceIte, pure_eq]
        exact .read hj.next

theorem memberAt_reads (h : Stands ts i before (t :: run)) :
    Reads ts (memberAt ts i) (Member.next t run) := by
  have hnext := h.next.peek_eq
  cases hf : Member.startsFunction t run with
  | true =>
    have hread := function_reads (Member.isIdent_of_startsFunction hf) h
    unfold memberAt Member.next
    simp only [h.elementAt_eq, hnext, ok_bind, hf, ↓reduceIte]
    unfold Member.startsFunction at hf
    simp only [hf, ↓reduceIte]
    generalize RawFunction.ofTokens t run = o, function ts i = r at hread
    cases hread with
    | refused e => exact .refused e
    | read hj => exact .read hj
  | false =>
    have hstarts := hf
    unfold Member.startsFunction at hstarts
    unfold memberAt
    simp only [h.elementAt_eq, hnext, ok_bind, hstarts, Bool.false_eq_true, ↓reduceIte]
    cases hs : t.isOneOf ["struct", "enum"] && (run.head?.map (·.isIdent)).getD false with
    | false =>
      obtain ⟨j, hstop, hslice, before', hj⟩ := statement_stands h
      rw [next_of_statement hf]
      · simp only [hstop, ok_bind, hslice, statementMember_eq _ hs, Bool.false_eq_true, ↓reduceIte, pure_eq]
        exact .read hj
      · rintro ht name p rest rfl
        have hname : name.isIdent = false := by simpa [ht] using hs
        simp [hname]
    | true =>
      rw [Bool.and_eq_true] at hs
      cases run with
      | nil => cases hs.2
      | cons name run => exact typeAt_reads hf hs.1 hs.2 h

theorem members_eq (ts : List Token) : members ts = (Member.ofTokens ts).mapError .refused := by
  have hloop : members ts = ((Member.ofTokens ts).map ([] ++ ·)).mapError .refused := by
    refine loop_spec
      (fun (k : List Member × List Token) s => s.2 = k.1 ∧ ∃ before, Stands ts s.1 before k.2)
      (fun k r => r = ((Member.ofTokens k.2).map (k.1 ++ ·)).mapError .refused)
      ?_ ([], ts) ⟨rfl, [], .start ts⟩
    rintro ⟨_, run⟩ ⟨i, ms⟩ ⟨rfl, before, h⟩
    simp only at h
    cases run with
    | nil =>
      exact .done ms (by simp [memberTurn, h.not_lt]) (by simp [Member.ofTokens, Except.map, Except.mapError])
    | cons t run =>
      have hread := memberAt_reads h
      cases hn : Member.next t run with
      | error e =>
        rw [hn] at hread
        refine .failed (.refused e) (by simp [memberTurn, h.lt, hread.of_error]) ?_
        simp [Member.ofTokens_cons, hn, Except.map, Except.mapError]
      | ok p =>
        obtain ⟨m, rest⟩ := p
        rw [hn] at hread
        obtain ⟨j, before', hat, hj⟩ := hread.of_ok
        refine .again (j, ms ++ m.toList) (ms ++ m.toList, rest) ?_ (h.ahead_lt hj ?_) ⟨rfl, before', hj⟩
          fun r hr => ?_
        · simp [memberTurn, h.lt, hat]
        · exact Nat.lt_succ_of_le (Member.length_next hn)
        · rw [hr]
          simp only [Member.ofTokens_cons, hn]
          cases Member.ofTokens rest <;> simp [Except.map, Except.mapError]
  rw [hloop]
  cases Member.ofTokens ts <;> rfl

end Members

/-! ## Specifiers -/

def addSpecifier (s : Specifiers) (t : Token) : Attempt Specifiers :=
  if t.isIdent then
    if (Visibility.ofWord? t.text).isSome then do
      return { s with visibility := ← known .missing (Visibility.ofWord? t.text) }
    else
      match Mutability.ofWord? t.text with
      | some m => return { s with mutability := m }
      | none =>
        if ["virtual", "override", "returns"].contains t.text then return s
        else return { s with modifiers := s.modifiers ++ [t.text] }
  else return s

def readTurn (ts : List Token) : Int × Specifiers → Attempt (Turn (Int × Specifiers) Specifiers)
  | (i, s) =>
    if i < ts.length then do
      let t ← elementAt ts i
      let hasArguments ← test (i + 1 < ts.length) ts (i + 1) (·.opens .paren)
      let s ← addSpecifier s t
      if hasArguments then
        let close ← closing ts (i + 1)
        if close = -1 then return .done s else return .again (close + 1, s)
      else return .again (i + 1, s)
    else return .done s

def readSpecifiers (s : Specifiers) (ts : List Token) : Attempt Specifiers :=
  loop (fun s => ahead ts s.1) (readTurn ts) (0, s)

theorem addSpecifier_eq (s : Specifiers) (t : Token) : addSpecifier s t = .ok (s.add t) := by
  unfold addSpecifier Specifiers.add
  cases t.isIdent with
  | false => rfl
  | true =>
    cases hv : Visibility.ofWord? t.text with
    | some v => simp [known]
    | none =>
      cases hm : Mutability.ofWord? t.text with
      | some m => simp
      | none =>
        simp only [Option.isSome_none, Bool.false_eq_true, ↓reduceIte, Bool.not_true]
        split <;> rfl

theorem readSpecifiers_eq (s : Specifiers) (ts : List Token) : readSpecifiers s ts = .ok (s.read ts) := by
  refine loop_spec
    (fun (k : Specifiers × List Token) s => s.2 = k.1 ∧ ∃ before, Stands ts s.1 before k.2)
    (fun k r => r = .ok (k.1.read k.2)) ?_ (s, ts) ⟨rfl, [], .start ts⟩
  rintro ⟨_, run⟩ ⟨i, s⟩ ⟨rfl, before, h⟩
  simp only at h
  rcases run with _ | ⟨t, _ | ⟨p, run⟩⟩
  · exact .done s (by simp [readTurn, h.not_lt]) (by simp [Specifiers.read])
  · have htest := h.next.test_eq (·.opens .paren)
    refine .again (i + 1, s.add t) (s.add t, []) ?_ (ahead_next h) ⟨rfl, _, h.next⟩ fun r hr => ?_
    · simp [readTurn, h.lt, h.elementAt_eq, htest, addSpecifier_eq]
    · simpa [Specifiers.read] using hr
  · have htest := h.next.test_eq (·.opens .paren)
    cases ho : p.opens .paren with
    | false =>
      refine .again (i + 1, s.add t) (s.add t, p :: run) ?_ (ahead_next h) ⟨rfl, _, h.next⟩ fun r hr => ?_
      · simp [readTurn, h.lt, h.elementAt_eq, htest, addSpecifier_eq, ho]
      · simpa [Specifiers.read_cons_cons, ho] using hr
    | true =>
      cases he : Bracket.paren.enclosed? run with
      | none =>
        refine .done (s.add t) ?_ (by simp [Specifiers.read_cons_cons, ho, he])
        simp [readTurn, h.lt, h.elementAt_eq, htest, addSpecifier_eq, ho, closing_of_none h.next ho he]
      | some e =>
        obtain ⟨j, hclose, hj⟩ := closing_of_some h.next ho he
        refine .again (j + 1, s.add t) (s.add t, e.rest) ?_ ((ahead_close h.next he hj).trans (ahead_next h))
          ⟨rfl, _, hj.next⟩ fun r hr => ?_
        · simp [readTurn, h.lt, h.elementAt_eq, htest, addSpecifier_eq, ho, hclose, hj.ne_none]
        · simpa [Specifiers.read_cons_cons, ho, he] using hr

end ContractAudit.Position
