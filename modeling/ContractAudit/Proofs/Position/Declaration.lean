import ContractAudit.Proofs.Contract.Reading
import ContractAudit.Proofs.Position.Bracket

/-!
# Declarations by position

Type expressions, typed names, statements and state variables.
-/

namespace ContractAudit.Position

open Attempt

/-! ## Type expressions -/

def qualifierTurn (ts : List Token) (i : Int) : Attempt (Turn Int Int) := do
  if ← test (i + 1 < ts.length) ts i (·.isPunct ".") then
    if (← elementAt ts (i + 1)).isIdent then return .again (i + 2) else return .done i
  else return .done i

/-- The position behind the `.name` parts at `i`. -/
def qualifiersEnd (ts : List Token) (i : Int) : Attempt Int := loop (ahead ts) (qualifierTurn ts) i

def subscriptTurn (ts : List Token) (i : Int) : Attempt (Turn Int Int) := do
  if ← test (i < ts.length) ts i (·.opens .square) then
    let close ← closing ts i
    if close = -1 then return .done (-1) else return .again (close + 1)
  else return .done i

/-- The position behind the subscripts at `i`. -/
def subscriptsEnd (ts : List Token) (i : Int) : Attempt Int := loop (ahead ts) (subscriptTurn ts) i

/-- The position behind the parts at `i` that follow the name `t`, with `payable` after an address. -/
def nameEnd (t : Token) (ts : List Token) (i : Int) : Attempt Int := do
  let stop ← qualifiersEnd ts i
  if ← test (t.text == "address" && stop < ts.length) ts stop (·.isName "payable") then return stop + 1
  else return stop

/-- The position behind the type expression at `i`. -/
def typeEnd (ts : List Token) (i : Int) : Attempt Int := do
  if ← test (i < ts.length) ts i (·.isIdent) then
    let t ← elementAt ts i
    if t.text == "mapping" then
      if ← test (i + 1 < ts.length) ts (i + 1) (·.opens .paren) then
        let close ← closing ts (i + 1)
        if close = -1 then return -1 else subscriptsEnd ts (close + 1)
      else return -1
    else
      let stop ← nameEnd t ts (i + 1)
      subscriptsEnd ts stop
  else return -1

section Types

variable {ts before run : List Token} {i : Int}

theorem qualifiersEnd_finds (h : Stands ts i before run) :
    Finds ts before (qualifiersEnd ts i) (some (splitQualifiers run)) := by
  refine loop_spec (fun (k : List Token × List Token) s => Stands ts s k.1 k.2)
    (fun k r => Finds ts k.1 r (some (splitQualifiers k.2))) ?_ (before, run) h
  rintro ⟨before, run⟩ i h
  simp only at h
  rcases run with _ | ⟨dot, _ | ⟨name, rest⟩⟩
  · have hi : ¬ i + 1 < ts.length := h.not_add_lt (n := 1) (Nat.zero_le _)
    exact .done i (by simp [qualifierTurn, hi]) (finds_some.mpr ⟨i, rfl, h⟩)
  · exact .done i (by simp [qualifierTurn, h.next.not_lt]) (finds_some.mpr ⟨i, rfl, h⟩)
  · have htest : test (i + 1 < ts.length) ts i (·.isPunct ".") = .ok (dot.isPunct ".") :=
      h.test_of_guard (by simp [h.next.lt]) _
    cases hq : dot.isPunct "." && name.isIdent with
    | false =>
      refine .done i ?_ (finds_some.mpr ⟨i, rfl, by simpa [splitQualifiers, hq] using h⟩)
      simp only [qualifierTurn, htest, ok_bind, h.next.elementAt_eq]
      cases hdot : dot.isPunct "." with
      | false => simp
      | true => simpa [hdot] using hq
    | true =>
      have hnext := h.next_next
      refine .again (i + 2) (name :: dot :: before, rest) ?_ (h.ahead_lt hnext ?_) hnext fun r hr => ?_
      · rw [Bool.and_eq_true] at hq
        simp [qualifierTurn, htest, hq, h.next.elementAt_eq]
      · simp only [List.length_cons]
        omega
      · obtain ⟨j, rfl, hj⟩ := finds_some.mp hr
        exact finds_some.mpr ⟨j, rfl, by simpa [splitQualifiers, hq] using hj⟩

theorem subscriptsEnd_finds (h : Stands ts i before run) :
    Finds ts before (subscriptsEnd ts i) (splitSubscripts run) := by
  refine loop_spec (fun (k : List Token × List Token) s => Stands ts s k.1 k.2)
    (fun k r => Finds ts k.1 r (splitSubscripts k.2)) ?_ (before, run) h
  rintro ⟨before, run⟩ i h
  simp only at h
  have htest := h.test_eq (·.opens .square)
  cases run with
  | nil =>
    refine .done i (by simp [subscriptTurn, htest]) ?_
    simp only [splitSubscripts]
    exact finds_some.mpr ⟨i, rfl, h⟩
  | cons t rest =>
    cases ho : t.opens .square with
    | false =>
      refine .done i (by simp [subscriptTurn, htest, ho]) ?_
      simp only [splitSubscripts_cons, ho, Bool.false_eq_true, ↓reduceIte]
      exact finds_some.mpr ⟨i, rfl, h⟩
    | true =>
      cases he : Bracket.square.enclosed? rest with
      | none =>
        refine .done (-1) (by simp [subscriptTurn, htest, ho, closing_of_none h ho he]) ?_
        simp [splitSubscripts_cons, ho, he, Finds]
      | some e =>
        obtain ⟨j, hclose, hj⟩ := closing_of_some h ho he
        refine .again (j + 1) (e.close :: (e.inner.reverse ++ t :: before), e.rest) ?_
          (ahead_close h he hj) hj.next fun r hr => ?_
        · simp [subscriptTurn, htest, ho, hclose, hj.ne_none]
        · simp only [splitSubscripts_cons, ho, he, ↓reduceIte, Option.bind_some]
          have hfront : Finds ts before r
              ((splitSubscripts e.rest).map fun p => ((t :: e.inner ++ [e.close]) ++ p.1, p.2)) :=
            (finds_map _).mpr (by simpa using hr)
          simpa using hfront

/-- The parts that follow the name `t` of a type. -/
def splitNameTail (t : Token) (run : List Token) : List Token × List Token :=
  let qualifiers := splitQualifiers run
  let payable := if t.text == "address" then splitPayable qualifiers.2 else ([], qualifiers.2)
  (qualifiers.1 ++ payable.1, payable.2)

theorem splitType?_name {t : Token} (rest : List Token) (ht : t.isIdent = true)
    (hm : t.text ≠ "mapping") :
    splitType? (t :: rest) = (splitSubscripts (splitNameTail t rest).2).map fun p =>
      (t :: (splitNameTail t rest).1 ++ p.1, p.2) := by
  rw [splitType?.eq_def]
  simp only [ht, beq_eq_false_iff_ne.mpr hm, Bool.not_true, Bool.false_eq_true, ↓reduceIte, splitNameTail]
  generalize splitSubscripts _ = o
  cases o <;> simp

theorem splitType?_mapping {t p : Token} (rest : List Token) (ht : t.isIdent = true)
    (hm : t.text = "mapping") (hp : p.opens .paren = true) :
    splitType? (t :: p :: rest) = (Bracket.paren.enclosed? rest).bind fun e =>
      (splitSubscripts e.rest).map fun q => (t :: p :: e.inner ++ [e.close] ++ q.1, q.2) := by
  rw [splitType?.eq_def]
  simp only [ht, hm, hp, beq_self_eq_true, Bool.not_true, Bool.false_eq_true, ↓reduceIte]
  cases Bracket.paren.enclosed? rest with
  | none => rfl
  | some e =>
    simp only [Option.bind_eq_bind, Option.bind_some]
    cases splitSubscripts e.rest <;> simp

theorem nameEnd_finds (t : Token) (h : Stands ts i before run) :
    Finds ts before (nameEnd t ts i) (some (splitNameTail t run)) := by
  obtain ⟨j, hq, hj⟩ := finds_some.mp (qualifiersEnd_finds h)
  rw [nameEnd, hq, ok_bind]
  cases ha : t.text == "address" with
  | false =>
    simp only [Bool.false_and, test_false, ok_bind, Bool.false_eq_true, ↓reduceIte]
    exact finds_some.mpr ⟨j, rfl, by simpa [splitNameTail, ha] using hj⟩
  | true =>
    simp only [Bool.true_and, hj.test_eq, ok_bind]
    cases hrest : (splitQualifiers run).2 with
    | nil => exact finds_some.mpr ⟨j, rfl, by simpa [splitNameTail, ha, hrest, splitPayable] using hj⟩
    | cons x rest =>
      rw [hrest] at hj
      cases hx : x.isName "payable" with
      | false =>
        simp only [List.head?_cons, Option.map_some, Option.getD_some, hx, Bool.false_eq_true, ↓reduceIte]
        exact finds_some.mpr ⟨j, rfl, by simpa [splitNameTail, ha, hrest, splitPayable, hx] using hj⟩
      | true =>
        simp only [List.head?_cons, Option.map_some, Option.getD_some, hx, ↓reduceIte]
        exact finds_some.mpr ⟨j + 1, rfl, by simpa [splitNameTail, ha, hrest, splitPayable, hx] using hj.next⟩

theorem typeEnd_finds (h : Stands ts i before run) : Finds ts before (typeEnd ts i) (splitType? run) := by
  have htest := h.test_eq (·.isIdent)
  cases run with
  | nil => simp [typeEnd, htest, splitType?, Finds]
  | cons t rest =>
    cases ht : t.isIdent with
    | false => simp [typeEnd, htest, ht, splitType?, Finds]
    | true =>
      by_cases hm : t.text = "mapping"
      · have hparen := h.next.test_eq (·.opens .paren)
        cases rest with
        | nil => simp [typeEnd, htest, h.elementAt_eq, ht, hm, hparen, splitType?, Finds]
        | cons p rest =>
          cases hp : p.opens .paren with
          | false => simp [typeEnd, htest, h.elementAt_eq, ht, hm, hparen, hp, splitType?, Finds]
          | true =>
            rw [splitType?_mapping rest ht hm hp]
            cases he : Bracket.paren.enclosed? rest with
            | none =>
              simp [typeEnd, htest, h.elementAt_eq, ht, hm, hparen, hp, closing_of_none h.next hp he, Finds]
            | some e =>
              obtain ⟨j, hclose, hj⟩ := closing_of_some h.next hp he
              have hend : typeEnd ts i = subscriptsEnd ts (j + 1) := by
                simp [typeEnd, htest, h.elementAt_eq, ht, hm, hparen, hp, hclose, hj.ne_none]
              rw [hend, Option.bind_some]
              exact (finds_map _).mpr (by simpa using subscriptsEnd_finds hj.next)
      · obtain ⟨j, hname, hj⟩ := finds_some.mp (nameEnd_finds t h.next)
        have hend : typeEnd ts i = subscriptsEnd ts j := by
          simp [typeEnd, htest, h.elementAt_eq, ht, hm, hname]
        rw [splitType?_name rest ht hm, hend]
        exact (finds_map _).mpr (by simpa using subscriptsEnd_finds hj)

end Types

/-! ## Typed names -/

/-- The last of the names, or nothing. -/
def lastName (names : List String) : Attempt String :=
  if names.isEmpty then return "" else last names

def typedName (specifiers : List String) (ts : List Token) : Attempt (Option TypedName) := do
  let stop ← typeEnd ts 0
  if stop = -1 then return none
  else
    let words := topWords 0 (← slice ts stop ts.length)
    let name ← lastName (words.filter (! specifiers.contains ·))
    return some ⟨Token.render (← slice ts 0 stop), name, words⟩

def parameters (ts : List Token) : Attempt (List Parameter) := do
  let names ← (← split "," ts).mapM (typedName locationWords)
  return names.filterMap fun name => name.map fun p => ⟨p.name, p.type⟩

theorem lastName_eq (names : List String) : lastName names = .ok (names.getLast?.getD "") := by
  cases hn : names.getLast? with
  | none => simp [lastName, List.getLast?_eq_none_iff.mp hn]
  | some name =>
    have hne : names ≠ [] := fun h => by simp [h] at hn
    simp [lastName, last, hn, hne]

theorem typedName_eq (specifiers : List String) (ts : List Token) :
    typedName specifiers ts = .ok (TypedName.ofTokens? specifiers ts) := by
  have hfinds := typeEnd_finds (Stands.start ts)
  unfold typedName TypedName.ofTokens?
  cases hs : splitType? ts with
  | none =>
    rw [hs] at hfinds
    rw [show typeEnd ts 0 = .ok (-1) from hfinds]
    rfl
  | some p =>
    obtain ⟨type, rest⟩ := p
    rw [hs] at hfinds
    obtain ⟨j, htype, hj⟩ := finds_some.mp hfinds
    simp only [htype, ok_bind, hj.ne_none, ↓reduceIte, hj.slice_rest, lastName_eq,
      (Stands.start ts).slice_eq hj]
    rfl

theorem parameters_eq (ts : List Token) : parameters ts = .ok (Parameter.ofTokens ts) := by
  rw [parameters, split_eq, ok_bind, mapM_eq fun part _ => typedName_eq locationWords part, ok_bind,
    List.filterMap_map]
  rfl

/-! ## Statements -/

def statementTurn (ts : List Token) : Int × Int → Attempt (Turn (Int × Int) Int)
  | (i, depth) =>
    if i < ts.length then do
      let t ← elementAt ts i
      if t.opener?.isSome then return .again (i + 1, depth + 1)
      else if t.closer?.isSome then
        if depth - 1 < 0 then return .done i else return .again (i + 1, depth - 1)
      else if t.isPunct ";" && depth == 0 then return .done i
      else return .again (i + 1, depth)
    else return .done (ts.length - 1)

/-- Where the statement at `i` ends. -/
def statementStop (ts : List Token) (i : Int) : Attempt Int :=
  loop (fun s => ahead ts s.1) (statementTurn ts) (i, 0)

/-- The position that belongs to the end of a statement, counted from behind `before`. -/
def stopAt (ts before : List Token) : Option Nat → Int
  | some n => before.length + n
  | none => ts.length - 1

theorem loop_statement {ts before run : List Token} {i : Int} {d : Nat} (h : Stands ts i before run) :
    loop (fun s => ahead ts s.1) (statementTurn ts) (i, (d : Int)) =
      .ok (stopAt ts before (statementEnd? d run)) := by
  refine loop_spec
    (fun (k : Nat × List Token × List Token) s => Stands ts s.1 k.2.1 k.2.2 ∧ s.2 = (k.1 : Int))
    (fun k r => r = .ok (stopAt ts k.2.1 (statementEnd? k.1 k.2.2))) ?_ (d, before, run) ⟨h, rfl⟩
  rintro ⟨d, before, run⟩ ⟨i, depth⟩ ⟨h, hd⟩
  simp only at h hd
  subst hd
  cases run with
  | nil => exact .done (ts.length - 1) (by simp [statementTurn, h.not_lt]) rfl
  | cons t rest =>
    -- A token inside the statement moves its end by one, in the run and in the list alike.
    have hpass : ∀ d', statementEnd? d (t :: rest) = (statementEnd? d' rest).map (· + 1) →
        ∀ r : Attempt Int, r = .ok (stopAt ts (t :: before) (statementEnd? d' rest)) →
          r = .ok (stopAt ts before (statementEnd? d (t :: rest))) := by
      intro d' hd' r hr
      rw [hr, hd']
      cases statementEnd? d' rest with
      | none => rfl
      | some n =>
        simp only [stopAt, Option.map_some, List.length_cons, Except.ok.injEq]
        omega
    have hend : statementEnd? d (t :: rest) = some 0 →
        (.ok i : Attempt Int) = .ok (stopAt ts before (statementEnd? d (t :: rest))) := by
      intro hd'
      rw [hd', h.position]
      simp [stopAt]
    cases ho : t.opener?.isSome with
    | true =>
      refine .again (i + 1, (d : Int) + 1) (d + 1, t :: before, rest) ?_ (ahead_next h)
        ⟨h.next, by simp⟩ (hpass (d + 1) ?_)
      · simp [statementTurn, h.lt, h.elementAt_eq, ho]
      · simp [statementEnd?, ho]
    | false =>
      cases hc : t.closer?.isSome with
      | true =>
        cases d with
        | zero =>
          exact .done i (by simp [statementTurn, h.lt, h.elementAt_eq, ho, hc])
            (hend (by simp [statementEnd?, ho, hc]))
        | succ d =>
          refine .again (i + 1, (d : Int)) (d, t :: before, rest) ?_ (ahead_next h) ⟨h.next, rfl⟩
            (hpass d (by simp [statementEnd?, ho, hc]))
          simp [statementTurn, h.lt, h.elementAt_eq, ho, hc]
      | false =>
        by_cases hs : t.isPunct ";" = true ∧ d = 0
        · exact .done i (by simp [statementTurn, h.lt, h.elementAt_eq, ho, hc, hs])
            (hend (by simp [statementEnd?, ho, hc, hs]))
        · refine .again (i + 1, (d : Int)) (d, t :: before, rest) ?_ (ahead_next h) ⟨h.next, rfl⟩
            (hpass d ?_)
          · simp [statementTurn, h.lt, h.elementAt_eq, ho, hc, hs]
          · simp [statementEnd?, ho, hc, hs]

theorem statementStop_eq {ts before run : List Token} {i : Int} (h : Stands ts i before run)
    (hne : run ≠ []) : statementStop ts i = .ok (i + statementEnd run) := by
  have hloop := loop_statement (d := 0) h
  have hlength := h.length
  have hpos := List.length_pos_iff.mpr hne
  rw [statementStop, show (0 : Int) = ((0 : Nat) : Int) from rfl, hloop, h.position, statementEnd]
  cases statementEnd? 0 run with
  | none =>
    simp only [stopAt, Option.getD_none, Except.ok.injEq]
    have := h.position
    omega
  | some n => rfl

theorem statementEnd?_lt {d n : Nat} {run : List Token} (h : statementEnd? d run = some n) :
    n < run.length := by
  fun_induction statementEnd? d run generalizing n with
  | case1 => cases h
  | case2 d t ts _ ih =>
    obtain ⟨m, hm, rfl⟩ := Option.map_eq_some_iff.mp h
    exact Nat.succ_lt_succ (ih hm)
  | case3 =>
    cases h
    simp
  | case4 t ts _ _ d ih =>
    obtain ⟨m, hm, rfl⟩ := Option.map_eq_some_iff.mp h
    exact Nat.succ_lt_succ (ih hm)
  | case5 =>
    cases h
    simp
  | case6 d t ts _ _ _ ih =>
    obtain ⟨m, hm, rfl⟩ := Option.map_eq_some_iff.mp h
    exact Nat.succ_lt_succ (ih hm)

theorem statementEnd_lt {run : List Token} (hne : run ≠ []) : statementEnd run < run.length := by
  have hpos := List.length_pos_iff.mpr hne
  unfold statementEnd
  cases hn : statementEnd? 0 run with
  | none =>
    simp only [Option.getD_none]
    omega
  | some n => exact statementEnd?_lt hn

/-! ## State variables -/

/-- The parts of a statement on either side of its first `=`. -/
def splitEquals (statement : List Token) : Attempt (List Token × List Token) :=
  match statement.findIdx? (·.isOperator "=") with
  | some j => do return (← slice statement 0 j, ← slice statement (j + 1) statement.length)
  | none => return (statement, [])

def visibilityOf (words : List String) : Attempt Visibility :=
  match words.find? fun w => (Visibility.ofWord? w).isSome with
  | some w => known .missing (Visibility.ofWord? w)
  | none => return .internal

def stateVariable (statement : List Token) : Attempt (Option StateVariable) := do
  if statement.isEmpty then return none
  else
    let (declared, value) ← splitEquals statement
    match ← typedName variableSpecifiers declared with
    | none => return none
    | some typed =>
      if typed.name.isEmpty then return none
      else
        return some {
          name := typed.name
          declaredType := typed.type
          visibility := ← visibilityOf typed.words
          isConstant := typed.words.contains "constant"
          isImmutable := typed.words.contains "immutable"
          initialValue := Token.render value
          line := (← elementAt statement 0).line }

theorem splitEquals_eq (statement : List Token) :
    splitEquals statement = .ok (statement.takeWhile (! ·.isOperator "="),
      (statement.dropWhile (! ·.isOperator "=")).drop 1) := by
  rw [List.takeWhile_eq_take_findIdx_not, List.dropWhile_eq_drop_findIdx_not, splitEquals]
  simp only [Bool.not_not]
  cases hj : statement.findIdx? (·.isOperator "=") with
  | none =>
    have hlength := List.findIdx_eq_length.mpr (List.findIdx?_eq_none_iff.mp hj)
    simp [hlength]
  | some j =>
    obtain ⟨-, rfl⟩ := List.findIdx?_eq_some_iff_findIdx_eq.mp hj
    have hvalue := slice_natCast statement (statement.findIdx (·.isOperator "=") + 1) statement.length
    simp only [Int.natCast_add, Int.cast_ofNat_Int, List.take_length] at hvalue
    have hfront := slice_natCast statement 0 (statement.findIdx (·.isOperator "="))
    simp only [Int.cast_ofNat_Int, List.drop_zero] at hfront
    simp [hfront, hvalue]

theorem visibilityOf_eq (words : List String) :
    visibilityOf words = .ok ((words.findSome? Visibility.ofWord?).getD .internal) := by
  induction words with
  | nil => rfl
  | cons w words ih =>
    unfold visibilityOf at ih ⊢
    cases hw : Visibility.ofWord? w with
    | none => simpa [hw] using ih
    | some v => simp [hw]

theorem stateVariable_eq (statement : List Token) :
    stateVariable statement = .ok (StateVariable.ofTokens? statement) := by
  unfold stateVariable StateVariable.ofTokens?
  cases statement with
  | nil => rfl
  | cons first rest =>
    simp only [splitEquals_eq, ok_bind, typedName_eq, visibilityOf_eq,
      (Stands.start (first :: rest)).elementAt_eq]
    cases TypedName.ofTokens? variableSpecifiers _ with
    | none => rfl
    | some typed => by_cases hn : typed.name = "" <;> simp [hn]

end ContractAudit.Position
