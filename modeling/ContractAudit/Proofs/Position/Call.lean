import ContractAudit.Proofs.Position.Declaration
import ContractAudit.Proofs.Position.Worded
import ContractAudit.Proofs.Token.Order

/-!
# Calls by position

The search for a receiver walks from a dot to the left, the search for the arguments of a call to the right.
-/

namespace ContractAudit.Position

open Attempt

/-! ## Receivers -/

def receiverTurn (ts : List Token) (j : Int) : Attempt (Turn Int (Option Int)) := do
  if 0 ≤ j then
    let t ← elementAt ts j
    if t.receiverEnd?.isSome then
      let start ← opening ts j
      if start = -1 then return .done none
      else if ← test (0 < start) ts (start - 1) (·.isIdent) then return .again (start - 1)
      else return .done (some start)
    else if t.isIdent then
      if ← test (2 ≤ j) ts (j - 1) (·.isPunct ".") then return .again (j - 2) else return .done (some j)
    else return .done none
  else return .done none

/-- Where the receiver in front of the dot at `dot` starts. -/
def receiverStart (ts : List Token) (dot : Int) : Attempt (Option Int) :=
  loop (fun j => (j + 1).toNat) (receiverTurn ts) (dot - 1)

/-- The position that the search for a receiver gives: that of the furthest of its `n` tokens. -/
inductive FindsStart (ts before after : List Token) : Attempt (Option Int) → Option Nat → Prop where
  | none : FindsStart ts before after (.ok none) none
  | some {j : Int} {n : Nat} (h : Stands ts j (before.drop n) ((before.take n).reverse ++ after)) :
      FindsStart ts before after (.ok (some j)) (some n)

theorem FindsStart.map {ts before after : List Token} {r : Attempt (Option Int)} {o : Option Nat} {m : Nat}
    (front : List Token) (hm : m = front.length) (h : FindsStart ts before (front.reverse ++ after) r o) :
    FindsStart ts (front ++ before) after r (o.map (· + m)) := by
  subst hm
  cases h with
  | none => exact .none
  | @some j n h =>
    refine .some ?_
    simp only
    rw [Nat.add_comm, List.drop_length_add_append, List.take_length_add_append, List.reverse_append,
      List.append_assoc]
    exact h

theorem closes_of_receiverEnd? {t : Token} {b : Bracket} (h : t.receiverEnd? = some b) :
    t.closes b = true := by
  unfold Token.receiverEnd? at h
  split at h
  · cases h
    assumption
  · split at h
    · cases h
      assumption
    · cases h

section Receivers

variable {ts before after : List Token} {t : Token} {j : Int}

/-- One turn of the search from `j` on, where `k` holds the tokens up to `j` and those behind it. -/
abbrev ReceiverLeads (ts : List Token) (k : List Token × List Token) (j : Int) : Prop :=
  Leads (fun j => (j + 1).toNat) (receiverTurn ts)
    (fun (k : List Token × List Token) j => Stands ts (j + 1) k.1 k.2)
    (fun k r => FindsStart ts k.1 k.2 r (receiverLength k.1)) k j

theorem receiverTurn_bracket {b : Bracket} (h : Stands ts j before (t :: after))
    (hend : t.receiverEnd? = some b) : ReceiverLeads ts (t :: before, after) j := by
  have hc := closes_of_receiverEnd? hend
  have hj := h.nonneg
  have hfinds := opening_finds h hc
  have hlength := receiverLength_cons t before
  simp only [hend] at hlength
  cases he : b.enclosedBack? before with
  | none =>
    rw [he] at hfinds hlength
    refine .done none ?_ (hlength ▸ .none)
    simp [receiverTurn, hj, h.elementAt_eq, hend, show opening ts j = .ok (-1) from hfinds]
  | some e =>
    rw [he] at hfinds hlength
    obtain ⟨start, hopen, hstart⟩ := hfinds
    have htest := hstart.test_back (·.isIdent)
    -- The tokens of the bracket, from right to left.
    have hfront : t :: before = (t :: e.inner ++ [e.close]) ++ e.rest := by
      simp [← Enclosed.run_of_find? he]
    have hinner : e.inner.length + 2 = (t :: e.inner ++ [e.close]).length := by simp
    cases hname : (e.rest.head?.map (·.isIdent)).getD false with
    | false =>
      simp only [Option.bind_some, hname, Bool.false_eq_true, ↓reduceIte] at hlength
      refine .done (some start) ?_ (hlength ▸ .some ?_)
      · simp [receiverTurn, hj, h.elementAt_eq, hend, hopen, hstart.ne_none, htest, hname]
      · rw [hfront, hinner, List.drop_left, List.take_left]
        simpa using hstart
    | true =>
      simp only [Option.bind_some, hname, ↓reduceIte] at hlength
      have hnext : Stands ts (start - 1 + 1) e.rest (e.close :: (e.inner.reverse ++ t :: after)) := by
        simpa using hstart
      refine .again (start - 1) (e.rest, _) ?_ ?_ hnext fun r hr => hlength ▸ ?_
      · simp [receiverTurn, hj, h.elementAt_eq, hend, hopen, hstart.ne_none, htest, hname]
      · have hlt := Bracket.enclosedBack?_length he
        have := h.position
        have := hstart.position
        omega
      · rw [hfront]
        exact FindsStart.map _ hinner (by simpa using hr)

theorem receiverTurn_name (h : Stands ts j before (t :: after)) (hend : t.receiverEnd? = none) :
    ReceiverLeads ts (t :: before, after) j := by
  have hj := h.nonneg
  have hlength := receiverLength_cons t before
  simp only [hend] at hlength
  cases ht : t.isIdent with
  | false =>
    simp only [ht, Bool.false_eq_true, ↓reduceIte] at hlength
    exact .done none (by simp [receiverTurn, hj, h.elementAt_eq, hend, ht]) (hlength ▸ .none)
  | true =>
    simp only [ht, ↓reduceIte] at hlength
    have hone : FindsStart ts (t :: before) after (.ok (some j)) (some 1) := .some (by simpa using h)
    -- A name before the dot needs two tokens in front of `t`.
    have hshort : ¬ 2 ≤ j → receiverTurn ts j = .ok (.done (some j)) := by
      intro htwo
      simp [receiverTurn, hj, h.elementAt_eq, hend, ht, htwo]
    rcases before with _ | ⟨dot, _ | ⟨x, more⟩⟩
    · exact .done (some j) (hshort (by simp [h.position])) (hlength ▸ hone)
    · exact .done (some j) (hshort (by simp [h.position])) (hlength ▸ hone)
    · have htwo : 2 ≤ j := by
        have := h.position
        simp only [List.length_cons] at this
        omega
      have htest : test (2 ≤ j) ts (j - 1) (·.isPunct ".") = .ok (dot.isPunct ".") :=
        h.back.test_of_guard (by simp [htwo]) _
      cases hdot : dot.isPunct "." with
      | false =>
        simp only [hdot, Bool.false_eq_true, ↓reduceIte] at hlength
        refine .done (some j) ?_ (hlength ▸ hone)
        simp [receiverTurn, hj, h.elementAt_eq, hend, ht, htest, hdot]
      | true =>
        simp only [hdot, ↓reduceIte] at hlength
        have hnext : Stands ts (j - 2 + 1) (x :: more) (dot :: t :: after) := by
          rw [show j - 2 + 1 = j - 1 by omega]
          exact h.back
        refine .again (j - 2) (x :: more, dot :: t :: after) ?_ (by omega) hnext fun r hr => hlength ▸ ?_
        · simp [receiverTurn, hj, h.elementAt_eq, hend, ht, htest, hdot]
        · exact FindsStart.map [t, dot] rfl hr

theorem receiverStart_finds {dot : Int} (h : Stands ts dot before after) :
    FindsStart ts before after (receiverStart ts dot) (receiverLength before) := by
  refine loop_spec (fun (k : List Token × List Token) j => Stands ts (j + 1) k.1 k.2)
    (fun k r => FindsStart ts k.1 k.2 r (receiverLength k.1)) ?_ (before, after) (by simpa using h)
  rintro ⟨before, after⟩ j h
  cases before with
  | nil =>
    have hj : ¬ 0 ≤ j := by
      have := h.position
      simp at this
      omega
    have hnone : receiverLength [] = none := by rw [receiverLength]
    exact .done none (by simp [receiverTurn, hj]) (hnone ▸ .none)
  | cons t before =>
    have hback : Stands ts j before (t :: after) := by simpa using h.back
    cases hend : t.receiverEnd? with
    | some b => exact receiverTurn_bracket hback hend
    | none => exact receiverTurn_name hback hend

theorem receiverLength_ne_zero {n : Nat} (h : receiverLength before = some n) : n ≠ 0 := by
  cases before with
  | nil => simp [receiverLength] at h
  | cons t before =>
    rw [receiverLength_cons] at h
    split at h
    · obtain ⟨e, -, h⟩ := Option.bind_eq_some_iff.mp h
      split at h
      · obtain ⟨m, -, rfl⟩ := Option.map_eq_some_iff.mp h
        omega
      · cases h
        omega
    · split at h
      · split at h
        · split at h
          · obtain ⟨m, -, rfl⟩ := Option.map_eq_some_iff.mp h
            omega
          · cases h
            omega
        · cases h
          omega
      · cases h

theorem receiver_ne_nil {n : Nat} (h : receiverLength before = some n) : (before.take n).reverse ≠ [] := by
  have hn := receiverLength_ne_zero h
  cases before with
  | nil => simp [receiverLength] at h
  | cons t before => simpa using hn

end Receivers

/-! ## Classes -/

def isCastAt (receiver : List Token) : Attempt Bool := do
  if ← test (3 ≤ receiver.length) receiver 1 (·.opens .paren) then
    return (← closing receiver 1) = receiver.length - 1
  else return false

def addressClass (member : String) : Attempt (Option CallClass) := do
  if (lowLevelKind? member).isSome then
    return some ⟨← known .missing (lowLevelKind? member), none, none⟩
  else return none

/-- The type of what the receiver stands for, if its first name has the declared type. -/
def elementType (receiver : List Token) (declared : String) : Attempt String :=
  if receiver.length == 1 then return declared else valueType declared

def declaredClass (s : Scope) (receiver : List Token) (member declared : String) (target : Option String) :
    Attempt (Option CallClass) := do
  if receiver.any (·.isPunct ".") then return some .unknown
  else
    let element ← elementType receiver declared
    if ← isAddressType element then addressClass member
    else
      match ← referencedName element with
      | none => return none
      | some base => return if s.typeNames.contains base then none else some ⟨.highLevel, some base, target⟩

/-- The class of a call whose receiver is neither built in nor a cast. -/
def namedClass (s : Scope) (receiver : List Token) (member name : String) : Attempt (Option CallClass) := do
  match s.locals.lookup name with
  | some declared => declaredClass s receiver member declared none
  | none =>
    if s.stateVariables.any (·.name == name) then
      let v ← known .missing (s.findVariable? name)
      declaredClass s receiver member v.declaredType (some name)
    else return if startsUpper name && ! transferLibraries.contains name then none else some .unknown

def callClass (s : Scope) (receiver : List Token) (member : String) : Attempt (Option CallClass) := do
  let root ← elementAt receiver 0
  let name := root.text
  if ! root.isIdent then return some .unknown
  else if name == "msg" then
    if Token.render receiver == "msg.sender" then addressClass member else return none
  else if builtinRoots.contains name then return none
  else if name == "this" then return some ⟨.highLevel, some s.contract, none⟩
  else if ← isCastAt receiver then
    if name == "address" || name == "payable" then addressClass member
    else if TypeText.isElementary name then return none
    else if startsUpper name then return some ⟨.highLevel, some name, none⟩
    else return some .unknown
  else namedClass s receiver member name

section Classes

variable {s : Scope} {receiver : List Token} {member : String}

theorem isCastAt_eq (receiver : List Token) : isCastAt receiver = .ok (isCast receiver) := by
  rcases receiver with _ | ⟨root, _ | ⟨p, _ | ⟨x, rest⟩⟩⟩
  · rfl
  · rfl
  · simp [isCastAt, isCast, Bracket.enclosed?, Enclosed.find?]
  · have h : Stands (root :: p :: x :: rest) 1 [root] (p :: x :: rest) := (Stands.start _).next
    have htest : test (3 ≤ (root :: p :: x :: rest).length) (root :: p :: x :: rest) 1 (·.opens .paren) =
        .ok (p.opens .paren) :=
      h.test_of_guard (by simp) _
    have hcast : isCast (root :: p :: x :: rest) =
        (p.opens .paren && ((Bracket.paren.enclosed? (x :: rest)).map (·.rest.isEmpty)).getD false) := rfl
    rw [isCastAt, htest, ok_bind, hcast]
    cases ho : p.opens .paren with
    | false => rfl
    | true =>
      cases he : Bracket.paren.enclosed? (x :: rest) with
      | none =>
        have hlength : ¬ (-1 : Int) = (root :: p :: x :: rest).length - 1 := by
          simp only [List.length_cons]
          omega
        simp only [closing_of_none h ho he, ok_bind, ↓reduceIte, pure_eq, hlength, decide_false]
        rfl
      | some e =>
        obtain ⟨j, hclose, hj⟩ := closing_of_some h ho he
        have hlength := hj.length
        simp only [hclose, ok_bind, ↓reduceIte, pure_eq, Bool.true_and, Option.map_some, Option.getD_some,
          Except.ok.injEq]
        rw [Bool.eq_iff_iff, decide_eq_true_iff, List.isEmpty_iff, ← List.length_eq_zero_iff]
        simp only [List.length_cons] at hlength ⊢
        omega

theorem addressClass_eq (member : String) : addressClass member = .ok (CallClass.ofAddress? member) := by
  unfold addressClass CallClass.ofAddress?
  cases lowLevelKind? member <;> rfl

theorem elementType_eq (receiver : List Token) (declared : String) :
    elementType receiver declared =
      .ok (if receiver.length == 1 then declared else TypeText.valueType declared) := by
  rw [elementType, valueType_eq]
  split <;> rfl

theorem declaredClass_eq {declared : String} (hw : HasWord declared) (target : Option String) :
    declaredClass s receiver member declared target =
      .ok (classifyDeclared s receiver member declared target) := by
  unfold declaredClass classifyDeclared
  split
  · rfl
  · have hword : ∀ element, element = (if receiver.length == 1 then declared else TypeText.valueType declared) →
        element = "" ∨ HasWord element := by
      rintro element rfl
      split
      · exact .inr hw
      · exact hasWord_valueType declared
    rw [elementType_eq, ok_bind]
    generalize (if receiver.length == 1 then declared else TypeText.valueType declared) = element at hword
    rw [isAddressType_eq (hword element rfl), ok_bind, addressClass_eq, referencedName_eq, ok_bind]
    simp only
    cases TypeText.isAddress element with
    | true => rfl
    | false =>
      cases TypeText.referencedName? element with
      | none => rfl
      | some base => rfl

theorem isSome_findVariable? (s : Scope) (name : String) :
    (s.findVariable? name).isSome = s.stateVariables.any (·.name == name) := by
  rw [Bool.eq_iff_iff, Scope.findVariable?, List.find?_isSome]
  simp

theorem namedClass_eq (hs : s.HasWords) (name : String) :
    namedClass s receiver member name = .ok
      (match s.locals.lookup name, s.findVariable? name with
      | some declared, _ => classifyDeclared s receiver member declared none
      | none, some v => classifyDeclared s receiver member v.declaredType (some name)
      | none, none =>
        if startsUpper name && ! transferLibraries.contains name then none else some .unknown) := by
  unfold namedClass
  rw [← isSome_findVariable?]
  cases hl : s.locals.lookup name with
  | some declared =>
    obtain ⟨newer, older, hlocals, -⟩ := List.lookup_eq_some_iff.mp hl
    exact declaredClass_eq (hs.locals (name, declared) (by simp [hlocals])) none
  | none =>
    cases hv : s.findVariable? name with
    | none => rfl
    | some v =>
      have hmem := List.mem_of_find?_eq_some hv
      exact declaredClass_eq (hs.declared v (List.mem_reverse.mp hmem)) (some name)

theorem callClass_eq (hs : s.HasWords) (hne : receiver ≠ []) :
    callClass s receiver member = .ok (classifyCall s receiver member) := by
  cases receiver with
  | nil => exact absurd rfl hne
  | cons root rest =>
    unfold callClass classifyCall
    simp only [(Stands.start (root :: rest)).elementAt_eq, ok_bind, isCastAt_eq, addressClass_eq, pure_eq,
      apply_ite (Except.ok (ε := Failure))]
    refine if_congr Iff.rfl rfl (if_congr Iff.rfl rfl (if_congr Iff.rfl rfl (if_congr Iff.rfl rfl ?_)))
    exact if_congr Iff.rfl rfl (namedClass_eq hs root.text)

end Classes

/-! ## Calls of members -/

/-- The position behind the call options at `i`, where a token must stand, and whether they name a value. -/
def optionsEnd (ts : List Token) (i : Int) : Attempt (Option (Int × Bool)) := do
  let t ← elementAt ts i
  if t.opens .brace then
    let close ← closing ts i
    if close = -1 ∨ ¬ close + 1 < ts.length then return none
    else return some (close + 1, (← slice ts i close).any (·.isName "value"))
  else return some (i, false)

/-- The call of the member at `i` on the receiver from `start` to the dot, with the arguments at `cursor`. -/
def callSite (s : Scope) (ts : List Token) (start dot cursor : Int) (member : Token) (sendsValue : Bool) :
    Attempt (Option CallSite) := do
  let receiver ← slice ts start dot
  match ← callClass s receiver member.text with
  | none => return none
  | some c =>
    let pays := c.kind == .lowLevel &&
      ["send", "transfer", "sendValue", "functionCallWithValue"].contains member.text
    return some {
      callee := Token.render (← slice ts start cursor)
      member := member.text
      kind := c.kind
      receiver := Token.render receiver
      resolvedType := c.resolvedType
      targetVariable := c.targetVariable
      sendsValue := pays || sendsValue
      line := member.line }

/-- The call at the dot at `dot`, if it leaves the contract. -/
def memberCall (s : Scope) (ts : List Token) (dot : Int) : Attempt (Option Positioned) := do
  if ← test (dot + 2 < ts.length) ts (dot + 1) (·.isIdent) then
    let member ← elementAt ts (dot + 1)
    match ← optionsEnd ts (dot + 2) with
    | none => return none
    | some (cursor, sendsValue) =>
      if (← elementAt ts cursor).opens .paren then
        let close ← closing ts cursor
        if close = -1 then return none
        else
          match ← receiverStart ts dot with
          | none => return none
          | some start =>
            let site ← callSite s ts start dot cursor member sendsValue
            return site.map fun site => (close.toNat, .externalCall site)
      else return none
  else return none

section Calls

variable {ts before run : List Token} {t : Token} {i : Int}

/-- What the search for the end of call options gives. -/
inductive FindsOptions (ts before : List Token) :
    Attempt (Option (Int × Bool)) → Option (List Token × List Token) → Prop where
  | unbalanced : FindsOptions ts before (.ok none) none
  | last {options : List Token} : FindsOptions ts before (.ok none) (some (options, []))
  | some {options rest : List Token} {t : Token} {j : Int}
      (h : Stands ts j (options.reverse ++ before) (t :: rest)) :
      FindsOptions ts before (.ok (some (j, options.any (·.isName "value")))) (some (options, t :: rest))

theorem not_isName_of_isPunct {text : String} (h : t.isPunct text = true) (name : String) :
    t.isName name = false := by
  have hi := Token.not_isIdent_of_isPunct h
  unfold Token.isIdent at hi
  rw [Token.isName, hi, Bool.false_and]

theorem splitCallOptions?_cons (t : Token) (run : List Token) :
    splitCallOptions? (t :: run) =
      if t.opens .brace then
        (Bracket.brace.enclosed? run).map fun e => (t :: e.inner ++ [e.close], e.rest)
      else some ([], t :: run) := by
  rw [splitCallOptions?]
  cases Bracket.brace.enclosed? run <;> rfl

theorem optionsEnd_finds (h : Stands ts i before (t :: run)) :
    FindsOptions ts before (optionsEnd ts i) (splitCallOptions? (t :: run)) := by
  rw [optionsEnd, splitCallOptions?_cons, h.elementAt_eq, ok_bind]
  cases ho : t.opens .brace with
  | false => exact @FindsOptions.some ts before [] run t i h
  | true =>
    simp only [↓reduceIte]
    cases he : Bracket.brace.enclosed? run with
    | none =>
      simp only [closing_of_none h ho he, ok_bind, true_or, ↓reduceIte]
      exact .unbalanced
    | some e =>
      obtain ⟨j, hclose, hj⟩ := closing_of_some h ho he
      -- The closing brace, which the slice leaves out, is no name.
      have hvalue : (t :: e.inner).any (·.isName "value") =
          (t :: e.inner ++ [e.close]).any (·.isName "value") := by
        simp [not_isName_of_isPunct (Bracket.closes_close_of_enclosed? he)]
      have hslice : slice ts i j = .ok (t :: e.inner) := h.slice_eq (by simpa using hj)
      have hnext : Stands ts (j + 1) ((t :: e.inner ++ [e.close]).reverse ++ before) e.rest := by
        simpa using hj.next
      simp only [hclose, ok_bind, hj.ne_none, false_or, Option.map_some]
      generalize e.rest = rest at hnext
      cases rest with
      | nil =>
        simp only [hnext.not_lt, not_false_eq_true, ↓reduceIte]
        exact .last
      | cons x rest =>
        simp only [hnext.lt, not_true_eq_false, ↓reduceIte, hslice, ok_bind, hvalue]
        exact .some hnext

/-- The site of a call of the given class. -/
def siteOf (receiver : List Token) (dot member : Token) (options : List Token) (c : CallClass) :
    CallSite where
  callee := Token.render (receiver ++ dot :: member :: options)
  member := member.text
  kind := c.kind
  receiver := Token.render receiver
  resolvedType := c.resolvedType
  targetVariable := c.targetVariable
  sendsValue := c.kind == .lowLevel &&
    ["send", "transfer", "sendValue", "functionCallWithValue"].contains member.text ||
      options.any (·.isName "value")
  line := member.line

theorem callSite_eq {s : Scope} {receiver options back after after' after'' : List Token} {dot member : Token}
    {start d cursor : Int} (hs : s.HasWords) (hne : receiver ≠ []) (hstart : Stands ts start back after)
    (hdot : Stands ts d (receiver.reverse ++ back) after')
    (hcursor : Stands ts cursor (options.reverse ++ member :: dot :: (receiver.reverse ++ back)) after'') :
    callSite s ts start d cursor member (options.any (·.isName "value")) =
      .ok ((classifyCall s receiver member.text).map (siteOf receiver dot member options)) := by
  have hcallee : slice ts start cursor = .ok (receiver ++ dot :: member :: options) :=
    hstart.slice_eq (by simpa using hcursor)
  simp only [callSite, hstart.slice_eq hdot, ok_bind, callClass_eq hs hne, hcallee]
  cases classifyCall s receiver member.text <;> rfl

theorem memberCall_eq {s : Scope} {f : Focus} (hs : s.HasWords)
    (h : Stands ts i f.before (f.token :: f.after)) : memberCall s ts i = .ok (f.memberCall? s) := by
  obtain ⟨before, dot, after⟩ := f
  simp only at h
  rcases after with _ | ⟨member, _ | ⟨x, run⟩⟩
  · have hi : ¬ i + 2 < ts.length := h.not_add_lt (n := 2) (by simp)
    simp [memberCall, hi, Focus.memberCall?]
  · have hi : ¬ i + 2 < ts.length := h.not_add_lt (n := 2) (by simp)
    simp [memberCall, hi, Focus.memberCall?]
  · have htwo := h.next_next
    have htest : test (i + 2 < ts.length) ts (i + 1) (·.isIdent) = .ok member.isIdent :=
      h.next.test_of_guard (by simp [htwo.lt]) _
    have hoptions := optionsEnd_finds htwo
    have hreceiver := receiverStart_finds h
    unfold memberCall Focus.memberCall?
    simp only [htest, ok_bind, h.next.elementAt_eq]
    cases hm : member.isIdent with
    | false => rfl
    | true =>
      simp only [↓reduceIte, Bool.not_true, Bool.false_eq_true]
      generalize splitCallOptions? (x :: run) = o, optionsEnd ts (i + 2) = r at hoptions
      cases hoptions with
      | unbalanced => rfl
      | last => rfl
      | @some options rest p j hj =>
        simp only [ok_bind, hj.elementAt_eq]
        cases hp : p.opens .paren with
        | false => simp [hp]
        | true =>
          cases he : Bracket.paren.enclosed? rest with
          | none => simp [closing_of_none hj hp he, hp, he]
          | some e =>
            obtain ⟨close, hclose, hend⟩ := closing_of_some hj hp he
            simp only [↓reduceIte, hclose, ok_bind, hend.ne_none]
            generalize hn : receiverLength before = n, receiverStart ts i = r at hreceiver
            cases hreceiver with
            | none => simp
            | @some start n hstart =>
              have hrun : (before.take n).reverse.reverse ++ before.drop n = before := by simp
              have hsite := callSite_eq hs (receiver_ne_nil hn) hstart (hrun.symm ▸ h) (hrun.symm ▸ hj)
              have hposition : close.toNat = before.length + options.length + e.inner.length + 3 := by
                have := hend.position
                simp only [List.length_append, List.length_reverse, List.length_cons] at this
                omega
              simp only [hsite, ok_bind]
              cases hc : classifyCall s (before.take n).reverse member.text with
              | none => simp [hc]
              | some c => simp [hp, he, hc, hposition, Focus.index, siteOf]

end Calls

end ContractAudit.Position
