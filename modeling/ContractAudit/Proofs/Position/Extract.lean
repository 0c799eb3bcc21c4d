import ContractAudit.Batch
import ContractAudit.Proofs.Position.Body
import ContractAudit.Proofs.Position.Member

/-!
# Extraction by position

From the functions of a contract to the declarations of a source. The reader by position never faults: it
gives the contracts of a source or refuses it, as the reader that takes the tokens apart does.
-/

namespace ContractAudit.Position

open Attempt

/-! ## Functions -/

/-- What a pass over a body finds: its events and its checks. -/
def bodyOf (s : Scope) (parameters : List Parameter) (body : Option (List Token)) :
    Attempt (List Positioned × List String) :=
  match body with
  | none => return ([], [])
  | some body => do
    let s := { s with locals := ← locals parameters body }
    let events ← collect body (eventsAt s body)
    let checks ← collect body fun k => do return (← checkAt body k).toList
    return (events, checks)

def functionOf (kind : ContractKind) (s : Scope) (raw : RawFunction) : Attempt Function := do
  let specifiers ← readSpecifiers ⟨defaultVisibility kind raw.name, .unmarked, []⟩ raw.specifiers
  let (events, checks) ← bodyOf s raw.parameters raw.body
  return {
    name := raw.name
    visibility := specifiers.visibility
    mutability := if raw.name == "receive" then .payable else specifiers.mutability
    modifiers := Text.sortedSet specifiers.modifiers
    parameters := raw.parameters
    callSites := callSitesOf events
    effects := ← effects events
    checks := checks
    body := raw.body
    line := raw.line
    endLine := raw.endLine }

theorem bodyOf_eq {s : Scope} {parameters : List Parameter} {body : Option (List Token)}
    (hs : ∀ v ∈ s.stateVariables, HasWord v.declaredType) (hp : ∀ p ∈ parameters, HasWord p.typeName)
    (hb : Worded (body.getD [])) :
    bodyOf s parameters body = .ok
      (match body with
        | some body => eventsOf { s with locals := localsOf parameters body } body
        | none => [], checksOf (body.getD [])) := by
  cases body with
  | none => rfl
  | some body =>
    have hscope : Scope.HasWords { s with locals := localsOf parameters body } :=
      ⟨fun l hl => hasWord_localsOf hp hb hl, hs⟩
    have hchecks : (collect body fun k => do return (← checkAt body k).toList) = .ok (checksOf body) := by
      rw [collect_eq (g := fun f => f.check?.toList) fun i f h => by simp [checkAt_eq h],
        checksOf, List.filterMap_eq_flatMap_toList]
    simp only [bodyOf, locals_eq, ok_bind, collect_eq fun i f h => eventsAt_eq hscope h, hchecks]
    rfl

theorem functionOf_eq {s : Scope} {raw : RawFunction} (kind : ContractKind)
    (hs : ∀ v ∈ s.stateVariables, HasWord v.declaredType) (hw : raw.HasWords) :
    functionOf kind s raw = .ok (Function.ofRaw kind s raw) := by
  obtain ⟨name, parameters, specifiers, body, line, endLine⟩ := raw
  simp only [functionOf, readSpecifiers_eq, ok_bind, bodyOf_eq hs hw.parameters hw.body, effects_eq]
  cases body <;> rfl

/-! ## Headers -/

/-- The name of a base, without the arguments in parentheses. -/
def baseName (part : List Token) : Attempt String := do
  return Token.render (← slice part 0 (part.findIdx (·.opens .paren)))

/-- The names after `is` in a header. -/
def bases (header : List Token) : Attempt (List String) := do
  if header.isEmpty then return []
  else if (← elementAt header 0).isName "is" then
    (← split "," (← slice header 1 header.length)).mapM baseName
  else return []

def headerTurn (kind : ContractKind) (name : Token) (ts : List Token) (i : Int) : Attempt (Turn Int Int) := do
  if i < ts.length then
    let t ← elementAt ts i
    if t.opens .brace then return .done i
    else if t.isPunct ";" then refuse (.noBody kind name.text name.line)
    else return .again (i + 1)
  else return .done i

/-- The position of the brace that ends the header at `i`. -/
def headerEnd (kind : ContractKind) (name : Token) (ts : List Token) (i : Int) : Attempt Int :=
  loop (ahead ts) (headerTurn kind name ts) i

section Headers

variable {ts before run : List Token} {i : Int}

theorem baseName_eq (part : List Token) :
    baseName part = .ok (Token.render (part.takeWhile (! ·.opens .paren))) := by
  have hslice := slice_natCast part 0 (part.findIdx (·.opens .paren))
  rw [List.drop_zero] at hslice
  rw [baseName, List.takeWhile_eq_take_findIdx_not]
  simp only [Bool.not_not]
  exact congrArg (· >>= fun name => pure (Token.render name)) hslice

theorem bases_eq (header : List Token) : bases header = .ok (basesOf header) := by
  cases header with
  | nil => rfl
  | cons t header =>
    have hslice : slice (t :: header) 1 (t :: header).length = .ok header :=
      (Stands.start (t :: header)).next.slice_rest
    simp only [bases, basesOf, List.isEmpty_cons, Bool.false_eq_true, ↓reduceIte,
      (Stands.start (t :: header)).elementAt_eq, ok_bind, hslice, split_eq,
      mapM_eq fun part _ => baseName_eq part]
    split <;> rfl

/-- Where the search for the end of a header gets to. -/
inductive FindsHeader (kind : ContractKind) (name : Token) (ts before run : List Token) :
    Attempt Int → Prop where
  | refused {t : Token} {rest : List Token} (hrun : run.dropWhile Contract.inHeader = t :: rest)
      (ht : t.opens .brace = false) :
      FindsHeader kind name ts before run (.error (.refused (.noBody kind name.text name.line)))
  | found {j : Int} (h : Stands ts j ((run.takeWhile Contract.inHeader).reverse ++ before)
        (run.dropWhile Contract.inHeader))
      (hbrace : ∀ t ∈ (run.dropWhile Contract.inHeader).head?, t.opens .brace = true) :
      FindsHeader kind name ts before run (.ok j)

theorem headerEnd_finds (kind : ContractKind) (name : Token) (h : Stands ts i before run) :
    FindsHeader kind name ts before run (headerEnd kind name ts i) := by
  refine loop_spec (fun (k : List Token × List Token) i => Stands ts i k.1 k.2)
    (fun k r => FindsHeader kind name ts k.1 k.2 r) ?_ (before, run) h
  rintro ⟨before, run⟩ i h
  simp only at h
  cases run with
  | nil => exact .done i (by simp [headerTurn, h.not_lt]) (.found h (by simp))
  | cons t run =>
    cases ho : t.opens .brace with
    | true =>
      have hin : Contract.inHeader t = false := by simp [Contract.inHeader, ho]
      exact .done i (by simp [headerTurn, h.lt, h.elementAt_eq, ho])
        (.found (by simpa [hin] using h) (by simp [hin, ho]))
    | false =>
      cases hs : t.isPunct ";" with
      | true =>
        have hin : Contract.inHeader t = false := by simp [Contract.inHeader, hs]
        refine .failed _ ?_ (.refused (List.dropWhile_cons_of_neg (by simp [hin])) ho)
        simp [headerTurn, h.lt, h.elementAt_eq, ho, hs, refuse]
      | false =>
        have hin : Contract.inHeader t = true := by simp [Contract.inHeader, ho, hs]
        refine .again (i + 1) (t :: before, run) ?_ (ahead_next h) h.next fun r hr => ?_
        · simp [headerTurn, h.lt, h.elementAt_eq, ho, hs]
        · cases hr with
          | refused hrun ht => exact .refused (by simpa [hin] using hrun) ht
          | found hj hbrace => exact .found (by simpa [hin] using hj) (by simpa [hin] using hbrace)

end Headers

/-! ## Declarations -/

/-- The contract that its members make up. -/
def contractOf (unit : SourceUnit) (kind : ContractKind) (name : Token) (header : List Token)
    (ms : List Member) : Attempt Contract := do
  let scope : Scope := {
    contract := name.text
    stateVariables := Member.stateVariables ms
    functionNames := (Member.functions ms).map (·.name)
    typeNames := Member.typeNames ms
    locals := [] }
  return {
    name := name.text
    kind := kind
    sourceName := unit.name
    sourcePath := unit.path
    bases := ← bases header
    stateVariables := Member.stateVariables ms
    functions := ← (Member.functions ms).mapM (functionOf kind scope)
    modifierNames := (Member.modifiers ms).map (·.name)
    typeNames := Member.typeNames ms
    line := name.line }

/-- The declaration whose keyword stands at `i` and the position behind it. -/
def declaration (unit : SourceUnit) (ts : List Token) (i : Int) : Attempt (Contract × Int) := do
  let kind ← known .missing (ContractKind.ofWord? (← elementAt ts i).text)
  let name ← elementAt ts (i + 1)
  let k ← headerEnd kind name ts (i + 2)
  if k < ts.length then
    let header ← slice ts (i + 2) k
    let close ← closing ts k
    if close = -1 then refuse (.unbalancedContract kind name.text name.line)
    else
      let ms ← members (← slice ts (k + 1) close)
      return (← contractOf unit kind name header ms, close + 1)
  else refuse (.noBody kind name.text name.line)

/-- Whether the token `t` at `i` starts a declaration. -/
def declares (ts : List Token) (t : Token) (i : Int) : Attempt Bool := do
  if t.isIdent && (ContractKind.ofWord? t.text).isSome then
    if ← test (i + 1 < ts.length) ts (i + 1) (·.isIdent) then
      return ! (← test (0 < i) ts (i - 1) (·.isPunct "."))
    else return false
  else return false

def declarationTurn (unit : SourceUnit) (ts : List Token) :
    Int × List Contract → Attempt (Turn (Int × List Contract) (List Contract))
  | (i, cs) =>
    if i < ts.length then do
      let t ← elementAt ts i
      if ← declares ts t i then
        let (c, j) ← declaration unit ts i
        return .again (j, cs ++ [c])
      else if t.opens .brace then
        let close ← closing ts i
        if close = -1 then refuse (.unbalancedBraces t.line) else return .again (close + 1, cs)
      else return .again (i + 1, cs)
    else return .done cs

def declarations (unit : SourceUnit) (ts : List Token) : Attempt (List Contract) :=
  loop (fun s => ahead ts s.1) (declarationTurn unit ts) (0, [])

section Declarations

variable {unit : SourceUnit} {ts before run : List Token} {i : Int}

theorem contractOf_eq {ms : List Member} (kind : ContractKind) (name : Token) (header : List Token)
    (hw : ∀ m ∈ ms, m.HasWords) :
    contractOf unit kind name header ms = .ok (Contract.ofMembers unit kind name header ms) := by
  have hvariables : ∀ v ∈ Member.stateVariables ms, HasWord v.declaredType := by
    intro v hv
    obtain ⟨m, hm, h⟩ := List.mem_filterMap.mp hv
    cases m <;> cases h
    exact hw _ hm
  have hfunctions : ∀ f ∈ Member.functions ms, f.HasWords := by
    intro f hf
    obtain ⟨m, hm, h⟩ := List.mem_filterMap.mp hf
    cases m <;> cases h
    exact hw _ hm
  unfold contractOf
  simp only [bases_eq, ok_bind]
  rw [mapM_eq fun f hf => functionOf_eq kind hvariables (hfunctions f hf)]
  rfl

/-- What the reader of a declaration gives; the token in front of the rest is a brace. -/
inductive ReadsDeclaration (ts : List Token) :
    Attempt (Contract × Int) → Except ParseError (Contract × List Token) → Prop where
  | refused (e : ParseError) : ReadsDeclaration ts (.error (.refused e)) (.error e)
  | read {c : Contract} {j : Int} {close : Token} {before rest : List Token}
      (h : Stands ts j (close :: before) rest) (hc : close.closes .brace = true) :
      ReadsDeclaration ts (.ok (c, j)) (.ok (c, rest))

theorem declaration_reads (unit : SourceUnit) {t name : Token} {kind : ContractKind} (hw : Worded ts)
    (hkind : ContractKind.ofWord? t.text = some kind) (h : Stands ts i before (t :: name :: run)) :
    ReadsDeclaration ts (declaration unit ts i) (Contract.ofTokens unit kind name run) := by
  have htwo : Stands ts (i + 2) (name :: t :: before) run := h.next_next
  have hheader := headerEnd_finds kind name htwo
  unfold declaration Contract.ofTokens
  simp only [h.elementAt_eq, h.next.elementAt_eq, ok_bind, hkind, known_some]
  generalize headerEnd kind name ts (i + 2) = r at hheader
  cases hheader with
  | @refused x rest hrun hx =>
    simp only [hrun, hx, Bool.false_eq_true, ↓reduceIte]
    exact .refused _
  | @found k hk hbrace =>
    have hslice := htwo.slice_eq hk
    simp only [ok_bind]
    cases hrun : run.dropWhile Contract.inHeader with
    | nil =>
      rw [hrun] at hk
      simp only [hk.not_lt, ↓reduceIte]
      exact .refused _
    | cons x after =>
      rw [hrun] at hk hbrace
      have hx : x.opens .brace = true := hbrace x rfl
      simp only [hk.lt, ↓reduceIte, hslice, ok_bind, hx]
      cases he : Bracket.brace.enclosed? after with
      | none =>
        simp only [closing_of_none hk hx he, ok_bind, ↓reduceIte]
        exact .refused _
      | some e =>
        obtain ⟨j, hclose, hj⟩ := closing_of_some hk hx he
        have hinner : Worded e.inner := by
          refine hw.subset fun y hy => ?_
          rw [← hj.run]
          simp [hy]
        simp only [hclose, ok_bind, hj.ne_none, ↓reduceIte, hk.next.slice_eq hj, members_eq]
        cases hms : Member.ofTokens e.inner with
        | error err => exact .refused err
        | ok ms =>
          simp only [Except.mapError, ok_bind,
            contractOf_eq kind name _ (Member.hasWords_of_ofTokens hinner hms), pure_eq]
          exact .read hj.next (Bracket.closes_close_of_enclosed? he)

theorem declares_eq {t : Token} (h : Stands ts i before (t :: run)) :
    declares ts t i = .ok (Contract.headAt? before.head? t run).isSome := by
  rw [declares, h.next.test_eq, h.test_back]
  cases run with
  | nil =>
    simp only [List.head?_nil, Option.map_none, Option.getD_none, ok_bind, Bool.false_eq_true, ↓reduceIte,
      ite_self]
    rfl
  | cons name run =>
    rw [Contract.headAt?]
    cases ContractKind.ofWord? t.text with
    | none => cases t.isIdent <;> simp
    | some kind =>
      cases t.isIdent <;> cases hn : name.isIdent <;>
        cases (before.head?.map (·.isPunct ".")).getD false <;> simp [hn]

/-- Of the token in front of a run it matters only whether it is a dot. -/
theorem allFrom_of_prev {prev prev' : Option Token}
    (h : (prev.map (·.isPunct ".")).getD false = (prev'.map (·.isPunct ".")).getD false) (run : List Token) :
    Contract.allFrom unit prev run = Contract.allFrom unit prev' run := by
  cases run with
  | nil => simp [Contract.allFrom]
  | cons t run =>
    have hhead : Contract.headAt? prev t run = Contract.headAt? prev' t run := by
      unfold Contract.headAt?
      rw [h]
    rw [Contract.allFrom_cons, Contract.allFrom_cons, hhead]

theorem allFrom_after_brace {close : Token} (hc : close.closes .brace = true) (run : List Token) :
    Contract.allFrom unit none run = Contract.allFrom unit (some close) run := by
  refine allFrom_of_prev ?_ run
  rw [Option.map_some, Option.getD_some, Token.isPunct_of_isPunct hc]
  rfl

/-- One turn of the search from `i` on, where `k` holds the declarations found so far. -/
abbrev DeclarationLeads (unit : SourceUnit) (ts : List Token) (k : List Contract × List Token × List Token)
    (s : Int × List Contract) : Prop :=
  Leads (fun s => ahead ts s.1) (declarationTurn unit ts)
    (fun (k : List Contract × List Token × List Token) s => s.2 = k.1 ∧ Stands ts s.1 k.2.1 k.2.2)
    (fun k r => r = ((Contract.allFrom unit k.2.1.head? k.2.2).map (k.1 ++ ·)).mapError .refused) k s

theorem declarationTurn_head {cs : List Contract} {t name : Token} {kind : ContractKind} {rest : List Token}
    (hw : Worded ts) (h : Stands ts i before (t :: run))
    (hh : Contract.headAt? before.head? t run = some (kind, name, rest)) :
    DeclarationLeads unit ts (cs, before, t :: run) (i, cs) := by
  obtain ⟨rfl, hkind⟩ := Contract.eq_of_headAt? hh
  have hdeclares : declares ts t i = .ok true := by
    rw [declares_eq h, hh]
    rfl
  have hall := Contract.allFrom_cons unit before.head? t (name :: rest)
  have hread := declaration_reads unit hw hkind h
  generalize hof : Contract.ofTokens unit kind name rest = o,
    hdeclaration : declaration unit ts i = r at hread
  simp only [hh, hof] at hall
  cases hread with
  | refused e =>
    refine .failed (.refused e) (by simp [declarationTurn, h.lt, h.elementAt_eq, hdeclares, hdeclaration]) ?_
    simp only [hall]
    rfl
  | @read c j close before' rest' hj hc =>
    refine .again (j, cs ++ [c]) (cs ++ [c], close :: before', rest') ?_ (h.ahead_lt hj ?_) ⟨rfl, hj⟩
      fun r hr => ?_
    · simp [declarationTurn, h.lt, h.elementAt_eq, hdeclares, hdeclaration]
    · have := Contract.length_ofTokens hof
      simp only [List.length_cons]
      omega
    · -- The position remembers the brace before the rest where the other reader starts afresh.
      rw [hr]
      simp only [hall, allFrom_after_brace hc, List.head?_cons]
      cases Contract.allFrom unit (some close) rest' <;> simp [Except.map, Except.mapError]

theorem declarationTurn_other {cs : List Contract} {t : Token} (h : Stands ts i before (t :: run))
    (hh : Contract.headAt? before.head? t run = none) :
    DeclarationLeads unit ts (cs, before, t :: run) (i, cs) := by
  have hdeclares : declares ts t i = .ok false := by
    rw [declares_eq h, hh]
    rfl
  have hall := Contract.allFrom_cons unit before.head? t run
  simp only [hh] at hall
  cases ho : t.opens .brace with
  | false =>
    simp only [ho, Bool.false_eq_true, ↓reduceIte] at hall
    refine .again (i + 1, cs) (cs, t :: before, run) ?_ (ahead_next h) ⟨rfl, h.next⟩ fun r hr => ?_
    · simp [declarationTurn, h.lt, h.elementAt_eq, hdeclares, ho]
    · rw [hr]
      simp only [hall, List.head?_cons]
  | true =>
    simp only [ho, ↓reduceIte] at hall
    cases he : Bracket.brace.enclosed? run with
    | none =>
      rw [he] at hall
      refine .failed (.refused (.unbalancedBraces t.line)) ?_ (by simp only [hall]; rfl)
      simp [declarationTurn, h.lt, h.elementAt_eq, hdeclares, ho, closing_of_none h ho he, refuse]
    | some e =>
      obtain ⟨j, hclose, hj⟩ := closing_of_some h ho he
      rw [he] at hall
      refine .again (j + 1, cs) (cs, e.close :: (e.inner.reverse ++ t :: before), e.rest) ?_
        (ahead_close h he hj) ⟨rfl, hj.next⟩ fun r hr => ?_
      · simp [declarationTurn, h.lt, h.elementAt_eq, hdeclares, ho, hclose, hj.ne_none]
      · rw [hr]
        simp only [hall, allFrom_after_brace (Bracket.closes_close_of_enclosed? he), List.head?_cons]

theorem declarations_eq (unit : SourceUnit) (hw : Worded ts) :
    declarations unit ts = (Contract.allFrom unit none ts).mapError .refused := by
  have hloop : declarations unit ts = ((Contract.allFrom unit none ts).map ([] ++ ·)).mapError .refused := by
    refine loop_spec
      (fun (k : List Contract × List Token × List Token) s => s.2 = k.1 ∧ Stands ts s.1 k.2.1 k.2.2)
      (fun k r => r = ((Contract.allFrom unit k.2.1.head? k.2.2).map (k.1 ++ ·)).mapError .refused)
      ?_ ([], [], ts) ⟨rfl, .start ts⟩
    rintro ⟨_, before, run⟩ ⟨i, cs⟩ ⟨rfl, h⟩
    cases run with
    | nil =>
      exact .done cs (by simp [declarationTurn, h.not_lt])
        (by simp [Contract.allFrom, Except.map, Except.mapError])
    | cons t run =>
      cases hh : Contract.headAt? before.head? t run with
      | some head => exact declarationTurn_head hw h hh
      | none => exact declarationTurn_other h hh
  rw [hloop]
  cases Contract.allFrom unit none ts <;> rfl

end Declarations

/-! ## Sources -/

/-- The contracts of a source, at least one. -/
def read (unit : SourceUnit) : Attempt (List Contract) := do
  if (Text.trim unit.text.toList).isEmpty then refuse .emptySource
  else
    let cs ← declarations unit (tokenize unit.text)
    if cs.isEmpty then refuse .noDeclaration else return cs

/-- What becomes of a source: its contracts, a warning that it is left out, or the report of a fault. -/
inductive Outcome where
  | modelled (contracts : List Contract)
  | skipped (warning : Warning)
  | faulty (fault : Fault)

def outcome (unit : SourceUnit) : Outcome :=
  match read unit with
  | .ok cs => .modelled cs
  | .error (.refused e) => .skipped (.ofError unit e)
  | .error (.fault f) => .faulty f

theorem read_eq (unit : SourceUnit) : read unit = unit.contracts.mapError .refused := by
  unfold read SourceUnit.contracts
  rw [declarations_eq unit (worded_tokenize unit.text)]
  split
  · rfl
  · cases Contract.allFrom unit none (tokenize unit.text) with
    | error e => rfl
    | ok cs => cases cs <;> rfl

theorem ne_nil_of_contracts {unit : SourceUnit} {cs : List Contract} (h : unit.contracts = .ok cs) :
    cs ≠ [] := by
  rw [SourceUnit.contracts_eq] at h
  split at h
  · cases h
  · cases h
  · cases h
    exact List.cons_ne_nil _ _

/-- Whatever the text of a source, the reader by position ends without a fault: each access is to an element
that is there and each turn of a loop gets further. It gives the same contracts, at least one, as the reader
that takes the tokens apart, or refuses the source for the same reason; the report of a fault is never made. -/
theorem read_never_faults (unit : SourceUnit) :
    (∃ cs, cs ≠ [] ∧ unit.contracts = .ok cs ∧ read unit = .ok cs ∧ outcome unit = .modelled cs) ∨
      ∃ e, unit.contracts = .error e ∧ read unit = .error (.refused e) ∧
        outcome unit = .skipped (.ofError unit e) := by
  have hread := read_eq unit
  cases hc : unit.contracts with
  | ok cs =>
    rw [hc] at hread
    refine .inl ⟨cs, ne_nil_of_contracts hc, rfl, hread, ?_⟩
    simp [outcome, show read unit = .ok cs from hread]
  | error e =>
    rw [hc] at hread
    refine .inr ⟨e, rfl, hread, ?_⟩
    simp [outcome, show read unit = .error (.refused e) from hread]

end ContractAudit.Position
