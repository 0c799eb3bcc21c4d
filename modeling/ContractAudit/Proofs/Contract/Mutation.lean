import ContractAudit.Proofs.Contract.Statement

/-!
# Mutations of arrays

A call of `push` or `pop` on a state variable is read twice: at the name of the variable as an access to it, and at
the dot as a call of a member. The first reading finds a write. The second one looks for the receiver backwards from
the dot and goes by its declared type, whose references are those of the elements; so it records a call site
for arrays of contracts, and wherever it does not see the variable behind the subscripts.
-/

namespace ContractAudit

/-- A call of `push` or `pop` on a name, possibly with subscripts. -/
structure Mutation where
  root : Token
  subscripts : List (Bracketed .square)
  dot : Token
  member : Token
  arguments : Bracketed .paren
  isIdent_root : root.isIdent = true
  isPunct_dot : dot.isPunct "." = true
  isOneOf_member : member.isOneOf ["push", "pop"] = true

namespace Mutation

variable (m : Mutation)

/-- The tokens of the subscripts. -/
def path : List Token := m.subscripts.flatMap (·.tokens)

def call : List Token := m.dot :: m.member :: m.arguments.tokens

def tokens : List Token := m.root :: (m.path ++ m.call)

theorem length_tokens : m.tokens.length = m.path.length + (m.arguments.inner.length + 5) := by
  simp [tokens, call, Bracketed.length_tokens]
  omega

theorem not_opens_dot (b : Bracket) : m.dot.opens b = false := by
  rw [Token.opens, Token.isPunct_of_isPunct m.isPunct_dot]
  cases b <;> decide

theorem call_append (after : List Token) :
    m.call ++ after = m.dot :: m.member :: m.arguments.opening ::
      (m.arguments.inner ++ m.arguments.closing :: after) := by
  rw [call, List.cons_append, List.cons_append, Bracketed.tokens_append]

/-! ## The write -/

theorem accessLength_call (after : List Token) : accessLength (m.call ++ after) = 0 := by
  rw [call_append, accessLength_cons]
  simp [m.not_opens_dot, m.isPunct_dot, m.arguments.opens]

theorem accessLength_subscripts (gs : List (Bracketed .square)) {rest : List Token} (h : accessLength rest = 0) :
    accessLength (gs.flatMap (·.tokens) ++ rest) = (gs.flatMap (·.tokens)).length := by
  induction gs with
  | nil => exact h
  | cons g gs ih =>
    rw [List.flatMap_cons, List.append_assoc, Bracketed.tokens_append, accessLength_cons, if_pos g.opens, g.enclosed?]
    simp only [ih, List.length_append, g.length_tokens]
    omega

theorem accessLength_path (after : List Token) : accessLength (m.path ++ (m.call ++ after)) = m.path.length :=
  accessLength_subscripts _ (m.accessLength_call after)

/-- The root in its place, `before` nearest first. -/
def atRoot (before after : List Token) : Focus := ⟨before, m.root, m.path ++ (m.call ++ after)⟩

theorem drop_atRoot (before after : List Token) :
    (m.atRoot before after).after.drop (accessLength (m.atRoot before after).after) = m.call ++ after := by
  rw [atRoot, accessLength_path, List.drop_left]

theorem stateAccess_atRoot (before after : List Token) :
    (m.atRoot before after).stateAccess =
      if (before.head?.map fun t => t.text == "++" || t.text == "--").getD false then
        [(before.length, .read m.root.text m.root.line), (before.length, .write m.root.text m.root.line)]
      else if (before.head?.map (·.isName "delete")).getD false then
        [(before.length, .write m.root.text m.root.line)]
      else [(before.length + m.tokens.length - 1, .write m.root.text m.root.line)] := by
  obtain ⟨hkind, hdot⟩ := Token.isPunct_iff.mp m.isPunct_dot
  have hassign : m.dot.isAssignment = false := by simp [Token.isAssignment, Token.isOperatorIn, hkind]
  have hstep : (m.dot.text == "++" || m.dot.text == "--") = false := by simp [hdot]
  have hend : callEnd? (m.arguments.opening :: (m.arguments.inner ++ m.arguments.closing :: after)) =
      some (m.arguments.inner.length + 1) := by
    simp [callEnd?, m.arguments.opens, m.arguments.enclosed?]
  rw [Focus.stateAccess]
  simp only [drop_atRoot, call_append, List.head?_cons, Option.map_some, Option.getD_some, hassign, hstep,
    m.isPunct_dot, m.isOneOf_member, m.arguments.opens, hend, Bool.false_or, Bool.and_self, if_true]
  have hposition : (m.atRoot before after).index + accessLength (m.atRoot before after).after + 3 +
      (m.arguments.inner.length + 1) = before.length + m.tokens.length - 1 := by
    simp only [atRoot, Focus.index, accessLength_path, length_tokens]
    omega
  rw [if_neg Bool.false_ne_true, hposition]
  rfl

/-! ## The receiver -/

/-- The part in front of the dot that is taken for the receiver: of several subscripts only the last is seen. -/
def seen : List Token :=
  match m.subscripts.reverse with
  | [] => [m.root]
  | [g] => m.root :: g.tokens
  | g :: _ :: _ => g.tokens

/-- The dot in its place, `before` nearest first. -/
def atDot (before after : List Token) : Focus :=
  ⟨m.path.reverse ++ m.root :: before, m.dot, m.member :: (m.arguments.tokens ++ after)⟩

/-- The search for the receiver finds what is seen. -/
theorem receiver_atDot {before : List Token} (after : List Token) (h : ∀ t ∈ before.head?, t.isPunct "." = false) :
    ∃ n, receiverLength (m.atDot before after).before = some n ∧
      ((m.atDot before after).before.take n).reverse = m.seen :=
  exists_receiverLength m.isIdent_root m.subscripts h

/-- The type by which the call is classified. -/
def elementType (v : StateVariable) : String :=
  if m.subscripts = [] then v.declaredType else TypeText.valueType v.declaredType

/-- Why a mutation of the variable `v` of a contract is taken for a call out of it. -/
inductive TakenForCall (c : Contract) (v : StateVariable) : Prop where
  /-- The variable is not seen behind the last subscript. -/
  | subscripts (h : 2 ≤ m.subscripts.length)
  /-- The name is that of the contract itself. -/
  | self (h : m.root.text = "this")
  /-- A dot in the subscript is taken for a member of the variable. -/
  | member {g : Bracketed .square} {t : Token} (hroot : m.root.text ∉ builtinRoots) (hg : g ∈ m.subscripts)
      (ht : t ∈ g.inner) (hdot : t.isPunct "." = true)
  /-- The elements are of a user-defined type that the contract does not declare. -/
  | element {base : String} (hroot : m.root.text ∉ builtinRoots)
      (haddress : TypeText.isAddress (m.elementType v) = false)
      (hbase : TypeText.referencedName? (m.elementType v) = some base) (hdeclared : base ∉ c.typeNames)

theorem member_cases : m.member.isIdent = true ∧ (m.member.text = "push" ∨ m.member.text = "pop") := by
  simpa [Token.isOneOf, Token.isIdent] using m.isOneOf_member

/-- Neither of the two is a direct member of an address. -/
theorem ofAddress?_member : CallClass.ofAddress? m.member.text = none := by
  obtain ⟨-, h | h⟩ := m.member_cases <;> rw [h] <;> rfl

/-- With at most one subscript all that stands in front of the dot is seen. -/
theorem seen_eq (h : m.subscripts.length ≤ 1) : m.seen = m.root :: m.path := receiverOf_eq h

theorem any_isPunct_dot :
    (m.root :: m.path).any (·.isPunct ".") = true ↔ ∃ g ∈ m.subscripts, ∃ t ∈ g.inner, t.isPunct "." = true := by
  have hedge (g : Bracketed .square) : g.opening.isPunct "." = false ∧ g.closing.isPunct "." = false :=
    ⟨(Token.isPunct_of_isPunct g.opens).trans (by decide), (Token.isPunct_of_isPunct g.closes).trans (by decide)⟩
  rw [List.any_cons, Token.not_isPunct_of_isIdent m.isIdent_root, Bool.false_or, path, List.any_flatMap]
  simp [Bracketed.tokens, hedge]

theorem length_path_eq_zero : m.path.length = 0 ↔ m.subscripts = [] := by
  unfold path
  cases m.subscripts with
  | nil => simp
  | cons g gs => simp [g.length_tokens]

theorem classifyDeclared_seen {s : Scope} {v : StateVariable} {target : Option String}
    (h : m.subscripts.length ≤ 1) :
    classifyDeclared s m.seen m.member.text v.declaredType target =
      if (m.root :: m.path).any (·.isPunct ".") then some .unknown
      else if TypeText.isAddress (m.elementType v) then none
      else (TypeText.referencedName? (m.elementType v)).bind fun base =>
        if s.typeNames.contains base then none else some ⟨.highLevel, some base, target⟩ := by
  have helement : (if m.seen.length == 1 then v.declaredType else TypeText.valueType v.declaredType) =
      m.elementType v := by
    simp only [m.seen_eq h, List.length_cons, elementType, ← length_path_eq_zero, beq_iff_eq, Nat.add_eq_right]
  unfold classifyDeclared
  simp only [helement, ofAddress?_member]
  rw [m.seen_eq h]
  cases TypeText.referencedName? (m.elementType v) with
  | none => simp only [Option.bind_none]
  | some base => simp only [Option.bind_some]

theorem not_isCast_seen (h : m.subscripts.length ≤ 1) : isCast m.seen = false := by
  rw [m.seen_eq h, path]
  cases m.subscripts with
  | nil => rfl
  | cons g gs => simp [isCast, Bracketed.tokens_append, Token.opens_of_opens g.opens]

theorem classifyCall_seen {s : Scope} {v : StateVariable} (h : m.subscripts.length ≤ 1)
    (hlocal : s.locals.lookup m.root.text = none) (hv : s.findVariable? m.root.text = some v) :
    classifyCall s m.seen m.member.text =
      if m.root.text ∈ builtinRoots then none
      else if m.root.text = "this" then some ⟨.highLevel, some s.contract, none⟩
      else classifyDeclared s m.seen m.member.text v.declaredType (some m.root.text) := by
  have hcast := m.not_isCast_seen h
  rw [m.seen_eq h] at hcast ⊢
  unfold classifyCall
  simp only [m.isIdent_root, hcast, hlocal, hv, ofAddress?_member]
  by_cases hb : m.root.text ∈ builtinRoots
  · simp [hb]
  · have hmsg : m.root.text ≠ "msg" := fun he => hb (he ▸ by decide)
    simp [hb, hmsg]

theorem classifyCall_seen_of_two_le {s : Scope} (h : 2 ≤ m.subscripts.length) :
    classifyCall s m.seen m.member.text = some .unknown := by
  -- What is seen does not start with a name.
  obtain ⟨g, hg⟩ : ∃ g : Bracketed .square, m.seen = g.tokens := exists_receiverOf_eq h
  simp [hg, Bracketed.tokens, classifyCall, Token.not_isIdent_of_isPunct g.opens]

/-- A mutation is classified as a call out of the contract exactly for these reasons. -/
theorem classifyCall_eq_none_iff {c : Contract} {s : Scope} {v : StateVariable} (hs : s.typeNames = c.typeNames)
    (hlocal : s.locals.lookup m.root.text = none) (hv : s.findVariable? m.root.text = some v) :
    classifyCall s m.seen m.member.text = none ↔ ¬ m.TakenForCall c v := by
  rcases Nat.lt_or_ge 1 m.subscripts.length with h | h
  · simp [m.classifyCall_seen_of_two_le h, TakenForCall.subscripts h]
  rw [m.classifyCall_seen h hlocal hv, m.classifyDeclared_seen h]
  constructor
  · intro hnone htaken
    cases htaken with
    | subscripts h2 => omega
    | self hthis =>
      have hroot : "this" ∉ builtinRoots := by decide
      simp [hthis, hroot] at hnone
    | member hroot hg ht hdot =>
      have hany := m.any_isPunct_dot.mpr ⟨_, hg, _, ht, hdot⟩
      simp only [hroot, hany, if_true, if_false] at hnone
      split at hnone <;> cases hnone
    | element hroot haddress hbase hdeclared =>
      simp only [hroot, haddress, hbase, hs, List.contains_eq_mem, decide_eq_true_eq, hdeclared, if_false,
        Bool.false_eq_true, Option.bind_some] at hnone
      split at hnone
      · cases hnone
      · split at hnone <;> cases hnone
  · intro hnot
    split
    · rfl
    · rename_i hroot
      rw [if_neg fun hthis => hnot (.self hthis), if_neg]
      · split
        · rfl
        · rename_i haddress
          rw [Option.bind_eq_none_iff]
          intro base hbase
          rw [if_pos]
          by_contra hdeclared
          exact hnot (.element hroot (by simpa using haddress) hbase (by simpa [hs] using hdeclared))
      · intro hany
        obtain ⟨g, hg, t, ht, hdot⟩ := m.any_isPunct_dot.mp hany
        exact hnot (.member hroot hg ht hdot)

/-- The call site of a mutation taken for a call. -/
def site (k : CallClass) : CallSite where
  callee := Token.render (m.seen ++ [m.dot, m.member])
  member := m.member.text
  kind := k.kind
  receiver := Token.render m.seen
  resolvedType := k.resolvedType
  targetVariable := k.targetVariable
  sendsValue := false
  line := m.member.line

theorem memberCall?_atDot {s : Scope} {before : List Token} (after : List Token)
    (h : ∀ t ∈ before.head?, t.isPunct "." = false) :
    (m.atDot before after).memberCall? s = (classifyCall s m.seen m.member.text).map fun k =>
      (before.length + m.tokens.length - 1, .externalCall (m.site k)) := by
  obtain ⟨n, hn, hseen⟩ := m.receiver_atDot after h
  have hoptions : splitCallOptions? (m.arguments.opening :: (m.arguments.inner ++ m.arguments.closing :: after)) =
      some ([], m.arguments.opening :: (m.arguments.inner ++ m.arguments.closing :: after)) := by
    simp [splitCallOptions?, Token.opens_of_opens m.arguments.opens]
  have hafter : (m.atDot before after).after =
      m.member :: m.arguments.opening :: (m.arguments.inner ++ m.arguments.closing :: after) := by
    rw [atDot, Bracketed.tokens_append]
  unfold Focus.memberCall?
  simp only [hafter, m.member_cases.1, hoptions, m.arguments.opens, m.arguments.enclosed?, hn, hseen,
    Option.bind_eq_bind, Option.bind_some, Bool.not_true, if_false, Bool.false_eq_true]
  have hpays : ["send", "transfer", "sendValue", "functionCallWithValue"].contains m.member.text = false := by
    obtain ⟨-, hm | hm⟩ := m.member_cases <;> rw [hm] <;> decide
  have hposition : (m.atDot before after).index + ([] : List Token).length + m.arguments.inner.length + 3 =
      before.length + m.tokens.length - 1 := by
    simp only [atDot, Focus.index, length_tokens, List.length_append, List.length_reverse, List.length_cons,
      List.length_nil]
    omega
  cases classifyCall s m.seen m.member.text with
  | none => rfl
  | some k =>
    simp only [hposition, hpays, Bool.and_false]
    rfl

/-! ## Both readings -/

/-- A token that changes the variable behind it. -/
def changes (t : Token) : Bool := t.text == "++" || t.text == "--" || t.isName "delete"

theorem stateAccess_of_not_changes {before : List Token} (after : List Token)
    (h : ∀ t ∈ before.head?, changes t = false) :
    (m.atRoot before after).stateAccess =
      [(before.length + m.tokens.length - 1, .write m.root.text m.root.line)] := by
  rw [stateAccess_atRoot]
  cases before with
  | nil => rfl
  | cons t before =>
    have ht := h t rfl
    simp only [changes, Bool.or_eq_false_iff] at ht
    simp [ht]

theorem exists_write_mem_stateAccess (before after : List Token) :
    ∃ position, (position, .write m.root.text m.root.line) ∈ (m.atRoot before after).stateAccess := by
  rw [stateAccess_atRoot]
  split
  · exact ⟨before.length, by simp⟩
  · split <;> exact ⟨_, List.mem_singleton_self _⟩

/-- The name in front of the subscripts is read as an access to the variable. -/
theorem events_atRoot {s : Scope} {before : List Token} (after : List Token)
    (hprev : ∀ t ∈ before.head?, t.isPunct "." = false) (hs : s.seesVariable m.root.text = true) :
    (m.atRoot before after).events s = (m.atRoot before after).stateAccess := by
  have hmember : ((m.atRoot before after).prev?.map (·.isPunct ".")).getD false = false := by
    cases before with
    | nil => rfl
    | cons t before => exact hprev t rfl
  have hcall : ((m.atRoot before after).next?.map (·.opens .paren)).getD false = false := by
    unfold atRoot path
    cases m.subscripts with
    | nil => exact m.not_opens_dot .paren
    | cons g gs => exact Token.opens_of_opens g.opens
  unfold Focus.events
  rw [hmember, hcall]
  simp [atRoot, m.isIdent_root, Token.not_isPunct_of_isIdent, hs]

theorem events_atDot {s : Scope} (before after : List Token) :
    (m.atDot before after).events s = ((m.atDot before after).memberCall? s).toList :=
  if_pos m.isPunct_dot

section Body

variable {c : Contract} {f : Function} {before after : List Token}

theorem eventsAt_root (h : f.body = some (before ++ (m.tokens ++ after))) :
    c.eventsAt f before.length = (m.atRoot before.reverse after).events (c.scope f) :=
  Contract.eventsAt_of_body (by simpa [tokens] using h)

theorem eventsAt_dot (h : f.body = some (before ++ (m.tokens ++ after))) :
    c.eventsAt f (before.length + (m.path.length + 1)) = (m.atDot before.reverse after).events (c.scope f) := by
  have hsplit : f.body =
      some ((before ++ m.root :: m.path) ++ m.dot :: (m.member :: (m.arguments.tokens ++ after))) := by
    simpa [tokens, call] using h
  simpa [atDot] using Contract.eventsAt_of_body (c := c) hsplit

theorem sitesAt_dot (h : f.body = some (before ++ (m.tokens ++ after)))
    (hprev : ∀ t ∈ before.getLast?, t.isPunct "." = false) :
    c.sitesAt f (before.length + (m.path.length + 1)) =
      ((classifyCall (c.scope f) m.seen m.member.text).map m.site).toList := by
  rw [← List.head?_reverse] at hprev
  rw [Contract.sitesAt, m.eventsAt_dot h, m.events_atDot, m.memberCall?_atDot after hprev]
  cases classifyCall (c.scope f) m.seen m.member.text with
  | none => rfl
  | some k => rfl

end Body

/-- What the reading of a function makes of a mutation of the variable `v` behind `before`. -/
structure ReadAs (c : Contract) (f : Function) (v : StateVariable) (before : List Token) : Prop where
  readIn : f.ReadIn c
  /-- The effects hold a write to the variable. -/
  write : ∃ line, .write m.root.text line ∈ f.effects
  access : ∃ position, (position, .write m.root.text m.root.line) ∈ c.eventsAt f before.length
  /-- The write takes place where the arguments close. -/
  closing : (∀ t ∈ before.getLast?, changes t = false) →
    c.eventsAt f before.length = [(before.length + m.tokens.length - 1, .write m.root.text m.root.line)]
  /-- No call site is recorded at the dot unless the mutation is taken for a call. -/
  site : c.sitesAt f (before.length + (m.path.length + 1)) = [] ↔ ¬ m.TakenForCall c v
  recorded : m.TakenForCall c v → ∃ k, m.site k ∈ f.callSites

end Mutation

/-- In every source that has a model a call of `push` or `pop` on a state variable that nothing hides is a write to
it, and no call site is recorded for it unless it is taken for a call. -/
theorem SourceUnit.mutation_readAs {unit : SourceUnit} {cs : List Contract} {c : Contract} {f : Function}
    {v : StateVariable} {before after : List Token} (m : Mutation) (h : unit.contracts = .ok cs) (hc : c ∈ cs)
    (hf : f ∈ c.functions) (hbody : f.body = some (before ++ (m.tokens ++ after)))
    (hprev : ∀ t ∈ before.getLast?, t.isPunct "." = false) (hv : c.findVariable? m.root.text = some v)
    (hparameter : ∀ p ∈ f.parameters, p.name ≠ m.root.text) (hlocal : m.root.text ∉ f.bodyLocals) :
    m.ReadAs c f v before := by
  have hread := readIn h hc hf
  have hhidden := Contract.not_mem_locals_scope (c := c) hparameter hlocal
  have hsees := Scope.seesVariable_of_findVariable? (s := c.scope f) hv hhidden
  have hnone := m.classifyCall_eq_none_iff (c := c) rfl (Scope.lookup_locals_eq_none hhidden) hv
  have hsites := m.sitesAt_dot (c := c) hbody hprev
  have hroot : c.eventsAt f before.length = (m.atRoot before.reverse after).stateAccess := by
    rw [← List.head?_reverse] at hprev
    exact (m.eventsAt_root hbody).trans (m.events_atRoot after hprev hsees)
  obtain ⟨position, hwrite⟩ := m.exists_write_mem_stateAccess before.reverse after
  rw [← hroot] at hwrite
  exact {
    readIn := hread
    write := hread.exists_write hwrite
    access := ⟨position, hwrite⟩
    closing := fun hchanges => by
      rw [← List.head?_reverse] at hchanges
      rw [hroot, m.stateAccess_of_not_changes after hchanges, List.length_reverse]
    site := by rw [hsites, ← hnone, Option.toList_eq_nil_iff, Option.map_eq_none_iff]
    recorded := fun htaken => by
      obtain ⟨k, hk⟩ := Option.ne_none_iff_exists'.mp fun hk => hnone.mp hk htaken
      have hmem : m.site k ∈ c.sitesAt f (before.length + (m.path.length + 1)) := by
        rw [hsites, hk]
        exact List.mem_singleton_self _
      exact ⟨k, hread.mem_callSites hmem⟩ }

/-- A ledger with an array of numbers in each row, and an array of contracts. -/
def rowLedger : SourceUnit where
  name := "Ledger.sol"
  path := ""
  text := "contract Ledger \x7b mapping(uint => uint[]) rows; IERC20[] tokens; " ++
    "function drop(uint i) external \x7b rows[i].pop(); tokens.pop(); \x7d \x7d"

/-- The statement that shortens a row of the ledger. -/
def dropRow : Mutation where
  root := ⟨.ident, "rows", 1, 98⟩
  subscripts :=
    [{ opening := ⟨.punct, "[", 1, 102⟩
       inner := [⟨.ident, "i", 1, 103⟩]
       closing := ⟨.punct, "]", 1, 104⟩
       opens := rfl
       closes := rfl
       balanced := Bracket.balanced_of_enclosed? (e := ⟨_, ⟨.punct, "]", 1, 104⟩, []⟩)
         (show Bracket.square.enclosed? [⟨.ident, "i", 1, 103⟩, ⟨.punct, "]", 1, 104⟩] = _ from rfl) }]
  dot := ⟨.punct, ".", 1, 105⟩
  member := ⟨.ident, "pop", 1, 106⟩
  arguments :=
    { opening := ⟨.punct, "(", 1, 109⟩
      inner := []
      closing := ⟨.punct, ")", 1, 110⟩
      opens := rfl
      closes := rfl
      balanced := .nil _ }
  isIdent_root := rfl
  isPunct_dot := rfl
  isOneOf_member := rfl

theorem Mutation.not_takenForCall_dropRow {c : Contract} {v : StateVariable}
    (hv : v.declaredType = "mapping(uint => uint[])") : ¬ dropRow.TakenForCall c v := by
  have helement : dropRow.elementType v = "uint" := by
    rw [elementType, hv]
    decide +kernel
  intro h
  cases h with
  | subscripts h => exact absurd h (by decide)
  | self h => exact absurd h (by decide)
  | member hroot hg ht hdot =>
    rw [List.mem_singleton.mp hg] at ht
    rw [List.mem_singleton.mp ht] at hdot
    cases hdot
  | element hroot haddress hbase hdeclared =>
    have hnone : TypeText.referencedName? "uint" = none := by decide +kernel
    rw [helement, hnone] at hbase
    cases hbase

set_option maxRecDepth 4000 in
theorem SourceUnit.mutation_readAs_rowLedger :
    ∃ cs c f v, rowLedger.contracts = .ok cs ∧ c ∈ cs ∧ f ∈ c.functions ∧
      c.findVariable? "rows" = some v ∧ ¬ dropRow.TakenForCall c v ∧ dropRow.ReadAs c f v [] := by
  have h : (rowLedger.declared.flatMap fun c => c.functions.map fun f =>
      ((c.findVariable? "rows").map (·.declaredType), f.body.map (·.take 8), f.parameters.map (·.name),
        f.bodyLocals)) =
      [(some "mapping(uint => uint[])", some dropRow.tokens, ["i"], [])] := by
    have hs : rowLedger.text = String.ofList (_ ++ _) := (String.ofList_append ..).symm
    rw [declared, contracts, tokenize, hs, String.toList_ofList]
    decide +kernel
  have hmem := List.mem_of_getElem? (congrArg (·[0]?) h)
  obtain ⟨c, hc, hf⟩ := List.mem_flatMap.mp hmem
  obtain ⟨f, hf, he⟩ := List.mem_map.mp hf
  simp only [Prod.mk.injEq, Option.map_eq_some_iff] at he
  obtain ⟨⟨v, hv, htype⟩, ⟨body, hbody, htake⟩, hparameters, hlocals⟩ := he
  cases hu : rowLedger.contracts with
  | error e => rw [declared_of_error hu] at hc; cases hc
  | ok cs =>
    rw [declared_of_ok hu] at hc
    have hsplit : f.body = some ([] ++ (dropRow.tokens ++ body.drop 8)) := by
      rw [hbody, ← htake, List.nil_append, List.take_append_drop]
    have hnames : ∀ p ∈ f.parameters, p.name ≠ "rows" := by
      intro p hp hname
      have := List.mem_map_of_mem (f := (·.name)) hp
      rw [hparameters, hname] at this
      exact absurd this (by decide)
    exact ⟨cs, c, f, v, rfl, hc, hf, hv, Mutation.not_takenForCall_dropRow htype,
      mutation_readAs dropRow hu hc hf hsplit (by simp) hv hnames (by simp [hlocals])⟩

set_option maxRecDepth 4000 in
/-- The call site of the statement that shortens the array of contracts. -/
theorem SourceUnit.mutation_recorded_rowLedger :
    (rowLedger.declared.flatMap (·.functions)).map (fun f => (f.effects, f.callSites.map (·.callee))) =
      [([.write "rows" 1, .write "tokens" 1, .externalCall 0 1], ["tokens.pop"])] := by
  have hs : rowLedger.text = String.ofList (_ ++ _) := (String.ofList_append ..).symm
  rw [declared, contracts, tokenize, hs, String.toList_ofList]
  decide +kernel

end ContractAudit
