import ContractAudit.Proofs.Contract.Statement
import ContractAudit.Proofs.Dependency.Resolution
import ContractAudit.Proofs.TypeText.Readers

/-!
# Calls of elements

The dependency of a state variable rests on what the one reader finds in its type, a call through the variable on what
one of both finds there. So a call site that has the variable for its target has the name that the dependency rests
on. A call of an element has the variable for its target only if the element is seen for what it is: with several
subscripts only the last is seen, and with a dot in its subscript the element is taken for a member.
-/

namespace ContractAudit

open Lexer TypeText

/-! ## What a call site rests on -/

/-- Every call site of a function has the class of the call that is recorded there. -/
theorem Function.ReadIn.exists_class {f : Function} {c : Contract} {site : CallSite} (h : f.ReadIn c)
    (hs : site ∈ f.callSites) :
    ∃ receiver member k, classifyCall (c.scope f) receiver member = some k ∧
      site.resolvedType = k.resolvedType ∧ site.targetVariable = k.targetVariable := by
  rw [h.callSites] at hs
  obtain ⟨i, -, hs⟩ := List.mem_flatMap.mp hs
  obtain ⟨p, hp, hsite⟩ := List.mem_filterMap.mp hs
  obtain ⟨position, event⟩ := p
  cases event with
  | externalCall site' =>
    cases hsite
    unfold Contract.eventsAt at hp
    cases hfocus : (Focus.all f.bodyTokens)[i]? with
    | none =>
      rw [hfocus] at hp
      cases hp
    | some focus =>
      rw [hfocus] at hp
      rcases Focus.call_cases hp rfl with ⟨hdot, hcall⟩ | ⟨-, hinternal⟩
      · obtain ⟨k, after, hk⟩ := MemberCall.exists_of_memberCall? hdot hcall
        rw [hk, MemberCall.memberCall?_atDot] at hcall
        obtain ⟨n, -, hcall⟩ := Option.bind_eq_some_iff.mp hcall
        obtain ⟨class', hclass, heq⟩ := Option.map_eq_some_iff.mp hcall
        cases heq
        exact ⟨_, _, class', hclass, rfl, rfl⟩
      · cases hinternal
  | read => cases hsite
  | write => cases hsite
  | internalCall => cases hsite

theorem CallClass.targetVariable_of_ofAddress? {member : String} {k : CallClass} (h : ofAddress? member = some k) :
    k.targetVariable = none := by
  obtain ⟨kind, -, rfl⟩ := Option.map_eq_some_iff.mp h
  rfl

section Calls

variable {s : Scope} {receiver : List Token} {member name : String} {k : CallClass} {v : StateVariable}

theorem of_classifyDeclared {declared : String} {target : Option String}
    (h : classifyDeclared s receiver member declared target = some k) (ht : k.targetVariable = some name) :
    target = some name ∧
      (k.resolvedType = referencedName? declared ∨ k.resolvedType = referencedName? (valueType declared)) := by
  simp only [classifyDeclared] at h
  generalize helement : (if receiver.length == 1 then declared else valueType declared) = element at h
  split at h
  · cases h
    cases ht
  · split at h
    · rw [CallClass.targetVariable_of_ofAddress? h] at ht
      cases ht
    · split at h
      · cases h
      · rename_i type htype
        split at h
        · cases h
        · cases h
          refine ⟨ht, ?_⟩
          rw [← htype, ← helement]
          split
          · exact .inl rfl
          · exact .inr rfl

/-- A call through a state variable goes by what one of the readers finds in the type of the variable. -/
theorem resolvedType_of_classifyCall (h : classifyCall s receiver member = some k)
    (ht : k.targetVariable = some name) (hv : s.findVariable? name = some v) :
    k.resolvedType = referencedName? v.declaredType ∨
      k.resolvedType = referencedName? (valueType v.declaredType) := by
  have haddress (ha : CallClass.ofAddress? member = some k) : False := by
    rw [CallClass.targetVariable_of_ofAddress? ha] at ht
    cases ht
  unfold classifyCall at h
  split at h
  · cases h
  · rename_i root rest
    simp only at h
    split at h
    · cases h
      cases ht
    · split at h
      · split at h
        · exact (haddress h).elim
        · cases h
      · split at h
        · cases h
        · split at h
          · cases h
            cases ht
          · split at h
            · split at h
              · exact (haddress h).elim
              · split at h
                · cases h
                · split at h <;> cases h <;> cases ht
            -- Only here the state variable is put down as the target.
            · split at h
              · cases (of_classifyDeclared h ht).1
              · rename_i w _ hw
                obtain ⟨hname, hresolved⟩ := of_classifyDeclared h ht
                rw [Option.some.inj hname, hv] at hw
                cases hw
                exact hresolved
              · split at h
                · cases h
                · cases h
                  cases ht

end Calls

/-! ## Elements -/

/-- A call of a member on an element of a variable: a name, subscripts, and the call. -/
structure ElementCall where
  root : Token
  subscripts : List (Bracketed .square)
  call : MemberCall
  isIdent_root : root.isIdent = true
  indexed : subscripts ≠ []

namespace ElementCall

variable (e : ElementCall)

def element : List Token := e.root :: e.subscripts.flatMap (·.tokens)

def tokens : List Token := e.element ++ e.call.tokens

/-- What is taken for the receiver. -/
def receiver : List Token := receiverOf e.root e.subscripts

/-- There is one subscript, without a dot in it. -/
def isPlain : Bool :=
  match e.subscripts with
  | [g] => ! g.inner.any (·.isPunct ".")
  | _ => false

variable {s : Scope} {v : StateVariable}

theorem classifyDeclared_singleton {g : Bracketed .square} {member declared : String} {target : Option String} :
    classifyDeclared s (e.root :: g.tokens) member declared target =
      if g.inner.any (·.isPunct ".") then some .unknown
      else if isAddress (valueType declared) then CallClass.ofAddress? member
      else (referencedName? (valueType declared)).bind fun type =>
        if s.typeNames.contains type then none else some ⟨.highLevel, some type, target⟩ := by
  have hedge : g.opening.isPunct "." = false ∧ g.closing.isPunct "." = false :=
    ⟨(Token.isPunct_of_isPunct g.opens).trans (by decide), (Token.isPunct_of_isPunct g.closes).trans (by decide)⟩
  have hdot : (e.root :: g.tokens).any (·.isPunct ".") = g.inner.any (·.isPunct ".") := by
    simp [Bracketed.tokens, hedge, Token.not_isPunct_of_isIdent e.isIdent_root]
  have hlength : ((e.root :: g.tokens).length == 1) = false := by simp [Bracketed.length_tokens]
  simp only [classifyDeclared, hdot, hlength, Bool.false_eq_true, if_false]
  cases referencedName? (valueType declared) with
  | none => rfl
  | some type => rfl

/-- How a call of an element of a variable that nothing hides is classified. -/
theorem classifyCall_receiver {member : String} (hroot : e.root.text = v.name)
    (hlocal : s.locals.lookup v.name = none) (hv : s.findVariable? v.name = some v)
    (hordinary : v.name ∉ "this" :: builtinRoots) :
    classifyCall s e.receiver member =
      if e.isPlain then
        if isAddress (valueType v.declaredType) then CallClass.ofAddress? member
        else (referencedName? (valueType v.declaredType)).bind fun type =>
          if s.typeNames.contains type then none else some ⟨.highLevel, some type, some v.name⟩
      else some .unknown := by
  unfold isPlain receiver
  cases hs : e.subscripts with
  | nil => exact absurd hs e.indexed
  | cons g gs =>
    cases gs with
    | nil =>
      rw [List.mem_cons, not_or] at hordinary
      have hmsg : v.name ≠ "msg" := fun he => hordinary.2 (he ▸ by decide)
      have hcast : isCast (e.root :: g.tokens) = false := by
        simp [isCast, Bracketed.tokens, Token.opens_of_opens g.opens]
      have hclass : classifyCall s (e.root :: g.tokens) member =
          classifyDeclared s (e.root :: g.tokens) member v.declaredType (some v.name) := by
        simp [classifyCall, e.isIdent_root, hroot, hmsg, hordinary, hcast, hlocal, hv]
      rw [receiverOf_eq (by simp), List.flatMap_singleton, hclass, e.classifyDeclared_singleton]
      cases hdot : g.inner.any (·.isPunct ".") <;> simp [hdot]
    | cons g' gs =>
      obtain ⟨g₀, hg₀⟩ : ∃ g₀ : Bracketed .square, receiverOf e.root (g :: g' :: gs) = g₀.tokens :=
        exists_receiverOf_eq (by simp)
      simp [hg₀, Bracketed.tokens, classifyCall, Token.not_isIdent_of_isPunct g₀.opens]

section Body

variable {c : Contract} {f : Function} {before after : List Token}

theorem sitesAt_dot (h : f.body = some (before ++ (e.tokens ++ after)))
    (hprev : ∀ t ∈ before.getLast?, t.isPunct "." = false) :
    c.sitesAt f (before.length + e.element.length) =
      ((classifyCall (c.scope f) e.receiver e.call.member.text).map (e.call.site e.receiver)).toList := by
  have hsplit : f.body = some ((before ++ e.element) ++ e.call.dot :: (e.call.tail ++ after)) := by
    simpa [tokens, MemberCall.tokens] using h
  have hevents := Contract.eventsAt_of_body (c := c) hsplit
  have hfront : (before ++ e.element).reverse =
      (e.subscripts.flatMap (·.tokens)).reverse ++ e.root :: before.reverse := by
    simp [element]
  rw [← List.head?_reverse] at hprev
  obtain ⟨n, hn, hreceiver⟩ := exists_receiverLength e.isIdent_root e.subscripts hprev
  rw [← hfront] at hn hreceiver
  have hcall := e.call.memberCall?_atDot (c.scope f) (before ++ e.element).reverse after
  rw [hn, Option.bind_some, hreceiver] at hcall
  rw [← List.length_append, Contract.sitesAt, hevents, Focus.events, if_pos e.call.isPunct_dot]
  change callSitesOf ((e.call.atDot _ after).memberCall? _).toList = _
  rw [hcall, receiver]
  cases classifyCall (c.scope f) (receiverOf e.root e.subscripts) e.call.member.text with
  | none => rfl
  | some k => rfl

/-- The call stands behind `before` in the body of the function, and nothing hides the name. -/
structure StandsIn (e : ElementCall) (f : Function) (before : List Token) (name : String) : Prop where
  body : ∃ after, f.body = some (before ++ (e.tokens ++ after))
  root : e.root.text = name
  notMember : ∀ t ∈ before.getLast?, t.isPunct "." = false
  notParameter : ∀ p ∈ f.parameters, p.name ≠ name
  notLocal : name ∉ f.bodyLocals
  ordinary : name ∉ "this" :: builtinRoots

end Body

end ElementCall

namespace TypeText

def wordOf (text : String) (h : IsName text) : Word := ⟨⟨.ident, text, 1, 0⟩, rfl, h⟩

def markOf (text : String) : Syntax.Mark text := ⟨⟨.punct, text, 1, 0⟩, by simp [Token.isPunct]⟩

def keywordOf (text : String) : Syntax.Keyword text := ⟨⟨.ident, text, 1, 0⟩, by simp [Token.isName]⟩

/-- Vaults by number and owner, with names behind a key and both values. -/
def shelf : TypeTree :=
  let vault : PlainType := .name (wordOf "lib" (.ident (by decide) (by decide)))
    [⟨markOf ".", wordOf "IVault" (.ident (by decide) (by decide))⟩]
  let limit : Size := ⟨⟨.ident, "LIMIT", 1, 0⟩, .ident (by decide) (by decide), .inr rfl⟩
  let vaults : TypeTree := .array (.plain vault (by decide)) (markOf "[") limit (markOf "]")
  let byNumber : TypeTree := .mapping (keywordOf "mapping") (markOf "(")
    (.name (wordOf "uint256" (.ident (by decide) (by decide))) []) none ⟨⟨.operator, "=>", 1, 0⟩, rfl⟩
    vaults (wordOf "vaults" (.ident (by decide) (by decide))) (markOf ")")
  let byOwner : TypeTree := .mapping (keywordOf "mapping") (markOf "(")
    (.payable (keywordOf "address") (keywordOf "payable")) (wordOf "owner" (.ident (by decide) (by decide)))
    ⟨⟨.operator, "=>", 1, 0⟩, rfl⟩ byNumber (wordOf "numbers" (.ident (by decide) (by decide))) (markOf ")")
  .array byOwner (markOf "[") none (markOf "]")

/-- A contract that calls an element of the shelf. -/
def shelfLibrary : SourceUnit where
  name := "Library.sol"
  path := ""
  text := "contract Library \x7b mapping(address payable owner => mapping(uint256 => lib.IVault[LIMIT] vaults) " ++
    "numbers)[] shelf; function sync(uint i) external \x7b shelf[i].sync(); \x7d \x7d"

def syncShelf : ElementCall where
  root := ⟨.ident, "shelf", 1, 148⟩
  subscripts :=
    [{ opening := ⟨.punct, "[", 1, 153⟩
       inner := [⟨.ident, "i", 1, 154⟩]
       closing := ⟨.punct, "]", 1, 155⟩
       opens := rfl
       closes := rfl
       balanced := Bracket.balanced_of_enclosed? (e := ⟨_, ⟨.punct, "]", 1, 155⟩, []⟩)
         (show Bracket.square.enclosed? [⟨.ident, "i", 1, 154⟩, ⟨.punct, "]", 1, 155⟩] = _ from rfl) }]
  call :=
    { dot := ⟨.punct, ".", 1, 156⟩
      member := ⟨.ident, "sync", 1, 157⟩
      options := none
      arguments := ⟨⟨.punct, "(", 1, 161⟩, [], ⟨.punct, ")", 1, 162⟩, rfl, rfl, .nil _⟩
      isPunct_dot := rfl
      isIdent_member := rfl }
  isIdent_root := rfl
  indexed := List.cons_ne_nil _ _

def deskVaults : TypeTree :=
  let vault : TypeTree := .plain (.name (wordOf "IVault" (.ident (by decide) (by decide))) []) (by decide)
  .mapping (keywordOf "mapping") (markOf "(") (.name (wordOf "address" (.ident (by decide) (by decide))) []) none
    ⟨⟨.operator, "=>", 1, 0⟩, rfl⟩ vault none (markOf ")")

def deskPools : TypeTree :=
  let pool : TypeTree := .plain (.name (wordOf "IPool" (.ident (by decide) (by decide))) []) (by decide)
  .array (.array pool (markOf "[") none (markOf "]")) (markOf "[") none (markOf "]")

/-- A contract with a dot in a subscript, and with two subscripts. -/
def desk : SourceUnit where
  name := "Desk.sol"
  path := ""
  text := "contract Desk \x7b mapping(address => IVault) vaults; IPool[][] pools; " ++
    "function sync(uint i) external \x7b vaults[msg.sender].sync(); pools[i][i].sync(); \x7d \x7d"

end TypeText

end ContractAudit
