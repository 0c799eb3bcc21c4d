import ContractAudit.Proofs.Contract.Events
import ContractAudit.Proofs.Contract.Reading
import ContractAudit.Proofs.Token.Matching

/-!
# Assignments and calls in a body

An assignment is a variable with its subscripts and members, an operator that stores, a value and the token that
ends the statement; the reading of a body finds its write at that token. A call of a member is a dot, a name, possibly
call options, and arguments; it takes place at the parenthesis that closes the arguments. A call that starts in a
nested run ends in this run.
-/

namespace ContractAudit

/-! ## Assignments -/

/-- A subscript or a member behind a variable. -/
inductive Access where
  | subscript (g : Bracketed .square) (nested : Nested (fun _ => true) g.inner)
  | member (dot name : Token) (isPunct_dot : dot.isPunct "." = true) (isIdent_name : name.isIdent = true)

def Access.tokens : Access → List Token
  | subscript g _ => g.tokens
  | member dot name _ _ => [dot, name]

namespace Token

variable {t : Token}

theorem not_isPunct_of_isAssignment (h : t.isAssignment = true) (text : String) : t.isPunct text = false := by
  rw [isAssignment, isOperatorIn, Bool.and_eq_true, beq_iff_eq] at h
  simp [isPunct, h.1]

theorem not_isBracket_of_not_isPunct (h : ∀ text, t.isPunct text = false) : t.isBracket = false :=
  isBracket_eq_false.mpr fun _ => ⟨h _, h _⟩

/-- Ends a statement: a semicolon, or a closing bracket that the statement does not open. -/
def IsEnding (t : Token) : Prop := t.isPunct ";" = true ∨ ∃ b, t.closes b = true

theorem IsEnding.not_opens (h : t.IsEnding) (b : Bracket) : t.opens b = false := by
  rcases h with h | ⟨b', h⟩
  · rw [opens, isPunct_of_isPunct h]
    cases b <;> decide
  · exact not_opens_of_closes h b

theorem IsEnding.not_isIdent (h : t.IsEnding) : t.isIdent = false := by
  rcases h with h | ⟨b, h⟩ <;> exact not_isIdent_of_isPunct h

end Token

/-- A nested run without a semicolon outside its brackets is a statement up to the token that ends it. -/
theorem statementEnd_of_isEnding {run rest : List Token} {t : Token} (h : Nested (! ·.isPunct ";") run)
    (ht : t.IsEnding) : statementEnd (run ++ t :: rest) = run.length := by
  rcases ht with ht | ⟨b, ht⟩
  · exact statementEnd_of_nested h ht
  · have hend : statementEnd? 0 (t :: rest) = some 0 := by
      simp [statementEnd?, Token.opener?_of_closes ht, Token.closer?_of_closes ht]
    rw [statementEnd, statementEnd?_append_of_nested h (by simp), hend]
    simp

/-- A variable with its subscripts and members, an operator that stores, a value and the end of the statement. -/
structure Assignment where
  root : Token
  path : List Access
  operator : Token
  value : List Token
  ending : Token
  isIdent_root : root.isIdent = true
  isAssignment_operator : operator.isAssignment = true
  nested_value : Nested (! ·.isPunct ";") value
  isEnding : ending.IsEnding

namespace Assignment

variable (a : Assignment)

/-- The tokens of the subscripts and members. -/
def suffix : List Token := a.path.flatMap (·.tokens)

/-- The statement from the variable on, without its end. -/
def statement : List Token := a.root :: (a.suffix ++ a.operator :: a.value)

def tokens : List Token := a.statement ++ [a.ending]

theorem nested_suffix (path : List Access) : Nested (! ·.isPunct ";") (path.flatMap (·.tokens)) := by
  refine Nested.flatMap fun x _ => ?_
  cases x with
  | subscript g nested => exact .group g.opens g.closes nested (.nil _)
  | member dot name isPunct_dot isIdent_name =>
    refine .token (Token.not_isBracket_of_isPunct isPunct_dot ?_) ?_
      (.token (Token.not_isBracket_of_isIdent isIdent_name) ?_ (.nil _))
    · intro b
      cases b <;> decide
    · simp [Token.isPunct_of_isPunct isPunct_dot]
    · simp [Token.not_isPunct_of_isIdent isIdent_name]

theorem nested_statement : Nested (! ·.isPunct ";") a.statement := by
  have hoperator := Token.not_isPunct_of_isAssignment a.isAssignment_operator
  refine .token (Token.not_isBracket_of_isIdent a.isIdent_root) ?_ ((nested_suffix a.path).append ?_)
  · simp [Token.not_isPunct_of_isIdent a.isIdent_root]
  · exact .token (Token.not_isBracket_of_not_isPunct hoperator) (by simp [hoperator]) a.nested_value

/-- The subscripts and members are read up to the operator. -/
theorem accessLength_suffix (path : List Access) {operator : Token} (h : operator.isAssignment = true)
    (rest : List Token) :
    accessLength (path.flatMap (·.tokens) ++ operator :: rest) = (path.flatMap (·.tokens)).length := by
  have hoperator := Token.not_isPunct_of_isAssignment h
  induction path with
  | nil => simp [accessLength_cons, Token.opens, hoperator]
  | cons x path ih =>
    rw [List.flatMap_cons, List.append_assoc]
    cases x with
    | subscript g nested =>
      rw [Access.tokens, Bracketed.tokens_append, accessLength_cons, if_pos g.opens, g.enclosed?]
      simp only [ih, List.length_append, g.length_tokens]
      omega
    | member dot name isPunct_dot isIdent_name =>
      have hdot : dot.opens .square = false := by
        rw [Token.opens, Token.isPunct_of_isPunct isPunct_dot]
        decide
      -- Behind a member stands another access or the operator, and no parenthesis.
      obtain ⟨x, more, hnext, hparen⟩ : ∃ x more, path.flatMap (·.tokens) ++ operator :: rest = x :: more ∧
          x.opens .paren = false := by
        cases path with
        | nil => exact ⟨operator, rest, rfl, hoperator _⟩
        | cons y path =>
          cases y with
          | subscript g nested =>
            rw [List.flatMap_cons, List.append_assoc, Access.tokens, Bracketed.tokens_append]
            exact ⟨_, _, rfl, by simp [Token.opens_of_opens g.opens]⟩
          | member dot' name' isPunct_dot' isIdent_name' =>
            refine ⟨dot', _, rfl, ?_⟩
            rw [Token.opens, Token.isPunct_of_isPunct isPunct_dot']
            decide
      rw [hnext] at ih ⊢
      simp only [Access.tokens, List.cons_append, List.nil_append, accessLength_cons dot, hdot, isPunct_dot,
        isIdent_name, hparen, ih, List.length_cons, Bool.not_false, Bool.and_self, if_true, if_false,
        Bool.false_eq_true]

/-- What is recorded at the variable when it is the token `k` of a body. -/
def events (k : Nat) : List Positioned :=
  (if a.operator.text == "=" then [] else [(k, .read a.root.text a.root.line)]) ++
    [(k + a.statement.length, .write a.root.text a.root.line)]

/-- The variable in its place, `before` nearest first. -/
def atRoot (before after : List Token) : Focus :=
  ⟨before, a.root, a.suffix ++ a.operator :: (a.value ++ a.ending :: after)⟩

theorem stateAccess_atRoot (before after : List Token) :
    (a.atRoot before after).stateAccess = a.events before.length := by
  have hrest : (a.atRoot before after).after.drop (accessLength (a.atRoot before after).after) =
      a.operator :: (a.value ++ a.ending :: after) := by
    rw [atRoot, suffix, accessLength_suffix _ a.isAssignment_operator, List.drop_left]
  have hend : statementEnd ((a.atRoot before after).token :: (a.atRoot before after).after) = a.statement.length := by
    have hsplit : (a.atRoot before after).token :: (a.atRoot before after).after =
        a.statement ++ a.ending :: after := by
      simp [atRoot, statement]
    rw [hsplit, statementEnd_of_isEnding a.nested_statement a.isEnding]
  rw [Focus.stateAccess]
  simp only [hrest, hend, List.head?_cons, Option.map_some, Option.getD_some, a.isAssignment_operator, if_true]
  rfl

theorem events_atRoot {s : Scope} {before : List Token} (after : List Token)
    (hprev : ∀ t ∈ before.head?, t.isPunct "." = false) (hs : s.seesVariable a.root.text = true) :
    (a.atRoot before after).events s = a.events before.length := by
  have hmember : ((a.atRoot before after).prev?.map (·.isPunct ".")).getD false = false := by
    cases before with
    | nil => rfl
    | cons t before => exact hprev t rfl
  have hcall : ((a.atRoot before after).next?.map (·.opens .paren)).getD false = false := by
    unfold atRoot suffix Focus.next?
    cases a.path with
    | nil => exact Token.not_isPunct_of_isAssignment a.isAssignment_operator _
    | cons x path =>
      cases x with
      | subscript g nested => simp [Access.tokens, Bracketed.tokens, Token.opens_of_opens g.opens]
      | member dot name isPunct_dot isIdent_name =>
        simp [Access.tokens, Token.opens, Token.isPunct_of_isPunct isPunct_dot, Bracket.opening]
  rw [← a.stateAccess_atRoot before after]
  unfold Focus.events
  rw [hmember, hcall]
  simp [atRoot, a.isIdent_root, Token.not_isPunct_of_isIdent, hs]

theorem eventsAt_root {c : Contract} {f : Function} {before after : List Token}
    (hbody : f.body = some (before ++ (a.tokens ++ after))) (hprev : ∀ t ∈ before.getLast?, t.isPunct "." = false)
    (hs : (c.scope f).seesVariable a.root.text = true) :
    c.eventsAt f before.length = a.events before.length := by
  rw [← List.head?_reverse] at hprev
  have hsplit : f.body = some (before ++ a.root :: (a.suffix ++ a.operator :: (a.value ++ a.ending :: after))) := by
    simpa [tokens, statement] using hbody
  have hevents := a.events_atRoot after hprev hs
  rw [List.length_reverse] at hevents
  exact (Contract.eventsAt_of_body hsplit).trans hevents

end Assignment

/-! ## Receivers -/

section Receiver

variable {root : Token} {before : List Token}

/-- The part in front of a dot that is taken for the receiver: of several subscripts only the last is seen. -/
def receiverOf (root : Token) (subscripts : List (Bracketed .square)) : List Token :=
  match subscripts.reverse with
  | [] => [root]
  | [g] => root :: g.tokens
  | g :: _ :: _ => g.tokens

/-- With at most one subscript all that stands in front of the dot is seen. -/
theorem receiverOf_eq {subscripts : List (Bracketed .square)} (h : subscripts.length ≤ 1) :
    receiverOf root subscripts = root :: subscripts.flatMap (·.tokens) := by
  unfold receiverOf
  cases subscripts with
  | nil => simp
  | cons g gs =>
    have hgs : gs = [] := by simpa using h
    simp [hgs]

/-- With more subscripts what is seen does not start with a name. -/
theorem exists_receiverOf_eq {subscripts : List (Bracketed .square)} (h : 2 ≤ subscripts.length) :
    ∃ g : Bracketed .square, receiverOf root subscripts = g.tokens := by
  unfold receiverOf
  split
  · simp_all
  · rename_i g hs
    have hlen := congrArg List.length hs
    simp at hlen
    omega
  · rename_i g _ _ _
    exact ⟨g, rfl⟩

theorem receiverLength_root (hroot : root.isIdent = true) (h : ∀ t ∈ before.head?, t.isPunct "." = false) :
    receiverLength (root :: before) = some 1 := by
  have hend : root.receiverEnd? = none := by
    simp [Token.receiverEnd?, Token.closes, Token.not_isPunct_of_isIdent hroot]
  rw [receiverLength_cons, hend]
  simp only [hroot, if_true]
  split
  · rename_i dot x more
    rw [if_neg (by simp [h dot rfl])]
  · rfl

theorem receiverLength_subscript (g : Bracketed .square) (rest : List Token) :
    receiverLength (g.tokens.reverse ++ rest) =
      if (rest.head?.map (·.isIdent)).getD false then (receiverLength rest).map (· + g.tokens.length)
      else some g.tokens.length := by
  have hend : g.closing.receiverEnd? = some .square := by
    simp [Token.receiverEnd?, Token.closes_of_closes g.closes]
  rw [g.reverse_tokens_append, receiverLength_cons, hend]
  simp only [g.enclosedBack?, Option.bind_some, List.length_reverse, g.length_tokens]

/-- The search for the receiver finds what is seen. -/
theorem exists_receiverLength (hroot : root.isIdent = true) (subscripts : List (Bracketed .square))
    (h : ∀ t ∈ before.head?, t.isPunct "." = false) :
    let front := (subscripts.flatMap (·.tokens)).reverse ++ root :: before
    ∃ n, receiverLength front = some n ∧ (front.take n).reverse = receiverOf root subscripts := by
  intro front
  have htail (rest : List Token) (g : Bracketed .square) (n : Nat) :
      ((g.tokens.reverse ++ rest).take (n + g.tokens.length)).reverse = (rest.take n).reverse ++ g.tokens := by
    rw [Nat.add_comm, ← List.length_reverse, List.take_length_add_append, List.reverse_append,
      List.reverse_reverse]
  -- The search starts at the last subscript and goes on only if a name stands in front of that.
  rcases List.eq_nil_or_concat subscripts with rfl | ⟨init, g, rfl⟩
  · exact ⟨1, receiverLength_root hroot h, rfl⟩
  · rcases List.eq_nil_or_concat init with rfl | ⟨init, g', rfl⟩
    · have hfront : front = g.tokens.reverse ++ root :: before := by simp [front]
      refine ⟨1 + g.tokens.length, ?_, ?_⟩
      · simp [hfront, receiverLength_subscript, hroot, receiverLength_root hroot h]
      · rw [hfront, htail]
        simp [receiverOf]
    · have hfront : front = g.tokens.reverse ++ (g'.closing :: (g'.inner.reverse ++ g'.opening ::
          ((init.flatMap (·.tokens)).reverse ++ root :: before))) := by
        simp [front, Bracketed.tokens]
      have hclosing : g'.closing.isIdent = false := Token.not_isIdent_of_isPunct g'.closes
      refine ⟨0 + g.tokens.length, ?_, ?_⟩
      · simp [hfront, receiverLength_subscript, hclosing]
      · rw [hfront, htail]
        simp [receiverOf]

end Receiver

/-! ## Calls of members -/

/-- A dot, a name, possibly call options in braces, and arguments. -/
structure MemberCall where
  dot : Token
  member : Token
  options : Option (Bracketed .brace)
  arguments : Bracketed .paren
  isPunct_dot : dot.isPunct "." = true
  isIdent_member : member.isIdent = true

namespace MemberCall

variable (k : MemberCall)

def optionTokens : List Token := (k.options.map (·.tokens)).getD []

/-- The tokens behind the dot. -/
def tail : List Token := k.member :: (k.optionTokens ++ k.arguments.tokens)

def tokens : List Token := k.dot :: k.tail

theorem length_tokens : k.tokens.length = k.optionTokens.length + k.arguments.inner.length + 4 := by
  simp [tokens, tail, Bracketed.length_tokens]
  omega

/-- The dot in its place, `before` nearest first. -/
def atDot (before after : List Token) : Focus := ⟨before, k.dot, k.tail ++ after⟩

theorem splitCallOptions?_tail (after : List Token) :
    splitCallOptions? (k.optionTokens ++ (k.arguments.tokens ++ after)) =
      some (k.optionTokens, k.arguments.tokens ++ after) := by
  unfold optionTokens
  cases k.options with
  | none =>
    simp [Bracketed.tokens_append, splitCallOptions?, Token.opens_of_opens k.arguments.opens]
  | some o =>
    simp [Bracketed.tokens, splitCallOptions?, o.opens, o.enclosed?]

/-- The call site of a call of the class on a receiver. -/
def site (receiver : List Token) (c : CallClass) : CallSite where
  callee := Token.render (receiver ++ k.dot :: k.member :: k.optionTokens)
  member := k.member.text
  kind := c.kind
  receiver := Token.render receiver
  resolvedType := c.resolvedType
  targetVariable := c.targetVariable
  sendsValue := (c.kind == .lowLevel &&
    ["send", "transfer", "sendValue", "functionCallWithValue"].contains k.member.text) ||
    k.optionTokens.any (·.isName "value")
  line := k.member.line

theorem memberCall?_atDot (s : Scope) (before after : List Token) :
    (k.atDot before after).memberCall? s = (receiverLength before).bind fun n =>
      (classifyCall s (before.take n).reverse k.member.text).map fun c =>
        (before.length + k.tokens.length - 1, .externalCall (k.site (before.take n).reverse c)) := by
  obtain ⟨x, ts, hx⟩ : ∃ x ts, k.optionTokens ++ (k.arguments.tokens ++ after) = x :: ts :=
    List.exists_cons_of_ne_nil (by simp [Bracketed.tokens])
  have hafter : (k.atDot before after).after = k.member :: x :: ts := by
    rw [← hx]
    simp [atDot, tail]
  have hbefore : (k.atDot before after).before = before := rfl
  have hsplit := k.splitCallOptions?_tail after
  rw [hx, Bracketed.tokens_append] at hsplit
  have hposition : (k.atDot before after).index + k.optionTokens.length + k.arguments.inner.length + 3 =
      before.length + k.tokens.length - 1 := by
    simp only [atDot, Focus.index, length_tokens]
    omega
  unfold Focus.memberCall?
  simp only [hbefore, hafter, k.isIdent_member, hsplit, k.arguments.opens, k.arguments.enclosed?,
    Option.bind_eq_bind, Option.bind_some, Bool.not_true, if_false, Bool.false_eq_true, hposition]
  refine Option.bind_congr fun n _ => ?_
  cases classifyCall s (before.take n).reverse k.member.text with
  | none => rfl
  | some c => rfl

/-- A call takes place at the parenthesis that closes its arguments. -/
theorem eq_of_memberCall?_atDot {s : Scope} {before after : List Token} {p : Positioned}
    (h : (k.atDot before after).memberCall? s = some p) :
    ∃ site, p = (before.length + k.tokens.length - 1, .externalCall site) ∧ site.member = k.member.text ∧
      site.line = k.member.line := by
  rw [memberCall?_atDot] at h
  obtain ⟨n, -, h⟩ := Option.bind_eq_some_iff.mp h
  obtain ⟨c, -, rfl⟩ := Option.map_eq_some_iff.mp h
  exact ⟨_, rfl, rfl, rfl⟩

/-- What is cut off as call options is a pair of braces, or nothing. -/
theorem exists_options {ts options rest : List Token} (h : splitCallOptions? ts = some (options, rest)) :
    ∃ o : Option (Bracketed .brace), ts = (o.map (·.tokens)).getD [] ++ rest := by
  cases ts with
  | nil => cases h
  | cons t ts =>
    simp only [splitCallOptions?] at h
    split at h
    · rename_i hbrace
      obtain ⟨e, he, hpair⟩ := Option.bind_eq_some_iff.mp h
      cases hpair
      refine ⟨some ⟨t, e.inner, e.close, hbrace, Bracket.closes_close_of_enclosed? he,
        Bracket.balanced_of_enclosed? he⟩, ?_⟩
      rw [Option.map_some, Option.getD_some, Bracketed.tokens_append, Enclosed.run_of_find? he]
    · cases h
      exact ⟨none, rfl⟩

/-- Wherever a call out is found at a dot, a call of a member stands there. -/
theorem exists_of_memberCall? {s : Scope} {f : Focus} {p : Positioned} (hdot : f.token.isPunct "." = true)
    (h : f.memberCall? s = some p) : ∃ (k : MemberCall) (after : List Token), f = k.atDot f.before after := by
  obtain ⟨before, dot, after⟩ := f
  unfold Focus.memberCall? at h
  split at h
  · rename_i member x ts hafter
    simp only at hafter
    subst hafter
    split at h
    · cases h
    · rename_i hmember
      rw [Bool.not_eq_true', Bool.not_eq_false] at hmember
      obtain ⟨⟨options, rest⟩, hoptions, h⟩ := Option.bind_eq_some_iff.mp h
      simp only at h
      split at h
      · cases h
      · rename_i opening rest'
        split at h
        · cases h
        · rename_i hopens
          rw [Bool.not_eq_true', Bool.not_eq_false] at hopens
          obtain ⟨e, he, -⟩ := Option.bind_eq_some_iff.mp h
          let arguments : Bracketed .paren :=
            ⟨opening, e.inner, e.close, hopens, Bracket.closes_close_of_enclosed? he, Bracket.balanced_of_enclosed? he⟩
          have hrest : opening :: rest' = arguments.tokens ++ e.rest := by
            rw [Bracketed.tokens_append, Enclosed.run_of_find? he]
          obtain ⟨o, ho⟩ := exists_options hoptions
          refine ⟨⟨dot, member, o, arguments, hdot, hmember⟩, e.rest, ?_⟩
          simp only [atDot, tail, optionTokens, List.cons_append, List.append_assoc, ← hrest, ho]
  · cases h

end MemberCall

/-! ## Calls in nested runs -/

/-- What a token records is a call. -/
def Event.isCall : Event → Bool
  | internalCall .. | externalCall .. => true
  | _ => false

section Nested

variable {outside : Token → Bool} {head tail after rest : List Token} {stop : Token}

/-- A bracket that opens in a nested run closes in it: the run is read up to the ending behind it only. -/
theorem Nested.exists_of_bracketed {b : Bracket} {g : Bracketed b} (h : Nested outside (head ++ tail))
    (hstop : stop.IsEnding) (hafter : g.tokens ++ after = tail ++ stop :: rest) :
    ∃ tail', tail = g.tokens ++ tail' := by
  rw [Bracketed.tokens_append] at hafter
  cases tail with
  | nil =>
    have hopens := g.opens
    rw [(List.cons.inj hafter).1, hstop.not_opens] at hopens
    cases hopens
  | cons t tail =>
    obtain ⟨rfl, htail⟩ := List.cons.inj hafter
    obtain ⟨e, he, -⟩ := h.exists_enclosed? rfl g.opens
    have hfound := Enclosed.find?_append_of_find? he (stop :: rest)
    have heq := (g.enclosed? after).symm.trans ((congrArg b.enclosed? htail).trans hfound)
    simp only [Option.some.injEq, Enclosed.mk.injEq] at heq
    refine ⟨e.rest, ?_⟩
    rw [Bracketed.tokens_append, heq.1, heq.2.1, Enclosed.run_of_find? he]

theorem MemberCall.exists_of_nested {k : MemberCall} (h : Nested outside (head ++ k.dot :: tail))
    (hstop : stop.IsEnding) (hafter : k.tail ++ after = tail ++ stop :: rest) : ∃ tail', tail = k.tail ++ tail' := by
  rw [MemberCall.tail, List.cons_append, List.append_assoc] at hafter
  cases tail with
  | nil =>
    have hident := k.isIdent_member
    rw [(List.cons.inj hafter).1, hstop.not_isIdent] at hident
    cases hident
  | cons t tail =>
    rw [List.cons_append] at hafter
    obtain ⟨rfl, htail⟩ := List.cons.inj hafter
    have hmember : Nested outside ((head ++ [k.dot, k.member]) ++ tail) := by simpa using h
    -- The options, if there are any, and then the arguments are passed over in the run.
    obtain ⟨tail₁, rfl⟩ : ∃ tail₁, tail = k.optionTokens ++ tail₁ := by
      cases ho : k.options with
      | none => exact ⟨tail, by simp [optionTokens, ho]⟩
      | some o =>
        have hoptions : k.optionTokens = o.tokens := by simp [optionTokens, ho]
        rw [hoptions] at htail ⊢
        exact hmember.exists_of_bracketed hstop htail
    rw [List.append_assoc, List.append_cancel_left_eq] at htail
    rw [← List.append_assoc] at hmember
    obtain ⟨tail₂, rfl⟩ := hmember.exists_of_bracketed hstop htail
    exact ⟨tail₂, by simp [MemberCall.tail]⟩

end Nested

/-- Where a token records a call, a call of a member or of a function of the contract stands there. -/
theorem Focus.call_cases {s : Scope} {f : Focus} {p : Positioned} (h : p ∈ f.events s) (hcall : p.2.isCall = true) :
    (f.token.isPunct "." = true ∧ f.memberCall? s = some p) ∨
      (f.next?.map (·.opens .paren)).getD false = true ∧
        p = ((callEnd? f.after).elim f.index (f.index + 1 + ·), .internalCall f.token.text f.token.line) := by
  unfold events at h
  split at h
  · rename_i hdot
    exact .inl ⟨hdot, Option.mem_toList.mp h⟩
  · split at h
    · cases h
    · split at h
      · rename_i hnext
        rw [Bool.and_eq_true] at hnext
        split at h
        · cases h
        · rw [List.mem_singleton.mp h]
          refine .inr ⟨hnext.1, ?_⟩
          cases callEnd? f.after with
          | none => rfl
          | some n => rfl
      · split at h
        · rcases mem_stateAccess h with he | he <;> rw [he] at hcall <;> cases hcall
        · cases h

/-- A call that starts in a nested run ends in it. -/
theorem Focus.position_of_nested {s : Scope} {outside : Token → Bool} {f : Focus} {head tail rest : List Token}
    {stop : Token} {p : Positioned} (hn : Nested outside (head ++ f.token :: tail))
    (hafter : f.after = tail ++ stop :: rest) (hstop : stop.IsEnding) (h : p ∈ f.events s)
    (hcall : p.2.isCall = true) : p.1 ≤ f.index + tail.length := by
  rcases call_cases h hcall with ⟨hdot, hp⟩ | ⟨hnext, hp⟩
  · obtain ⟨k, after, hk⟩ := MemberCall.exists_of_memberCall? hdot hp
    rw [hk] at hn hafter hp
    obtain ⟨site, rfl, -⟩ := k.eq_of_memberCall?_atDot hp
    obtain ⟨tail', rfl⟩ := k.exists_of_nested hn hstop hafter
    simp only [index, MemberCall.tokens, List.length_cons, List.length_append]
    omega
  · cases tail with
    | nil => simp [next?, hafter, hstop.not_opens] at hnext
    | cons t tail =>
      have ht : t.opens .paren = true := by simpa [next?, hafter] using hnext
      have hopen : Nested outside ((head ++ [f.token]) ++ t :: tail) := by simpa using hn
      obtain ⟨e, he, -⟩ := hopen.exists_enclosed? rfl ht
      have hlength := Bracket.enclosed?_length he
      have hfound : Bracket.paren.enclosed? (tail ++ stop :: rest) = some _ :=
        Enclosed.find?_append_of_find? he (stop :: rest)
      have hend : callEnd? f.after = some (e.inner.length + 1) := by
        rw [hafter, List.cons_append, callEnd?, if_pos ht, hfound, Option.map_some]
      rw [hp, hend, Option.elim_some, List.length_cons]
      omega

end ContractAudit
