import ContractAudit.Detector.OutboundCall
import ContractAudit.Proofs.Contract.Events
import ContractAudit.Proofs.Token.Matching

/-!
# Calls in conditions

Whether a call stands in a condition is found out by reading backwards from it. The reading passes over brackets that
are closed before the call and goes on through those that enclose it, but a semicolon or a brace ends it, in a condition
as anywhere else. So a call in a condition is checked if what stands before it in the condition can be read through, and
otherwise the condition has no say in it.
-/

namespace ContractAudit

theorem Token.isPunctIn_of_isPunct {t : Token} {text : String} (h : t.isPunct text = true) (texts : List String) :
    t.isPunctIn texts = texts.contains text := by
  obtain ⟨hkind, rfl⟩ := isPunct_iff.mp h
  simp [isPunctIn, hkind]

theorem Token.exists_isPunct_of_isPunctIn {t : Token} {texts : List String} (h : t.isPunctIn texts = true) :
    ∃ text ∈ texts, t.isPunct text = true := by
  rw [isPunctIn, Bool.and_eq_true, List.contains_iff_mem, beq_iff_eq] at h
  exact ⟨t.text, h.2, isPunct_iff.mpr ⟨h.1, rfl⟩⟩

namespace OutboundCall

/-! ## Runs that are read through -/

/-- Ends the reading of a statement. -/
def isStop (t : Token) : Bool := t.isPunctIn [";", "\x7b", "\x7d"]

/-- Closes a bracket that can be passed over. -/
def closesGroup (t : Token) : Bool := t.isPunctIn [")", "]"]

/-- A run that is read backwards to its start. -/
inductive Clear : List Token → Prop where
  | nil : Clear []
  | token {run : List Token} {t : Token} (h : Clear run) (hgroup : closesGroup t = false) (hstop : isStop t = false) :
      Clear (run ++ [t])
  | group {run : List Token} {b : Bracket} (g : Bracketed b) (hb : b ≠ .brace) (h : Clear run) :
      Clear (run ++ g.tokens)

section Reading

variable {t : Token} {b : Bracket}

theorem statementStart_cons (t : Token) (before : List Token) :
    statementStart (t :: before) =
      if t.isPunctIn [")", "]"] then
        (t.closer?.bind (·.enclosedBack? before)).elim ⟨0, []⟩ fun e =>
          ⟨(statementStart e.rest).length + e.inner.length + 2, (statementStart e.rest).callers⟩
      else if t.isPunctIn ["(", "["] then
        ⟨(statementStart before).length + 1, before.head?.toList ++ (statementStart before).callers⟩
      else if t.isPunctIn [";", "\x7b", "\x7d"] then ⟨0, []⟩
      else ⟨(statementStart before).length + 1, (statementStart before).callers⟩ := by
  rw [statementStart]
  split
  · split
    · rename_i hnone
      rw [hnone]
      rfl
    · rename_i e he
      simp only [he, Option.elim_some]
  · rfl

theorem closesGroup_iff : closesGroup t = true ↔ ∃ b : Bracket, b ≠ .brace ∧ t.closes b = true := by
  constructor
  · intro h
    obtain ⟨text, htext, ht⟩ := Token.exists_isPunct_of_isPunctIn h
    rcases List.mem_cons.mp htext with rfl | htext
    · exact ⟨.paren, by decide, ht⟩
    · rw [List.mem_singleton.mp htext] at ht
      exact ⟨.square, by decide, ht⟩
  · rintro ⟨b, hb, hc⟩
    rw [closesGroup, Token.isPunctIn_of_isPunct hc]
    cases b with
    | paren => rfl
    | square => rfl
    | brace => exact absurd rfl hb

theorem statementStart_of_isStop (h : isStop t = true) (before : List Token) :
    statementStart (t :: before) = ⟨0, []⟩ := by
  obtain ⟨text, htext, ht⟩ := Token.exists_isPunct_of_isPunctIn h
  have hother : ∀ text ∈ [";", "\x7b", "\x7d"],
      [")", "]"].contains text = false ∧ ["(", "["].contains text = false := by
    decide
  rw [isStop, Token.isPunctIn_of_isPunct ht] at h
  rw [statementStart_cons]
  simp only [Token.isPunctIn_of_isPunct ht, hother text htext, h, Bool.false_eq_true, if_false, if_true]

/-- Brackets that are closed are passed over. -/
theorem statementStart_group (g : Bracketed b) (hb : b ≠ .brace) (before : List Token) :
    statementStart (g.tokens.reverse ++ before) =
      ⟨(statementStart before).length + g.tokens.length, (statementStart before).callers⟩ := by
  have hcloses : g.closing.isPunctIn [")", "]"] = true := closesGroup_iff.mpr ⟨b, hb, g.closes⟩
  have hback : g.closing.closer?.bind (·.enclosedBack? (g.inner.reverse ++ g.opening :: before)) =
      some ⟨g.inner.reverse, g.opening, before⟩ := by
    rw [Token.closer?_eq_some_iff.mpr g.closes]
    exact g.enclosedBack? before
  rw [g.reverse_tokens_append, statementStart_cons, if_pos hcloses, hback, g.length_tokens, Option.elim_some,
    List.length_reverse, Nat.add_assoc]

/-- What stands in front of the token if it opens a bracket. -/
def callerOf (t : Token) (before : List Token) : List Token :=
  if t.isPunctIn ["(", "["] then before.head?.toList else []

theorem statementStart_token (hgroup : closesGroup t = false) (hstop : isStop t = false) (before : List Token) :
    statementStart (t :: before) =
      ⟨(statementStart before).length + 1, callerOf t before ++ (statementStart before).callers⟩ := by
  unfold closesGroup at hgroup
  unfold isStop at hstop
  rw [statementStart_cons, callerOf]
  by_cases hopen : t.isPunctIn ["(", "["] = true
  · simp [hgroup, hopen]
  · simp [hgroup, hstop, hopen]

/-- A run that is read through adds its length, and callers that depend on the next token only. -/
theorem Clear.statementStart_append {run : List Token} (h : Clear run) (next : Option Token) :
    ∃ callers, ∀ before : List Token, before.head? = next → statementStart (run.reverse ++ before) =
      ⟨(statementStart before).length + run.length, callers ++ (statementStart before).callers⟩ := by
  induction h with
  | nil => exact ⟨[], fun before _ => rfl⟩
  | @token run t _ hgroup hstop ih =>
    obtain ⟨callers, ih⟩ := ih
    refine ⟨callerOf t (run.reverse ++ next.toList) ++ callers, fun before hnext => ?_⟩
    have hcaller : callerOf t (run.reverse ++ before) = callerOf t (run.reverse ++ next.toList) := by
      unfold callerOf
      rw [List.head?_append, List.head?_append, hnext, Option.head?_toList]
    rw [List.reverse_append, List.reverse_singleton, List.singleton_append, List.cons_append,
      statementStart_token hgroup hstop, ih before hnext, hcaller]
    simp [Nat.add_assoc]
  | @group run b g hb _ ih =>
    obtain ⟨callers, ih⟩ := ih
    refine ⟨callers, fun before hnext => ?_⟩
    rw [List.reverse_append, List.append_assoc, statementStart_group g hb, ih before hnext]
    simp [Nat.add_assoc]

/-- A run is read through, or up to a semicolon or a brace. -/
inductive Read : List Token → Prop where
  | clear {run : List Token} (h : Clear run) : Read run
  | stopped {front tail : List Token} {stop : Token} (hstop : isStop stop = true) (h : Clear tail) :
      Read (front ++ stop :: tail)

theorem Read.extend {run more : List Token} (h : Read run) (hmore : ∀ run, Clear run → Clear (run ++ more)) :
    Read (run ++ more) := by
  cases h with
  | clear h => exact .clear (hmore _ h)
  | stopped hstop h =>
    rw [List.append_assoc, List.cons_append]
    exact .stopped hstop (hmore _ h)

theorem Read.clear_of_forall {run : List Token} (h : Read run) (hrun : ∀ t ∈ run, isStop t = false) : Clear run := by
  cases h with
  | clear h => exact h
  | @stopped front tail stop hstop h =>
    rw [hrun stop (by simp)] at hstop
    cases hstop

/-- So it is for the beginning of a nested run. -/
theorem Read.of_nested {outside : Token → Bool} {part rest : List Token} (h : Nested outside (part ++ rest)) :
    Read part := by
  -- A closing bracket at the end takes a whole group off the run, so the induction is on the length.
  induction hn : part.length using Nat.strongRecOn generalizing part rest with
  | ind n ih =>
    rcases List.eq_nil_or_concat part with rfl | ⟨init, t, rfl⟩
    · exact .clear .nil
    · rw [List.concat_eq_append] at h hn ⊢
      rw [List.append_assoc, List.singleton_append] at h
      rw [List.length_append, List.length_singleton] at hn
      cases hgroup : closesGroup t with
      | true =>
        obtain ⟨b, hb, hc⟩ := closesGroup_iff.mp hgroup
        obtain ⟨start, opening, inner, rfl, ho, hi⟩ := h.exists_group rfl hc
        let g : Bracketed b := ⟨opening, inner, t, ho, hc, hi.balanced b⟩
        have hsplit : start ++ opening :: inner ++ [t] = start ++ g.tokens := by simp [g, Bracketed.tokens]
        rw [List.append_assoc] at h
        rw [hsplit]
        refine (ih start.length ?_ h rfl).extend fun run hrun => .group g hb hrun
        rw [List.length_append, List.length_cons] at hn
        omega
      | false =>
        cases hstop : isStop t with
        | true => exact .stopped hstop .nil
        | false => exact (ih init.length (by omega) h rfl).extend fun run hrun => .token hrun hgroup hstop

end Reading

/-! ## Conditions -/

/-- Behind a semicolon or a brace what stands in front of it has no say. -/
theorem isChecked_of_isStop {stop t : Token} {tail : List Token} (hstop : isStop stop = true) (h : Clear tail)
    (before before' after : List Token) :
    isChecked ⟨tail.reverse ++ stop :: before, t, after⟩ = isChecked ⟨tail.reverse ++ stop :: before', t, after⟩ := by
  obtain ⟨callers, hstart⟩ := h.statementStart_append (some stop)
  have hread (before : List Token) : statementStart (tail.reverse ++ stop :: before) = ⟨tail.length, callers⟩ := by
    rw [hstart _ rfl, statementStart_of_isStop hstop, Nat.zero_add, List.append_nil]
  have htake (before : List Token) : (tail.reverse ++ stop :: before).take tail.length = tail.reverse := by
    rw [← List.length_reverse, List.take_left]
  unfold isChecked
  simp only [hread, htake]

theorem Read.isChecked_append {run : List Token} (h : Read run) (hclear : ¬ Clear run) (t : Token)
    (before after : List Token) : isChecked ⟨run.reverse ++ before, t, after⟩ = isChecked ⟨run.reverse, t, after⟩ := by
  cases h with
  | clear h => exact absurd h hclear
  | stopped hstop h =>
    rw [List.reverse_append, List.reverse_cons, List.append_assoc, List.append_assoc, List.append_assoc]
    exact isChecked_of_isStop hstop h _ _ _

/-- A token of a body between the parentheses of a condition. -/
structure InCondition (body : List Token) where
  front : List Token
  keyword : Token
  parens : Bracketed .paren
  rest : List Token
  left : List Token
  token : Token
  right : List Token
  isOneOf_keyword : keyword.isOneOf ["require", "assert", "if", "while"] = true
  body_eq : body = front ++ keyword :: (parens.tokens ++ rest)
  inner_eq : parens.inner = left ++ token :: right

namespace InCondition

variable {body : List Token} (p : InCondition body)

/-- The place of the token in the body. -/
def index : Nat := p.front.length + 2 + p.left.length

/-- What stands behind the token in the body. -/
def after : List Token := p.right ++ p.parens.closing :: p.rest

/-- The token with the tokens around it in the body. -/
def spot : Focus := ⟨p.left.reverse ++ p.parens.opening :: p.keyword :: p.front.reverse, p.token, p.after⟩

/-- The token as if the body started in the condition. -/
def cutOff : Focus := ⟨p.left.reverse, p.token, p.after⟩

theorem getElem?_index : (Focus.all body)[p.index]? = some p.spot := by
  have hsplit : body = (p.front ++ p.keyword :: p.parens.opening :: p.left) ++ p.token :: p.after := by
    refine p.body_eq.trans ?_
    rw [Bracketed.tokens_append, p.inner_eq, after]
    simp
  have hindex : p.index = (p.front ++ p.keyword :: p.parens.opening :: p.left).length := by
    simp only [index, List.length_append, List.length_cons]
    omega
  have hall := congrArg Focus.all hsplit
  rw [hall, hindex, Focus.getElem?_all, spot]
  simp

/-- What stands before the token in the condition is the beginning of a nested run. -/
theorem read_left (hn : Nested (fun _ => true) body) : Read p.left := by
  rw [p.body_eq, List.append_cons] at hn
  have hinner := hn.inner_of_bracketed
  rw [p.inner_eq] at hinner
  exact .of_nested hinner

theorem isChecked_of_clear (h : Clear p.left) : isChecked p.spot = true := by
  obtain ⟨callers, hstart⟩ := h.statementStart_append (some p.parens.opening)
  have hopen : callerOf p.parens.opening (p.keyword :: p.front.reverse) = [p.keyword] := by
    rw [callerOf, Token.isPunctIn_of_isPunct p.parens.opens]
    rfl
  have hcallers : p.keyword ∈ (statementStart p.spot.before).callers := by
    have hgroup : closesGroup p.parens.opening = false := by
      rw [closesGroup, Token.isPunctIn_of_isPunct p.parens.opens]
      decide
    have hstop : isStop p.parens.opening = false := by
      rw [isStop, Token.isPunctIn_of_isPunct p.parens.opens]
      decide
    rw [spot, hstart _ rfl, statementStart_token hgroup hstop, hopen]
    simp
  have hany : (statementStart p.spot.before).callers.any (·.isOneOf ["require", "assert", "if", "while"]) = true :=
    List.any_eq_true.mpr ⟨p.keyword, hcallers, p.isOneOf_keyword⟩
  simp only [isChecked, hany, Bool.true_or]

/-- How a token in a condition is judged. -/
structure Judged : Prop where
  place : (Focus.all body)[p.index]? = some p.spot
  /-- It is checked if what stands before it in the condition is read through. -/
  checked : Clear p.left → isChecked p.spot = true
  /-- So it is without a semicolon or a brace in front of it. -/
  plain : (∀ t ∈ p.left, isStop t = false) → isChecked p.spot = true
  /-- Otherwise it is judged as if the condition were not there. -/
  ignored : ¬ Clear p.left → isChecked p.spot = isChecked p.cutOff

end InCondition

/-- In a body with properly nested brackets a token in a condition is checked by it exactly as far as the condition can
be read backwards from the token. -/
theorem condition_judged {body : List Token} (p : InCondition body) (hn : Nested (fun _ => true) body) : p.Judged where
  place := p.getElem?_index
  checked := p.isChecked_of_clear
  plain := fun hplain => p.isChecked_of_clear ((p.read_left hn).clear_of_forall hplain)
  ignored := fun hclear => (p.read_left hn).isChecked_append hclear ..

/-- The condition `ok[0] && to.send(1)` up to the call. -/
def guardedLeft : List Token :=
  [⟨.ident, "ok", 1, 4⟩, ⟨.punct, "[", 1, 6⟩, ⟨.number, "0", 1, 7⟩, ⟨.punct, "]", 1, 8⟩, ⟨.operator, "&&", 1, 10⟩,
    ⟨.ident, "to", 1, 13⟩, ⟨.punct, ".", 1, 15⟩]

/-- The condition `ok[0] && to.send(1)` behind the call. -/
def guardedRight : List Token := [⟨.punct, "(", 1, 20⟩, ⟨.number, "1", 1, 21⟩, ⟨.punct, ")", 1, 22⟩]

theorem condition_judged_guardedSend :
    ∃ p : InCondition (tokenize "if (ok[0] && to.send(1)) return;"),
      Nested (fun _ => true) (tokenize "if (ok[0] && to.send(1)) return;") ∧ p.token.text = "send" ∧ p.Judged ∧
        isChecked p.spot = true := by
  have htokens : tokenize "if (ok[0] && to.send(1)) return;" = ⟨.ident, "if", 1, 0⟩ :: ⟨.punct, "(", 1, 3⟩ ::
      (guardedLeft ++ ⟨.ident, "send", 1, 16⟩ :: (guardedRight ++
        [⟨.punct, ")", 1, 23⟩, ⟨.ident, "return", 1, 25⟩, ⟨.punct, ";", 1, 31⟩])) := by
    decide +kernel
  have hinner : Nested (fun _ => true) (guardedLeft ++ ⟨.ident, "send", 1, 16⟩ :: guardedRight) := by
    decide
  let p : InCondition (tokenize "if (ok[0] && to.send(1)) return;") :=
    { front := []
      keyword := ⟨.ident, "if", 1, 0⟩
      parens := ⟨⟨.punct, "(", 1, 3⟩, _, ⟨.punct, ")", 1, 23⟩, rfl, rfl, hinner.balanced _⟩
      rest := [⟨.ident, "return", 1, 25⟩, ⟨.punct, ";", 1, 31⟩]
      left := guardedLeft
      token := ⟨.ident, "send", 1, 16⟩
      right := guardedRight
      isOneOf_keyword := rfl
      body_eq := by rw [htokens, Bracketed.tokens_append]; simp
      inner_eq := rfl }
  have hn : Nested (fun _ => true) (tokenize "if (ok[0] && to.send(1)) return;") := by
    rw [htokens]
    decide
  have hjudged := condition_judged p hn
  exact ⟨p, hn, rfl, hjudged, hjudged.plain (show ∀ t ∈ guardedLeft, isStop t = false by decide)⟩

/-- A payout whose condition calls with options before it sends. -/
def optionPayout : SourceUnit where
  name := "Payout.sol"
  path := ""
  text := "contract Payout \x7b function pay(Pool pool, address payable to) external " ++
    "\x7b require(pool.deposit\x7bvalue: 1\x7d() > 0 && to.send(1)); \x7d \x7d"

set_option maxRecDepth 4000 in
/-- The sending stands in the condition and is not checked. -/
theorem unchecked_in_condition_optionPayout :
    (optionPayout.declared.flatMap (·.functions)).map (fun f =>
      (Token.render f.bodyTokens, Token.areNested [] f.bodyTokens,
        ((Focus.all f.bodyTokens).filter (·.token.isName "send")).map isChecked)) =
      [("require(pool.deposit \x7b value : 1 \x7d () > 0 && to.send(1));", true, [false])] := by
  have hs : optionPayout.text = String.ofList (_ ++ _) := (String.ofList_append ..).symm
  rw [SourceUnit.declared, SourceUnit.contracts, tokenize, hs, String.toList_ofList]
  decide +kernel

end OutboundCall

end ContractAudit
