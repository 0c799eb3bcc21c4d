import ContractAudit.Proofs.Contract.Effects
import ContractAudit.Proofs.Contract.Reading
import ContractAudit.Proofs.Token.Order

/-!
# Where functions stand in a source

Every reader takes tokens from the front of its run and hands on the rest. So the functions of a source stand
in its tokens one after the other, each from its keyword to the token that ends it, with its body between its
braces. Lines and offsets then follow from the order of the tokens.
-/

namespace ContractAudit

/-! ## Lines of events -/

/-- The line of an event. -/
def Event.line : Event → Nat
  | read _ line | write _ line | internalCall _ line => line
  | externalCall site => site.line

@[simp] theorem Event.line_effect (event : Event) (i : Nat) : (event.effect i).line = event.line := by
  cases event <;> rfl

/-- An event stands at the line of a token of the body. -/
theorem exists_line_of_mem_eventsOf {s : Scope} {body : List Token} {p : Positioned}
    (h : p ∈ eventsOf s body) : ∃ t ∈ body, p.2.line = t.line := by
  obtain ⟨f, hf, hp⟩ := List.mem_flatMap.mp h
  rw [← Focus.run_of_mem_all hf]
  rcases Focus.mem_events hp with ⟨site, he, member, hm, hline⟩ | ⟨-, he⟩ | ⟨-, he | he⟩ <;> rw [he]
  · exact ⟨member, by simp [hm], hline⟩
  · exact ⟨f.token, by simp, rfl⟩
  · exact ⟨f.token, by simp, rfl⟩
  · exact ⟨f.token, by simp, rfl⟩

theorem exists_mem_of_mem_callSitesOf {events : List Positioned} {site : CallSite}
    (h : site ∈ callSitesOf events) : ∃ p ∈ events, p.2 = .externalCall site := by
  obtain ⟨p, hp, hs⟩ := List.mem_filterMap.mp h
  refine ⟨p, hp, ?_⟩
  split at hs
  · rename_i he
    cases hs
    exact he
  · cases hs

namespace RawFunction

theorem exists_line_of_mem_events {s : Scope} {raw : RawFunction} {p : Positioned}
    (h : p ∈ raw.events s) : ∃ t ∈ raw.body.getD [], p.2.line = t.line := by
  unfold events at h
  split at h
  · rename_i body hbody
    simpa only [hbody, Option.getD_some] using exists_line_of_mem_eventsOf h
  · cases h

end RawFunction

/-! ## Where a function stands -/

/-- A function that reaches from `keyword` to `stop`, with `head` between its keyword and its body. -/
structure Function.Spans (f : Function) (keyword : Token) (head : List Token) (stop : Token) : Prop where
  line : f.line = keyword.line
  endLine : f.endLine = stop.line
  opening : f.hasBody = true → ∃ t, head.getLast? = some t ∧ t.opens .brace = true
  closing : f.hasBody = true → stop.closes .brace = true
  ending : f.hasBody = false → stop.isPunct ";" = true
  balanced : Bracket.brace.Balanced f.bodyTokens
  sites : ∀ site ∈ f.callSites, ∃ t ∈ f.bodyTokens, site.line = t.line
  effects : ∀ e ∈ f.effects, ∃ t ∈ f.bodyTokens, e.line = t.line

/-- The functions stand in the run one after the other. -/
inductive Function.InOrder : List Token → List Function → Prop where
  | nil (run : List Token) : InOrder run []
  | cons {before head rest : List Token} {keyword stop : Token} {f : Function} {fs : List Function}
      (hf : f.Spans keyword head stop) (h : InOrder rest fs) :
      InOrder (before ++ keyword :: (head ++ (f.bodyTokens ++ stop :: rest))) (f :: fs)

namespace Function.InOrder

variable {run run' : List Token} {fs fs' : List Function} {f : Function}

theorem prepend (before : List Token) (h : InOrder run fs) : InOrder (before ++ run) fs := by
  cases h with
  | nil => exact .nil _
  | cons hf h =>
    rw [← List.append_assoc]
    exact .cons hf h

theorem append (h : InOrder run fs) (h' : InOrder run' fs') : InOrder (run ++ run') (fs ++ fs') := by
  induction h with
  | nil run => exact h'.prepend run
  | cons hf h ih => simpa using InOrder.cons hf ih

theorem extend (h : InOrder run fs) (after : List Token) : InOrder (run ++ after) fs := by
  simpa using h.append (.nil after)

/-- What one of the functions takes up is a part of the run. -/
theorem exists_spans_of_mem (h : InOrder run fs) (hf : f ∈ fs) :
    ∃ keyword head stop, f.Spans keyword head stop ∧
      keyword :: (head ++ (f.bodyTokens ++ [stop])) <:+: run := by
  induction h with
  | nil => cases hf
  | @cons before head rest keyword stop g gs hg h ih =>
    rcases List.mem_cons.mp hf with rfl | hf
    · exact ⟨keyword, head, stop, hg, before, rest, by simp⟩
    · obtain ⟨keyword', head', stop', hs, hin⟩ := ih hf
      refine ⟨keyword', head', stop', hs, hin.trans ?_⟩
      refine ⟨before ++ keyword :: (head ++ (g.bodyTokens ++ [stop])), [], ?_⟩
      simp

theorem mem_of_mem_body (h : InOrder run fs) (hf : f ∈ fs) {t : Token} (ht : t ∈ f.bodyTokens) :
    t ∈ run := by
  obtain ⟨keyword, head, stop, -, hin⟩ := h.exists_spans_of_mem hf
  exact hin.subset (by simp [ht])

end Function.InOrder

/-! ## What the readers take -/

theorem Function.exists_line_of_mem_callSites {kind : ContractKind} {s : Scope} {raw : RawFunction}
    {site : CallSite} (h : site ∈ (ofRaw kind s raw).callSites) :
    ∃ t ∈ raw.body.getD [], site.line = t.line := by
  obtain ⟨p, hp, he⟩ := exists_mem_of_mem_callSitesOf h
  obtain ⟨t, ht, hline⟩ := raw.exists_line_of_mem_events hp
  exact ⟨t, ht, by rw [← hline, he]; rfl⟩

theorem Function.exists_line_of_mem_effects {kind : ContractKind} {s : Scope} {raw : RawFunction}
    {e : Effect} (h : e ∈ (ofRaw kind s raw).effects) : ∃ t ∈ raw.body.getD [], e.line = t.line := by
  obtain ⟨position, hp⟩ := exists_numbered_of_mem_effectsOf h
  obtain ⟨event, i, hmem, rfl, -⟩ := exists_event_of_mem_numberEvents hp
  rw [Event.line_effect]
  exact raw.exists_line_of_mem_events hmem

/-- More tokens may stand between the keyword and the body. -/
theorem Function.Spans.prepend {f : Function} {keyword stop : Token} {head : List Token}
    (h : f.Spans keyword head stop) (taken : List Token) : f.Spans keyword (taken ++ head) stop where
  line := h.line
  endLine := h.endLine
  opening := by
    intro hb
    obtain ⟨t, ht, ho⟩ := h.opening hb
    exact ⟨t, by simp [ht], ho⟩
  closing := h.closing
  ending := h.ending
  balanced := h.balanced
  sites := h.sites
  effects := h.effects

namespace RawFunction

theorem run_of_splitSpecifiers {ts taken rest : List Token} {t : Token}
    (h : splitSpecifiers ts = some (taken, some (t, rest))) :
    taken ++ t :: rest = ts ∧ (t.isPunct "\x7b" || t.isPunct ";") = true := by
  fun_induction splitSpecifiers ts generalizing taken with
  | case1 => cases h
  | case2 t' ts' ht =>
    cases h
    exact ⟨rfl, ht⟩
  | case3 => cases h
  | case4 t' ts' _ _ e he ih =>
    obtain ⟨⟨taken', tail⟩, h', heq⟩ := Option.map_eq_some_iff.mp h
    cases heq
    obtain ⟨hrun, ht⟩ := ih h'
    refine ⟨?_, ht⟩
    rw [← Enclosed.run_of_find? he, ← hrun]
    simp
  | case5 t' ts' _ _ ih =>
    obtain ⟨⟨taken', tail⟩, h', heq⟩ := Option.map_eq_some_iff.mp h
    cases heq
    obtain ⟨hrun, ht⟩ := ih h'
    exact ⟨by rw [← hrun]; rfl, ht⟩

theorem suffix_splitName (keyword : Token) (ts : List Token) : (splitName keyword ts).2 <:+ ts := by
  unfold splitName
  split
  · split
    · exact List.suffix_cons _ _
    · exact List.suffix_rfl
  · exact List.suffix_rfl

theorem suffix_splitParameters {name : String} {line : Nat} {ts rest : List Token}
    {ps : List Parameter} (h : splitParameters name line ts = .ok (ps, rest)) : rest <:+ ts := by
  unfold splitParameters at h
  split at h
  · cases h
    exact List.suffix_rfl
  · split at h
    · split at h
      · cases h
      · rename_i he
        cases h
        exact (Bracket.suffix_of_enclosed? he).trans (List.suffix_cons _ _)
    · cases h
      exact List.suffix_rfl

theorem spans_of_ofSpecifiers {name : String} {keyword : Token} {ps : List Parameter}
    {ts rest : List Token} {raw : RawFunction}
    (h : ofSpecifiers name keyword.line ps ts = .ok (raw, rest)) :
    ∃ head stop, ts = head ++ (raw.body.getD [] ++ stop :: rest) ∧
      ∀ kind s, (Function.ofRaw kind s raw).Spans keyword head stop := by
  unfold ofSpecifiers at h
  split at h
  · cases h
  · cases h
  · rename_i specifiers t after hs
    obtain ⟨hrun, hstop⟩ := run_of_splitSpecifiers hs
    split at h
    · rename_i hbrace
      split at h
      · cases h
      · rename_i e he
        cases h
        refine ⟨specifiers ++ [t], e.close, ?_, fun kind s => ?_⟩
        · rw [← hrun, ← Enclosed.run_of_find? he]
          simp
        · exact {
            line := rfl
            endLine := rfl
            opening := fun _ => ⟨t, by simp, hbrace⟩
            closing := fun _ => Bracket.closes_close_of_enclosed? he
            ending := fun hb => by cases hb
            balanced := Bracket.balanced_of_enclosed? he
            sites := fun _ => Function.exists_line_of_mem_callSites
            effects := fun _ => Function.exists_line_of_mem_effects }
    · rename_i hbrace
      cases h
      refine ⟨specifiers, t, hrun.symm, fun kind s => ?_⟩
      exact {
        line := rfl
        endLine := rfl
        opening := fun hb => by cases hb
        closing := fun hb => by cases hb
        ending := fun _ => by simpa [hbrace] using hstop
        balanced := .nil _
        sites := fun _ => Function.exists_line_of_mem_callSites
        effects := fun _ => Function.exists_line_of_mem_effects }

theorem spans_of_ofTokens {keyword : Token} {ts rest : List Token} {raw : RawFunction}
    (h : ofTokens keyword ts = .ok (raw, rest)) :
    ∃ head stop, ts = head ++ (raw.body.getD [] ++ stop :: rest) ∧
      ∀ kind s, (Function.ofRaw kind s raw).Spans keyword head stop := by
  unfold ofTokens at h
  split at h
  · cases h
  · rename_i hp
    obtain ⟨taken, htaken⟩ := (suffix_splitParameters hp).trans (suffix_splitName keyword ts)
    obtain ⟨head, stop, hrun, hf⟩ := spans_of_ofSpecifiers h
    refine ⟨taken ++ head, stop, ?_, fun kind s => (hf kind s).prepend taken⟩
    rw [← htaken, hrun, List.append_assoc]

end RawFunction

namespace Member

/-- The functions among the members that one step reads. -/
theorem functions_append (ms ms' : List Member) :
    functions (ms ++ ms') = functions ms ++ functions ms' := List.filterMap_append

/-- A step that reads a function takes what the function takes up; any other takes some tokens. -/
theorem next_cases {t : Token} {ts rest : List Token} {m : Option Member} (h : next t ts = .ok (m, rest)) :
    (∃ raw, m = some (.function raw) ∧ startsFunction t ts = true ∧
        RawFunction.ofTokens t ts = .ok (raw, rest)) ∨
      (functions m.toList = [] ∧ rest <:+ ts) := by
  have hs : ∀ {m rest}, next.statement t ts = .ok (m, rest) → functions m.toList = [] ∧ rest <:+ ts := by
    intro m rest h
    cases h
    refine ⟨?_, List.drop_suffix _ _⟩
    unfold ofStatement?
    split
    · cases nameAfter? ts <;> rfl
    · split
      · rfl
      · cases StateVariable.ofTokens? _ <;> rfl
  unfold next at h
  split at h
  · rename_i hstart
    split at h
    · cases h
    · rename_i raw rest hraw
      cases h
      split
      · obtain ⟨head, stop, hrun, -⟩ := RawFunction.spans_of_ofTokens hraw
        refine .inr ⟨rfl, head ++ (raw.body.getD [] ++ [stop]), ?_⟩
        rw [hrun]
        simp
      · exact .inl ⟨raw, rfl, hstart, hraw⟩
  · split at h
    · split at h
      · split at h
        · cases h
        · rename_i he
          cases h
          exact .inr ⟨rfl, (Bracket.suffix_of_enclosed? he).trans (List.suffix_append [_, _] _)⟩
      · exact .inr (hs h)
    · exact .inr (hs h)

theorem inOrder_of_ofTokens {ts : List Token} {ms : List Member} (h : ofTokens ts = .ok ms)
    (kind : ContractKind) (s : Scope) :
    Function.InOrder ts ((functions ms).map (Function.ofRaw kind s)) := by
  fun_induction ofTokens ts generalizing ms with
  | case1 =>
    cases h
    exact .nil _
  | case2 => cases h
  | case3 => cases h
  | case4 t ts m rest hnext ms' hms' ih =>
    cases h
    rw [functions_append, List.map_append]
    rcases next_cases hnext with ⟨raw, rfl, -, hraw⟩ | ⟨hnone, taken, rfl⟩
    · obtain ⟨head, stop, rfl, hf⟩ := RawFunction.spans_of_ofTokens hraw
      show Function.InOrder ([] ++ t :: _) (_ :: _)
      exact .cons (hf kind s) (ih hms')
    · rw [hnone]
      exact (ih hms').prepend (t :: taken)

end Member

/-! ## Where contracts stand -/

/-- The contracts stand in the run one after the other, and the functions of each in order after its name. -/
inductive Contract.InOrder : List Token → List Contract → Prop where
  | nil (run : List Token) : InOrder run []
  | cons {before inner rest : List Token} {name : Token} {c : Contract} {cs : List Contract}
      (hline : c.line = name.line) (hf : Function.InOrder inner c.functions) (h : InOrder rest cs) :
      InOrder (before ++ name :: (inner ++ rest)) (c :: cs)

namespace Contract

theorem InOrder.prepend {run : List Token} {cs : List Contract} (before : List Token)
    (h : InOrder run cs) : InOrder (before ++ run) cs := by
  cases h with
  | nil => exact .nil _
  | cons hline hf h =>
    rw [← List.append_assoc]
    exact .cons hline hf h

theorem InOrder.functions {run : List Token} {cs : List Contract} (h : InOrder run cs) :
    Function.InOrder run (cs.flatMap (·.functions)) := by
  induction h with
  | nil => exact .nil _
  | @cons before inner rest name c cs hline hf h ih =>
    rw [List.flatMap_cons, List.append_cons]
    exact (hf.append ih).prepend _

theorem inOrder_of_ofTokens {unit : SourceUnit} {kind : ContractKind} {name : Token}
    {ts rest : List Token} {c : Contract} (h : ofTokens unit kind name ts = .ok (c, rest)) :
    c.line = name.line ∧ ∃ inner, ts = inner ++ rest ∧ Function.InOrder inner c.functions := by
  unfold ofTokens at h
  split at h
  · cases h
  · rename_i t after hdrop
    split at h
    · split at h
      · cases h
      · rename_i e he
        split at h
        · cases h
        · rename_i members hm
          cases h
          refine ⟨rfl, ts.takeWhile inHeader ++ t :: (e.inner ++ [e.close]), ?_, ?_⟩
          · calc ts = ts.takeWhile inHeader ++ ts.dropWhile inHeader :=
                (List.takeWhile_append_dropWhile).symm
              _ = _ := by rw [hdrop, ← Enclosed.run_of_find? he]; simp
          · rw [List.append_cons]
            exact ((Member.inOrder_of_ofTokens hm kind _).extend [e.close]).prepend _
    · cases h

theorem eq_of_headAt? {prev : Option Token} {t name : Token} {ts rest : List Token} {kind : ContractKind}
    (h : headAt? prev t ts = some (kind, name, rest)) :
    ts = name :: rest ∧ ContractKind.ofWord? t.text = some kind := by
  unfold headAt? at h
  split at h
  · cases h
  · split at h
    · obtain ⟨k, hk, heq⟩ := Option.map_eq_some_iff.mp h
      cases heq
      exact ⟨rfl, hk⟩
    · cases h

theorem inOrder_of_allFrom {unit : SourceUnit} {prev : Option Token} {ts : List Token}
    {cs : List Contract} (h : allFrom unit prev ts = .ok cs) : InOrder ts cs := by
  fun_induction allFrom unit prev ts generalizing cs with
  | case1 =>
    cases h
    exact .nil _
  | case2 => cases h
  | case3 => cases h
  | case4 prev t ts kind name rest hh c rest' hc cs' hcs' ih =>
    cases h
    obtain ⟨hline, inner, rfl, hf⟩ := inOrder_of_ofTokens hc
    rw [(eq_of_headAt? hh).1]
    show InOrder ([t] ++ name :: (inner ++ rest')) (c :: cs')
    exact .cons hline hf (ih hcs')
  | case5 => cases h
  | case6 prev t ts hh ho e he ih =>
    obtain ⟨taken, hrun⟩ := Bracket.suffix_of_enclosed? he
    rw [← hrun]
    exact (ih h).prepend (t :: taken)
  | case7 prev t ts hh ho ih => exact (ih h).prepend [t]

end Contract

theorem SourceUnit.inOrder_of_contracts {unit : SourceUnit} {cs : List Contract}
    (h : unit.contracts = .ok cs) : Contract.InOrder (tokenize unit.text) cs := by
  rw [contracts_eq] at h
  split at h
  · cases h
  · cases h
  · rename_i hall
    cases h
    exact Contract.inOrder_of_allFrom hall

/-! ## Ranges -/

/-- The body of the function is the slice of the tokens from `start` on. In front of it stands the brace that
opens it and behind it the brace that closes it; without a body there is the semicolon only. -/
structure Function.OwnsRange (ts : List Token) (f : Function) (start : Nat) : Prop where
  slice : (ts.drop start).take f.bodyTokens.length = f.bodyTokens
  balanced : Bracket.brace.Balanced f.bodyTokens
  opening : f.hasBody = true → ∃ t, ts[start - 1]? = some t ∧ t.opens .brace = true
  ending : ∃ t, ts[start + f.bodyTokens.length]? = some t ∧ t.line = f.endLine ∧
    (if f.hasBody then t.closes .brace else t.isPunct ";") = true

/-- What the function holds stands on its lines, after the name of its contract. -/
structure Function.KeepsLines (f : Function) (c : Contract) : Prop where
  contract : c.line ≤ f.line
  ends : f.line ≤ f.endLine
  tokens : ∀ t ∈ f.bodyTokens, f.line ≤ t.line ∧ t.line ≤ f.endLine
  sites : ∀ site ∈ f.callSites, f.line ≤ site.line ∧ site.line ≤ f.endLine
  effects : ∀ e ∈ f.effects, f.line ≤ e.line ∧ e.line ≤ f.endLine

/-- The functions of the contracts own slices of the tokens that follow each other with no token in common. -/
structure Contract.OwnRanges (ts : List Token) (cs : List Contract) : Prop where
  ranges : ∃ ranges : List (Function × Nat), ranges.map (·.1) = cs.flatMap (·.functions) ∧
    (∀ r ∈ ranges, r.1.OwnsRange ts r.2) ∧
    ranges.Pairwise fun r r' => r.2 + r.1.bodyTokens.length < r'.2
  offsets : (cs.flatMap (·.functions)).Pairwise fun f g =>
    ∀ t ∈ f.bodyTokens, ∀ t' ∈ g.bodyTokens, t.offset < t'.offset
  lines : ∀ c ∈ cs, ∀ f ∈ c.functions, f.KeepsLines c

section

variable {f : Function} {keyword stop : Token} {head rest ts : List Token} {n : Nat}

theorem Function.drop_head (hrun : ts.drop n = keyword :: (head ++ (f.bodyTokens ++ stop :: rest))) :
    ts.drop (n + (head.length + 1)) = f.bodyTokens ++ stop :: rest := by
  rw [← List.drop_drop, hrun]
  simp

theorem Function.Spans.ownsRange (hf : f.Spans keyword head stop)
    (hrun : ts.drop n = keyword :: (head ++ (f.bodyTokens ++ stop :: rest))) :
    f.OwnsRange ts (n + (head.length + 1)) := by
  have hslice := drop_head hrun
  refine ⟨by rw [hslice]; simp, hf.balanced, fun hb => ?_, stop, ?_, hf.endLine.symm, ?_⟩
  · obtain ⟨t, ht, ho⟩ := hf.opening hb
    refine ⟨t, ?_, ho⟩
    have hpos : 0 < head.length := List.length_pos_iff.mpr fun h => by simp [h] at ht
    have hat : (ts.drop n)[head.length]? = some t := by
      rw [hrun, List.getElem?_cons, if_neg (by omega), List.getElem?_append_left (by omega), ← ht,
        List.getLast?_eq_getElem?]
    rwa [List.getElem?_drop] at hat
  · rw [← List.getElem?_drop, hslice]
    simp
  · cases hb : f.hasBody with
    | true => simpa using hf.closing hb
    | false => simpa using hf.ending hb

end

namespace Function.InOrder

variable {run : List Token} {fs : List Function} {f : Function}

theorem exists_ranges (h : InOrder run fs) {ts : List Token} {n : Nat} (hrun : ts.drop n = run) :
    ∃ ranges : List (Function × Nat), ranges.map (·.1) = fs ∧
      (∀ r ∈ ranges, n ≤ r.2 ∧ r.1.OwnsRange ts r.2) ∧
      ranges.Pairwise fun r r' => r.2 + r.1.bodyTokens.length < r'.2 := by
  induction h generalizing n with
  | nil => exact ⟨[], rfl, by simp, .nil⟩
  | @cons before head rest keyword stop f fs hf h ih =>
    have hkey : ts.drop (n + before.length) = keyword :: (head ++ (f.bodyTokens ++ stop :: rest)) := by
      rw [← List.drop_drop, hrun]
      simp
    -- The search for the next function starts behind the token that ends this one.
    have hrest : ts.drop (n + before.length + (head.length + 1) + (f.bodyTokens.length + 1)) = rest := by
      rw [← List.drop_drop, drop_head hkey]
      simp
    obtain ⟨ranges, hmap, howns, hpair⟩ := ih hrest
    refine ⟨(f, n + before.length + (head.length + 1)) :: ranges, by rw [List.map_cons, hmap],
      List.forall_mem_cons.mpr ⟨⟨by omega, hf.ownsRange hkey⟩, fun r hr => ?_⟩,
      List.pairwise_cons.mpr ⟨fun r hr => ?_, hpair⟩⟩
    · have hn := (howns r hr).1
      exact ⟨by omega, (howns r hr).2⟩
    · have hn := (howns r hr).1
      show n + before.length + (head.length + 1) + f.bodyTokens.length < r.2
      omega

theorem pairwise_offset (h : InOrder run fs) (hrun : run.Pairwise Token.Precedes) :
    fs.Pairwise fun f g => ∀ t ∈ f.bodyTokens, ∀ t' ∈ g.bodyTokens, t.offset < t'.offset := by
  induction h with
  | nil => exact .nil
  | @cons before head rest keyword stop f fs hf h ih =>
    have hcut : before ++ keyword :: (head ++ (f.bodyTokens ++ stop :: rest)) =
        (before ++ keyword :: (head ++ (f.bodyTokens ++ [stop]))) ++ rest := by simp
    rw [hcut, List.pairwise_append] at hrun
    obtain ⟨-, hrest, hcross⟩ := hrun
    refine List.pairwise_cons.mpr ⟨fun g hg t ht t' ht' => ?_, ih hrest⟩
    exact (hcross t (by simp [ht]) t' (h.mem_of_mem_body hg ht')).1

/-- A function that stands after the name of its contract keeps to its lines. -/
theorem keepsLines (h : InOrder run fs) {name : Token} {c : Contract} (hline : c.line = name.line)
    (hrun : (name :: run).Pairwise Token.Precedes) (hf : f ∈ fs) : f.KeepsLines c := by
  obtain ⟨keyword, head, stop, hs, hin⟩ := h.exists_spans_of_mem hf
  obtain ⟨hname, hrun⟩ := List.pairwise_cons.mp hrun
  obtain ⟨hkey, hpart⟩ := List.pairwise_cons.mp (hrun.sublist hin.sublist)
  have htokens : ∀ t ∈ f.bodyTokens, f.line ≤ t.line ∧ t.line ≤ f.endLine := by
    intro t ht
    rw [hs.line, hs.endLine]
    rw [← List.append_assoc, List.pairwise_append] at hpart
    exact ⟨(hkey t (by simp [ht])).2, (hpart.2.2 t (by simp [ht]) stop (by simp)).2⟩
  exact {
    contract := by
      rw [hline, hs.line]
      exact (hname keyword (hin.subset (by simp))).2
    ends := by
      rw [hs.line, hs.endLine]
      exact (hkey stop (by simp)).2
    tokens := htokens
    sites := fun site hsite => by
      obtain ⟨t, ht, he⟩ := hs.sites site hsite
      exact he ▸ htokens t ht
    effects := fun e heff => by
      obtain ⟨t, ht, he⟩ := hs.effects e heff
      exact he ▸ htokens t ht }

end Function.InOrder

theorem Contract.InOrder.keepsLines {run : List Token} {cs : List Contract} (h : InOrder run cs)
    (hrun : run.Pairwise Token.Precedes) : ∀ c ∈ cs, ∀ f ∈ c.functions, f.KeepsLines c := by
  induction h with
  | nil => simp
  | @cons before inner rest name c cs hline hf h ih =>
    have hcut : before ++ name :: (inner ++ rest) = before ++ ((name :: inner) ++ rest) := by simp
    rw [hcut, List.pairwise_append, List.pairwise_append] at hrun
    obtain ⟨-, ⟨hinner, hrest, -⟩, -⟩ := hrun
    exact List.forall_mem_cons.mpr ⟨fun f => hf.keepsLines hline hinner, ih hrest⟩

/-- The functions of a source that has a model own disjoint ranges of its tokens, in source order, and stay on
their lines. -/
theorem SourceUnit.functions_own_ranges {unit : SourceUnit} {cs : List Contract}
    (h : unit.contracts = .ok cs) : Contract.OwnRanges (tokenize unit.text) cs := by
  have hcs := inOrder_of_contracts h
  have hts := pairwise_tokenize unit.text
  obtain ⟨ranges, hmap, howns, hpair⟩ := hcs.functions.exists_ranges List.drop_zero
  exact {
    ranges := ⟨ranges, hmap, fun r hr => (howns r hr).2, hpair⟩
    offsets := hcs.functions.pairwise_offset hts
    lines := hcs.keepsLines hts }

/-- An interface and a vault whose body has braces of its own. -/
def bracedVault : SourceUnit where
  name := "Vault.sol"
  path := ""
  text := "interface Hook \x7b\n function burn() external;\n\x7d contract Vault \x7b Hook hook;\n" ++
    "function exit() public \x7b\n if (open) \x7b hook.burn(); \x7d\n \x7d modifier m \x7b _; \x7d\n" ++
    "function open() internal \x7b \x7d \x7d"

theorem SourceUnit.functions_own_ranges_bracedVault :
    ∃ cs, bracedVault.contracts = .ok cs ∧
      (cs.flatMap (·.functions)).map (fun f => (f.name, f.line, f.endLine, f.bodyTokens.length)) =
        [("burn", 2, 2, 0), ("exit", 4, 6, 12), ("open", 7, 7, 0)] ∧
      Contract.OwnRanges (tokenize bracedVault.text) cs := by
  have h : (bracedVault.declared.flatMap (·.functions)).map
      (fun f => (f.name, f.line, f.endLine, f.bodyTokens.length)) =
        [("burn", 2, 2, 0), ("exit", 4, 6, 12), ("open", 7, 7, 0)] := by
    have hs : bracedVault.text = String.ofList ((_ ++ _) ++ _) :=
      ((String.ofList_append ..).trans (congrArg (· ++ _) (String.ofList_append ..))).symm
    rw [declared, contracts, tokenize, hs, String.toList_ofList]
    decide +kernel
  cases hu : bracedVault.contracts with
  | error e =>
    rw [declared_of_error hu] at h
    cases h
  | ok cs =>
    rw [declared_of_ok hu] at h
    exact ⟨cs, rfl, h, functions_own_ranges hu⟩

end ContractAudit
