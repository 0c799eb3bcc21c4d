import ContractAudit.Proofs.Contract.Ranges
import ContractAudit.Proofs.Position.TypeText
import ContractAudit.Proofs.Token.Lexeme
import ContractAudit.Proofs.Token.Splitting

/-!
# Types as written have words

Identifiers of a source are no blanks. A type expression starts with an identifier, and so every type that a
contract, a parameter or a body declares has a first word.
-/

namespace ContractAudit

open Position

/-! ## Identifiers -/

/-- The identifiers of a run are no blanks. -/
def Worded (ts : List Token) : Prop := ∀ t ∈ ts, t.isIdent = true → HasWord t.text

theorem Worded.subset {ts ts' : List Token} (h : Worded ts) (hs : ts' ⊆ ts) : Worded ts' :=
  fun t ht => h t (hs ht)

theorem worded_tokenize (text : String) : Worded (tokenize text) := by
  intro t ht _
  obtain ⟨c, cs, htext, hblank, -⟩ := (lexeme_of_mem_tokenize ht).first
  exact ⟨c, by rw [htext]; exact List.mem_cons_self, hblank⟩

/-! ## Declared types -/

section Types

variable {ts rest taken : List Token}

/-- A type starts with the first token of its run, an identifier. -/
theorem head_of_splitType? (h : splitType? ts = some (taken, rest)) :
    ∃ t taken', taken = t :: taken' ∧ t.isIdent = true ∧ t ∈ ts := by
  unfold splitType? at h
  split at h
  · cases h
  · rename_i t ts
    split at h
    · cases h
    · rename_i ht
      have ht : t.isIdent = true := by simpa using ht
      split at h
      · split at h
        · cases h
        · split at h
          · obtain ⟨e, -, h⟩ := Option.bind_eq_some_iff.mp h
            obtain ⟨p, -, h⟩ := Option.bind_eq_some_iff.mp h
            cases h
            exact ⟨t, _, rfl, ht, List.mem_cons_self⟩
          · cases h
      · obtain ⟨p, -, h⟩ := Option.bind_eq_some_iff.mp h
        cases h
        exact ⟨t, _, rfl, ht, List.mem_cons_self⟩

theorem hasWord_of_splitType? (hw : Worded ts) (h : splitType? ts = some (taken, rest)) :
    HasWord (Token.render taken) := by
  obtain ⟨t, taken', rfl, ht, hmem⟩ := head_of_splitType? h
  exact (hw t hmem ht).append_left _

theorem TypedName.hasWord {specifiers : List String} {typed : TypedName} (hw : Worded ts)
    (h : ofTokens? specifiers ts = some typed) : HasWord typed.type := by
  obtain ⟨⟨taken, rest⟩, hs, h⟩ := Option.bind_eq_some_iff.mp h
  cases h
  exact hasWord_of_splitType? hw hs

theorem StateVariable.hasWord {v : StateVariable} (hw : Worded ts) (h : ofTokens? ts = some v) :
    HasWord v.declaredType := by
  obtain ⟨first, -, h⟩ := Option.bind_eq_some_iff.mp h
  obtain ⟨typed, ht, h⟩ := Option.bind_eq_some_iff.mp h
  have hword := TypedName.hasWord (hw.subset (List.takeWhile_subset _)) ht
  split at h
  · cases h
  · cases h
    exact hword

theorem Parameter.hasWord {p : Parameter} (hw : Worded ts) (h : p ∈ Parameter.ofTokens ts) :
    HasWord p.typeName := by
  obtain ⟨part, hpart, h⟩ := List.mem_filterMap.mp h
  obtain ⟨typed, ht, rfl⟩ := Option.map_eq_some_iff.mp h
  refine TypedName.hasWord (hw.subset fun t ht => ?_) ht
  exact Token.subset_of_mem_partsFrom part (List.mem_of_mem_filter hpart) ht

theorem Focus.hasWord_local? {f : Focus} {l : String × String} (hw : Worded (f.token :: f.after))
    (h : f.local? = some l) : HasWord l.2 := by
  unfold local? at h
  split at h
  · cases h
  · split at h
    · cases h
    · obtain ⟨⟨type, rest⟩, hs, h⟩ := Option.bind_eq_some_iff.mp h
      simp only at h
      split at h
      · split at h
        · cases h
          exact hasWord_of_splitType? hw hs
        · cases h
      · cases h

theorem hasWord_localsOf {parameters : List Parameter} {body : List Token} {l : String × String}
    (hp : ∀ p ∈ parameters, HasWord p.typeName) (hw : Worded body) (h : l ∈ localsOf parameters body) :
    HasWord l.2 := by
  rcases List.mem_append.mp h with h | h
  · obtain ⟨f, hf, hl⟩ := List.mem_filterMap.mp (List.mem_reverse.mp h)
    refine Focus.hasWord_local? (hw.subset ?_) hl
    rw [← Focus.run_of_mem_all hf]
    exact List.subset_append_right _ _
  · obtain ⟨p, hmem, rfl⟩ := List.mem_map.mp (List.mem_reverse.mp h)
    exact hp p (List.mem_of_mem_filter hmem)

end Types

/-! ## Members -/

/-- The types that a function declares in its parameters and its body have words. -/
structure RawFunction.HasWords (f : RawFunction) : Prop where
  parameters : ∀ p ∈ f.parameters, HasWord p.typeName
  body : Worded (f.body.getD [])

def Member.HasWords : Member → Prop
  | .stateVariable v => HasWord v.declaredType
  | .function f | .modifier f => f.HasWords
  | .typeName _ => True

section Members

variable {ts rest : List Token}

theorem RawFunction.hasWord_of_splitParameters {name : String} {line : Nat} {ps : List Parameter}
    (hw : Worded ts) (h : splitParameters name line ts = .ok (ps, rest)) :
    ∀ p ∈ ps, HasWord p.typeName := by
  unfold splitParameters at h
  split at h
  · cases h
    simp
  · rename_i t after
    split at h
    · split at h
      · cases h
      · rename_i e he
        cases h
        intro p hp
        refine Parameter.hasWord (hw.subset fun x hx => ?_) hp
        rw [← Enclosed.run_of_find? he]
        simp [hx]
    · cases h
      simp

theorem RawFunction.parameters_of_ofSpecifiers {name : String} {line : Nat} {ps : List Parameter}
    {raw : RawFunction} (h : ofSpecifiers name line ps ts = .ok (raw, rest)) : raw.parameters = ps := by
  unfold ofSpecifiers at h
  split at h
  · cases h
  · cases h
  · split at h
    · split at h
      · cases h
      · cases h
        rfl
    · cases h
      rfl

theorem RawFunction.hasWords_of_ofTokens {keyword : Token} {raw : RawFunction} (hw : Worded ts)
    (h : ofTokens keyword ts = .ok (raw, rest)) : raw.HasWords := by
  obtain ⟨head, stop, hrun, -⟩ := spans_of_ofTokens h
  unfold ofTokens at h
  split at h
  · cases h
  · rename_i hp
    refine ⟨?_, hw.subset fun t ht => ?_⟩
    · rw [parameters_of_ofSpecifiers h]
      exact hasWord_of_splitParameters (hw.subset (suffix_splitName keyword ts).subset) hp
    · rw [hrun]
      simp [ht]

theorem Member.suffix_of_next {t : Token} {m : Option Member} (h : next t ts = .ok (m, rest)) :
    rest <:+ ts := by
  rcases next_cases h with ⟨raw, -, -, hraw⟩ | ⟨-, hs⟩
  · obtain ⟨head, stop, hrun, -⟩ := RawFunction.spans_of_ofTokens hraw
    exact ⟨head ++ (raw.body.getD [] ++ [stop]), by rw [hrun]; simp⟩
  · exact hs

theorem Member.hasWords_of_next {t : Token} {m : Member} (hw : Worded (t :: ts))
    (h : next t ts = .ok (some m, rest)) : m.HasWords := by
  have hs : ∀ {m rest}, next.statement t ts = .ok (some m, rest) → m.HasWords := by
    intro m rest h
    simp only [next.statement, ofStatement?, Except.ok.injEq, Prod.mk.injEq] at h
    obtain ⟨h, -⟩ := h
    split at h
    · obtain ⟨name, -, rfl⟩ := Option.map_eq_some_iff.mp h
      trivial
    · split at h
      · cases h
      · obtain ⟨v, hv, rfl⟩ := Option.map_eq_some_iff.mp h
        exact StateVariable.hasWord (hw.subset (List.take_subset _ _)) hv
  unfold next at h
  split at h
  · split at h
    · cases h
    · rename_i raw rest hraw
      have hword := RawFunction.hasWords_of_ofTokens (hw.subset (List.subset_cons_self _ _)) hraw
      cases h
      split <;> exact hword
  · split at h
    · split at h
      · split at h
        · cases h
        · cases h
          trivial
      · exact hs h
    · exact hs h

theorem Member.hasWords_of_ofTokens {ms : List Member} (hw : Worded ts)
    (h : ofTokens ts = .ok ms) : ∀ m ∈ ms, m.HasWords := by
  fun_induction ofTokens ts generalizing ms with
  | case1 =>
    cases h
    simp
  | case2 => cases h
  | case3 => cases h
  | case4 t ts m rest hnext ms' hms' ih =>
    cases h
    intro x hx
    rcases List.mem_append.mp hx with hx | hx
    · cases m with
      | none => cases hx
      | some m =>
        rw [List.mem_singleton.mp hx]
        exact hasWords_of_next hw hnext
    · refine ih (hw.subset ?_) hms' x hx
      exact List.subset_cons_of_subset _ (suffix_of_next hnext).subset

end Members

/-! ## Scopes -/

/-- Every type that is declared in the scope has a word. -/
structure Scope.HasWords (s : Scope) : Prop where
  locals : ∀ l ∈ s.locals, HasWord l.2
  declared : ∀ v ∈ s.stateVariables, HasWord v.declaredType

end ContractAudit
