import ContractAudit.Proofs.Contract
import ContractAudit.Proofs.Contract.Ranges
import ContractAudit.Proofs.Token.Lexeme

/-!
# Names are identifiers

The name of a contract is an identifier of its source. The name of a function is one too, or else the keyword
that introduces it, or `fallback`. So every name that is extracted is a lexeme, made of the characters of
identifiers alone.
-/

namespace ContractAudit

open Lexer

/-- The text of an identifier. -/
def IsName (name : String) : Prop := Lexeme .ident name.toList

theorem IsName.isIdentPart {name : String} (h : IsName name) {c : Char} (hc : c ∈ name.toList) :
    isIdentPart c = true := by
  unfold IsName at h
  generalize name.toList = cs at h hc
  cases h with
  | ident hfirst hrest =>
    rcases List.mem_cons.mp hc with rfl | hc
    · exact isIdentPart_of_isIdentStart hfirst
    · exact hrest c hc

/-- The identifiers of the run are lexemes. -/
def Named (ts : List Token) : Prop := ∀ t ∈ ts, t.isIdent = true → IsName t.text

theorem Named.subset {ts ts' : List Token} (h : Named ts) (hs : ts' ⊆ ts) : Named ts' :=
  fun t ht => h t (hs ht)

theorem named_tokenize (text : String) : Named (tokenize text) := by
  intro t ht hident
  have h := lexeme_of_mem_tokenize ht
  rwa [show t.kind = .ident from eq_of_beq hident] at h

/-! ## Functions -/

namespace RawFunction

variable {keyword : Token} {ts rest : List Token} {raw : RawFunction}

theorem isName_splitName (hn : Named (keyword :: ts)) (hk : keyword.isIdent = true) :
    IsName (splitName keyword ts).1 := by
  have hword : IsName (if keyword.text == "function" then "fallback" else keyword.text) := by
    split
    · exact .ident (by decide) (by decide)
    · exact hn keyword List.mem_cons_self hk
  unfold splitName
  split
  · rename_i t rest _
    split
    · rename_i ht
      exact hn t (List.mem_cons_of_mem _ List.mem_cons_self) ht
    · exact hword
  · exact hword

theorem name_of_ofSpecifiers {name : String} {line : Nat} {ps : List Parameter}
    (h : ofSpecifiers name line ps ts = .ok (raw, rest)) : raw.name = name := by
  unfold ofSpecifiers at h
  split at h
  · cases h
  · cases h
  · split at h
    · split at h
      · cases h
      · cases h
        rfl
    · cases h
      rfl

theorem name_of_ofTokens (h : ofTokens keyword ts = .ok (raw, rest)) :
    raw.name = (splitName keyword ts).1 := by
  unfold ofTokens at h
  split at h
  · cases h
  · exact name_of_ofSpecifiers h

end RawFunction

theorem Member.isName_of_ofTokens {ts : List Token} {ms : List Member} (hn : Named ts) (h : ofTokens ts = .ok ms) :
    ∀ raw ∈ functions ms, IsName raw.name := by
  fun_induction ofTokens ts generalizing ms with
  | case1 =>
    cases h
    simp [functions]
  | case2 => cases h
  | case3 => cases h
  | case4 t ts m rest hnext ms' hms' ih =>
    cases h
    rw [functions_append]
    rcases next_cases hnext with ⟨raw, rfl, hstart, hraw⟩ | ⟨hnone, hrest⟩
    · obtain ⟨head, stop, rfl, -⟩ := RawFunction.spans_of_ofTokens hraw
      refine List.forall_mem_append.mpr ⟨?_, ih (hn.subset ?_) hms'⟩
      · intro x hx
        rw [List.mem_singleton.mp hx, RawFunction.name_of_ofTokens hraw]
        exact RawFunction.isName_splitName hn (isIdent_of_startsFunction hstart)
      · exact fun x hx => by simp [hx]
    · rw [hnone]
      exact ih (hn.subset (List.subset_cons_of_subset _ hrest.subset)) hms'

/-! ## Contracts -/

/-- The contract and its functions are named by identifiers. -/
structure Contract.IsNamed (c : Contract) : Prop where
  name : IsName c.name
  functions : ∀ f ∈ c.functions, IsName f.name

namespace Contract

variable {unit : SourceUnit} {name : Token} {ts rest : List Token}

theorem isNamed_of_ofTokens {kind : ContractKind} {c : Contract} (hname : IsName name.text) (hn : Named ts)
    (h : ofTokens unit kind name ts = .ok (c, rest)) : c.IsNamed := by
  unfold ofTokens at h
  split at h
  · cases h
  · rename_i t after hdrop
    split at h
    · split at h
      · cases h
      · rename_i e he
        split at h
        · cases h
        · rename_i members hm
          cases h
          refine ⟨hname, fun f hf => ?_⟩
          obtain ⟨raw, hraw, rfl⟩ := List.mem_map.mp hf
          refine Member.isName_of_ofTokens (hn.subset fun x hx => ?_) hm raw hraw
          have hafter : x ∈ after := by
            rw [← Enclosed.run_of_find? he]
            simp [hx]
          exact (List.dropWhile_sublist _).subset (hdrop ▸ List.mem_cons_of_mem t hafter)
    · cases h

theorem isIdent_of_headAt? {prev : Option Token} {t : Token} {kind : ContractKind}
    (h : headAt? prev t ts = some (kind, name, rest)) : name.isIdent = true := by
  unfold headAt? at h
  split at h
  · cases h
  · split at h
    · rename_i hident
      obtain ⟨k, -, heq⟩ := Option.map_eq_some_iff.mp h
      cases heq
      simp only [Bool.and_eq_true] at hident
      exact hident.1.2
    · cases h

theorem isNamed_of_allFrom {prev : Option Token} {cs : List Contract} (hn : Named ts)
    (h : allFrom unit prev ts = .ok cs) : ∀ c ∈ cs, c.IsNamed := by
  fun_induction allFrom unit prev ts generalizing cs with
  | case1 =>
    cases h
    simp
  | case2 => cases h
  | case3 => cases h
  | case4 prev t ts kind name rest hh c rest' hc cs' hcs' ih =>
    cases h
    obtain ⟨rfl, -⟩ := eq_of_headAt? hh
    have hrest := hn.subset fun x hx => List.mem_cons_of_mem t (List.mem_cons_of_mem name hx)
    obtain ⟨-, inner, hrun, -⟩ := inOrder_of_ofTokens hc
    refine List.forall_mem_cons.mpr ⟨?_, ih (hrest.subset ?_) hcs'⟩
    · exact isNamed_of_ofTokens (hn name (by simp) (isIdent_of_headAt? hh)) hrest hc
    · rw [hrun]
      exact List.subset_append_right _ _
  | case5 => cases h
  | case6 prev t ts hh ho e he ih =>
    exact ih (hn.subset (List.subset_cons_of_subset _ (Bracket.suffix_of_enclosed? he).subset)) h
  | case7 prev t ts hh ho ih => exact ih (hn.subset (List.subset_cons_self _ _)) h

end Contract

theorem SourceUnit.isNamed_of_contracts {unit : SourceUnit} {cs : List Contract}
    (h : unit.contracts = .ok cs) : ∀ c ∈ cs, c.IsNamed := by
  rw [contracts_eq] at h
  split at h
  · cases h
  · cases h
  · rename_i hall
    cases h
    exact Contract.isNamed_of_allFrom (named_tokenize _) hall

theorem Extraction.isNamed {units : List SourceUnit} {c : Contract} (hc : c ∈ (ofUnits units).contracts) :
    c.IsNamed := by
  obtain ⟨unit, cs, hr, hc⟩ := mem_of_mem_mergeFrom hc
  obtain ⟨u, -, he⟩ := List.mem_map.mp hr
  simp only [Prod.mk.injEq] at he
  exact SourceUnit.isNamed_of_contracts he.2 c hc

end ContractAudit
