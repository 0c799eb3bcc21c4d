import ContractAudit.Proofs.Audit.PartialFlow
import ContractAudit.Proofs.Contract.Names
import ContractAudit.Proofs.Report.Arrival

/-!
# Ids of findings

The id of a finding is made from a digest of its contract, its function and its class, with bars between them. The
bars are not escaped. But every finding of an audit is on a function of an extracted contract, and neither name has a
bar in it, so the text that is hashed tells which contract, function and class it was made from. A report has one
finding for each of these, so two of its findings have the same id only if the digests collide.
-/

namespace ContractAudit

/-! ## Where findings are -/

/-- The finding is on a function of one of the contracts. -/
def Finding.IsWithin (x : Finding) (cs : List Contract) : Prop :=
  ∃ c ∈ cs, x.key.contract = c.name ∧ ∃ f ∈ c.functions, x.key.function = f.name

variable {cs : List Contract} {x : Finding}

theorem Reentrancy.isWithin_of_mem {policy : Policy} {g : DependencyGraph} {g' : Option DependencyGraph}
    {maxDepth : Int} (hx : x ∈ findings policy g' (Flow.all g maxDepth cs)) : x.IsWithin cs := by
  obtain ⟨key, flow, hflow, hit⟩ := exists_isHit_of_mem hx
  obtain ⟨v, -, -, rfl⟩ := hit.made
  obtain ⟨c, hc, hflow⟩ := List.mem_flatMap.mp hflow
  obtain ⟨f, hf, hflow⟩ := List.mem_flatMap.mp hflow
  obtain ⟨target, -, rfl⟩ := List.mem_map.mp hflow
  exact ⟨c, hc, rfl, f, List.mem_of_mem_filter hf, rfl⟩

namespace Invariant

/-- The catalogue puts down functions of the contract that is judged. -/
theorem offenders_of_mem_catalogue {p : InvariantPattern} (hp : p ∈ catalogue) {c : Contract} {v : Verdict}
    (h : p.evaluate c = some v) :
    ∃ offenders, v = .ofOffenders offenders ∧ ∀ o ∈ offenders, ∃ f ∈ c.functions, o.1 = f.name := by
  simp only [catalogue, List.mem_cons, List.not_mem_nil, or_false] at hp
  rcases hp with rfl | rfl | rfl <;> cases h <;> refine ⟨_, rfl, fun o ho => ?_⟩
  · obtain ⟨f, hf, rfl⟩ := List.mem_map.mp ho
    exact ⟨f, List.mem_of_mem_filter hf, rfl⟩
  · split at ho
    · cases ho
    · obtain ⟨f, hf, ho⟩ := List.mem_filterMap.mp ho
      obtain ⟨holding, -, rfl⟩ := Option.map_eq_some_iff.mp ho
      exact ⟨f, List.mem_of_mem_filter hf, rfl⟩
  · obtain ⟨f, hf, rfl⟩ := List.mem_map.mp ho
    exact ⟨f, List.mem_of_mem_filter hf, rfl⟩

theorem isWithin_of_mem {g : Option DependencyGraph} (hx : x ∈ findings catalogue g (check catalogue cs)) :
    x.IsWithin cs := by
  obtain ⟨i, hi, hx⟩ := List.mem_filterMap.mp hx
  obtain ⟨p, -, rfl⟩ := Option.map_eq_some_iff.mp hx
  obtain ⟨hi, hviolated⟩ := List.mem_filter.mp hi
  obtain ⟨c, hc, hi⟩ := List.mem_flatMap.mp hi
  obtain ⟨q, hq, hjudge⟩ := List.mem_filterMap.mp hi
  unfold judge? at hjudge
  split at hjudge
  · obtain ⟨v, hv, rfl⟩ := Option.map_eq_some_iff.mp hjudge
    obtain ⟨offenders, rfl, hoffenders⟩ := offenders_of_mem_catalogue hq hv
    cases offenders with
    | nil => cases hviolated
    | cons o os => exact ⟨c, List.mem_of_mem_filter hc, rfl, hoffenders o List.mem_cons_self⟩
  · cases hjudge

end Invariant

theorem Registry.isWithin_of_mem (hx : x ∈ (Detection.ofContracts standard.sorted cs).findings) :
    x.IsWithin cs := by
  obtain ⟨c, hc, d, hd, fs, hfs, hx⟩ := Detection.exists_of_mem_findings hx
  have places := isPlaced_of_mem_standard hd c fs hfs x hx
  exact ⟨c, hc, places.contract, places.function⟩

theorem Audit.Analysis.isWithin_of_mem {s : Settings} {units : List SourceUnit}
    (hx : x ∈ (analyze s units).findings) : x.IsWithin (Extraction.ofUnits units).contracts := by
  rcases List.mem_append.mp hx with hx | hx
  · rcases List.mem_append.mp hx with hx | hx
    · exact Reentrancy.isWithin_of_mem hx
    · exact Invariant.isWithin_of_mem hx
  · exact Registry.isWithin_of_mem hx

/-! ## The text that is hashed -/

theorem IsName.append_bar_inj {a b : String} {rest rest' : List Char} (ha : IsName a) (hb : IsName b)
    (h : a.toList ++ '|' :: rest = b.toList ++ '|' :: rest') : a = b ∧ rest = rest' := by
  have hcut {name : String} (hn : IsName name) (rest : List Char) :
      (name.toList ++ '|' :: rest).takeWhile Lexer.isIdentPart = name.toList := by
    refine Lexer.takeWhile_append_of_stop (fun c => hn.isIdentPart) ?_
    rintro c ⟨⟩
    decide
  have hname : a.toList = b.toList := by rw [← hcut ha rest, h, hcut hb]
  rw [hname] at h
  exact ⟨String.toList_injective hname, (List.cons.inj (List.append_cancel_left h)).2⟩

namespace FindingKey

/-- The key is of a finding on a contract and a function with names. -/
structure IsNamed (k : FindingKey) : Prop where
  contract : IsName k.contract
  function : IsName k.function

theorem toList_text (k : FindingKey) :
    k.text.toList = k.contract.toList ++ '|' :: (k.function.toList ++ '|' :: k.subject.toList) := by
  simp [text]

theorem text_inj {k k' : FindingKey} (hk : k.IsNamed) (hk' : k'.IsNamed) (h : k.text = k'.text) : k = k' := by
  have hlist := congrArg String.toList h
  rw [toList_text, toList_text] at hlist
  obtain ⟨hcontract, hlist⟩ := hk.contract.append_bar_inj hk'.contract hlist
  obtain ⟨hfunction, hlist⟩ := hk.function.append_bar_inj hk'.function hlist
  cases k
  cases k'
  rw [mk.injEq]
  exact ⟨hcontract, hfunction, String.toList_injective hlist⟩

end FindingKey

theorem Finding.IsWithin.isNamed (h : x.IsWithin cs) (hcs : ∀ c ∈ cs, c.IsNamed) : x.key.IsNamed := by
  obtain ⟨c, hc, hcontract, f, hf, hfunction⟩ := h
  have named := hcs c hc
  exact ⟨hcontract ▸ named.name, hfunction ▸ named.functions f hf⟩

theorem Audit.Intake.isNamed_of_mem {s : Settings} {i : Intake} (hx : x ∈ i.findings s) : x.key.IsNamed := by
  cases i with
  | invalid e => cases hx
  | empty => cases hx
  | accepted units total => exact (Analysis.isWithin_of_mem hx).isNamed fun c hc => Extraction.isNamed hc

/-! ## Digests -/

namespace Digest

/-- What is left of the digest of a text in an id. -/
def shortened (text : String) : List Char := (sha1 text.toUTF8.toList).toList.take 10

/-- Two texts that are not the same have the same shortened digest. -/
structure Collide (a b : String) : Prop where
  texts : a ≠ b
  digests : shortened a = shortened b

theorem toLower_toUpper_hexDigit (n : Nat) : (hexDigit n).toUpper.toLower = hexDigit n := by
  have hdigits : ("0123456789abcdef".toList.all fun c => c.toUpper.toLower == c) = true := by decide
  unfold hexDigit
  rw [List.getD_eq_getElem?_getD]
  cases h : "0123456789abcdef".toList[n]? with
  | none => rfl
  | some c => exact eq_of_beq (List.all_eq_true.mp hdigits c (List.mem_of_getElem? h))

theorem toLower_toUpper_of_mem_hexText {ws : List UInt32} {c : Char} (h : c ∈ (hexText ws).toList) :
    c.toUpper.toLower = c := by
  rw [hexText, String.toList_ofList] at h
  obtain ⟨b, -, hc⟩ := List.mem_flatMap.mp h
  simp only [List.mem_cons, List.not_mem_nil, or_false] at hc
  rcases hc with rfl | rfl
  · exact toLower_toUpper_hexDigit _
  · exact toLower_toUpper_hexDigit _

/-- Capital letters do not make two digests the same. -/
theorem map_toLower_map_toUpper (text : String) :
    ((shortened text).map Char.toUpper).map Char.toLower = shortened text := by
  rw [List.map_map]
  refine (List.map_congr_left fun c hc => ?_).trans (List.map_id _)
  exact toLower_toUpper_of_mem_hexText (List.mem_of_mem_take hc)

end Digest

theorem Finding.shortened_eq_of_computedId {x y : Finding} (h : x.computedId = y.computedId) :
    Digest.shortened x.key.text = Digest.shortened y.key.text := by
  have hdigits : (Digest.shortened x.key.text).map Char.toUpper = (Digest.shortened y.key.text).map Char.toUpper := by
    have hlist := congrArg String.toList h
    simp only [computedId, String.toList_append, String.toList_ofList] at hlist
    exact List.append_cancel_left hlist
  rw [← Digest.map_toLower_map_toUpper, hdigits, Digest.map_toLower_map_toUpper]

/-! ## Reports -/

namespace ReportPolicy

variable {p : ReportPolicy} {fs : List Finding}

theorem exists_key_of_mem_reduce (hx : x ∈ p.reduce fs) : ∃ f ∈ fs, f.key = x.key := by
  have hkey := (p.key_reduce_perm fs).mem_iff.mp (List.mem_map_of_mem hx)
  obtain ⟨f, hf, hfx⟩ := List.mem_map.mp (List.mem_eraseDups.mp hkey)
  exact ⟨f, (mem_kept.mp hf).1, hfx⟩

theorem pairwise_text_reduce (p : ReportPolicy) (h : ∀ f ∈ fs, f.key.IsNamed) :
    (p.reduce fs).Pairwise fun x y => x.key.text ≠ y.key.text := by
  have hnamed : ∀ x ∈ p.reduce fs, x.key.IsNamed := by
    intro x hx
    obtain ⟨f, hf, hfx⟩ := exists_key_of_mem_reduce hx
    exact hfx ▸ h f hf
  have hkeys : ((p.reduce fs).map (·.key)).Nodup := (p.key_reduce_perm fs).nodup_iff.mpr (nodup_eraseDups _)
  refine (List.pairwise_map.mp hkeys).imp_of_mem fun hx hy hne htext => hne ?_
  exact FindingKey.text_inj (hnamed _ hx) (hnamed _ hy) htext

end ReportPolicy

namespace Audit

/-- The ids of a report are computed from texts that are all different, so that no two of its findings have the same
id unless the shortened digests of two different texts are the same. -/
theorem ids_identify_findings (s : Settings) (applyFilter : Bool) (batch : Except BatchError (List SourceUnit)) :
    let p := ReportPolicy.ofSettings s applyFilter
    (∃ e, riskScore p.weights p.damping (p.reduce ((Intake.ofBatch s batch).findings s)) = .error e ∧
      report s applyFilter batch [] = .error e) ∨
    ∃ r, report s applyFilter batch [] = .ok r ∧
      (∀ x ∈ r.findings, x.id = x.computedId) ∧
      r.findings.Pairwise fun x y =>
        x.key.text ≠ y.key.text ∧ (x.id = y.id → Digest.Collide x.key.text y.key.text) := by
  intro p
  obtain ⟨diagnostics, metadata, hr⟩ := report_eq s applyFilter batch
  rw [hr]
  cases hs : riskScore p.weights p.damping (p.reduce ((Intake.ofBatch s batch).findings s)) with
  | error e => exact .inl ⟨e, rfl, ReportPolicy.report_of_error hs diagnostics metadata⟩
  | ok score =>
    refine .inr ⟨_, ReportPolicy.report_of_score hs diagnostics metadata, ?_, ?_⟩
    · exact fun x hx => ReportPolicy.id_of_mem_reduce hx
    · have hnamed : ∀ f ∈ (Intake.ofBatch s batch).findings s, f.key.IsNamed :=
        fun f hf => Intake.isNamed_of_mem hf
      refine (p.pairwise_text_reduce hnamed).imp_of_mem fun hx hy hne => ⟨hne, fun hid => ⟨hne, ?_⟩⟩
      rw [ReportPolicy.id_of_mem_reduce hx, ReportPolicy.id_of_mem_reduce hy] at hid
      exact Finding.shortened_eq_of_computedId hid

end Audit

end ContractAudit
