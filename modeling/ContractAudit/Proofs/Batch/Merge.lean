import ContractAudit.Proofs.Batch
import ContractAudit.Proofs.Contract
import Mathlib.Data.List.Basic
import Mathlib.Data.List.Forall2

/-!
# What a batch keeps

Merging goes through the declarations of a batch unit by unit. A declaration is kept if no earlier one
has its name; otherwise it leaves a warning that names the unit of the first. A unit without a model
leaves one warning. So every declaration is either kept or warned about, and what is kept of the first
units does not depend on the units after them.
-/

namespace ContractAudit

/-! ## Elements and those before them -/

section Earlier

variable {α β : Type}

/-- Each element with those that stand before it; `seen` stands before all. -/
def withEarlier (seen : List α) : List α → List (List α × α)
  | [] => []
  | x :: xs => (seen, x) :: withEarlier (seen ++ [x]) xs

theorem withEarlier_append (seen xs ys : List α) :
    withEarlier seen (xs ++ ys) = withEarlier seen xs ++ withEarlier (seen ++ xs) ys := by
  induction xs generalizing seen with
  | nil => simp [withEarlier]
  | cons x xs ih => simp [withEarlier, ih]

theorem length_withEarlier (seen xs : List α) : (withEarlier seen xs).length = xs.length := by
  induction xs generalizing seen with
  | nil => rfl
  | cons x xs ih => simp [withEarlier, ih]

theorem mem_withEarlier {seen xs earlier : List α} {x : α} (h : (earlier, x) ∈ withEarlier seen xs) :
    ∃ before after, xs = before ++ x :: after ∧ earlier = seen ++ before := by
  induction xs generalizing seen with
  | nil => cases h
  | cons y xs ih =>
    rcases List.mem_cons.mp h with h | h
    · cases h
      exact ⟨[], xs, rfl, (List.append_nil _).symm⟩
    · obtain ⟨before, after, rfl, rfl⟩ := ih h
      exact ⟨y :: before, after, rfl, by simp⟩

/-- What is made of some elements stands in the order of these. -/
theorem forall₂_filterMap {pick : α → Option β} {R : α → β → Prop} {xs : List α}
    (h : ∀ x ∈ xs, ∀ y, pick x = some y → R x y) :
    List.Forall₂ R (xs.filter fun x => (pick x).isSome) (xs.filterMap pick) := by
  induction xs with
  | nil => exact .nil
  | cons x xs ih =>
    obtain ⟨hx, hxs⟩ := List.forall_mem_cons.mp h
    cases hp : pick x with
    | none => simpa [hp] using ih hxs
    | some y => simpa [hp] using ⟨hx y hp, ih hxs⟩

end Earlier

/-! ## Declarations -/

/-- A contract with the unit that declares it. -/
structure Declaration where
  unit : SourceUnit
  contract : Contract

namespace Declaration

/-- The declarations of the units that have a model. -/
def all (units : List SourceUnit) : List Declaration :=
  units.flatMap fun unit => unit.declared.map (mk unit)

def first? (ds : List Declaration) (name : String) : Option Declaration :=
  ds.find? (·.contract.name == name)

/-- The first of the earlier declarations with the name of a declaration. -/
def keeper? (p : List Declaration × Declaration) : Option Declaration :=
  first? p.1 p.2.contract.name

/-- The declaration is the first of its name. -/
def isFirst (p : List Declaration × Declaration) : Bool := (keeper? p).isNone

/-- The warning on a declaration that is not the first of its name. -/
def duplicate? (p : List Declaration × Declaration) : Option Warning :=
  (keeper? p).map fun k =>
    ⟨p.2.unit.name, p.2.unit.path, .duplicate p.2.contract.name k.unit.name p.2.contract.line⟩

end Declaration

open Declaration

theorem SourceUnit.sourceName_of_mem_declared {unit : SourceUnit} {c : Contract}
    (hc : c ∈ unit.declared) : c.sourceName = unit.name := by
  unfold declared at hc
  split at hc
  · rename_i cs hcs
    obtain ⟨kind, name, header, members, rfl⟩ := exists_ofMembers hcs hc
    rfl
  · cases hc

namespace Extraction

/-! ## One unit -/

/-- The kept contracts are the first of their names among the declarations seen so far. -/
structure Tracks (kept : List Contract) (seen : List Declaration) : Prop where
  find : ∀ name, kept.find? (·.name == name) = (first? seen name).map (·.contract)
  source : ∀ d ∈ seen, d.contract.sourceName = d.unit.name

namespace Tracks

variable {kept : List Contract} {seen : List Declaration} {d : Declaration}

theorem nil : Tracks [] [] := ⟨fun _ => rfl, fun _ h => by cases h⟩

theorem source_append (h : Tracks kept seen) (hd : d.contract.sourceName = d.unit.name) :
    ∀ d' ∈ seen ++ [d], d'.contract.sourceName = d'.unit.name := by
  intro d' hd'
  rcases List.mem_append.mp hd' with h' | h'
  · exact h.source d' h'
  · rw [List.mem_singleton.mp h']
    exact hd

theorem keep (h : Tracks kept seen) (hd : d.contract.sourceName = d.unit.name) :
    Tracks (kept ++ [d.contract]) (seen ++ [d]) := by
  refine ⟨fun name => ?_, h.source_append hd⟩
  rw [List.find?_append, h.find, first?, first?, List.find?_append]
  cases seen.find? (·.contract.name == name) with
  | some k => rfl
  | none => by_cases hn : d.contract.name = name <;> simp [hn]

theorem leave (h : Tracks kept seen) (hd : d.contract.sourceName = d.unit.name) {k : Declaration}
    (hk : first? seen d.contract.name = some k) : Tracks kept (seen ++ [d]) := by
  refine ⟨fun name => ?_, h.source_append hd⟩
  rw [h.find]
  by_cases hn : d.contract.name = name
  · subst hn
    rw [hk, first?, List.find?_append, ← first?, hk]
    rfl
  · simp [first?, List.find?_append, hn]

end Tracks

/-- What is extracted from the declarations `ds`, after those of `seen` of which `kept` are kept. -/
structure Continues (x : Extraction) (kept : List Contract) (seen ds : List Declaration) : Prop where
  contracts : x.contracts = ((withEarlier seen ds).filter isFirst).map (·.2.contract)
  duplicates : x.warnings.filter (·.code == .duplicateContract) =
    (withEarlier seen ds).filterMap duplicate?
  tracks : Tracks (kept ++ x.contracts) (seen ++ ds)

namespace Continues

variable {kept : List Contract} {seen ds ds' : List Declaration} {d : Declaration}

theorem nil (h : Tracks kept seen) : Continues ⟨[], []⟩ kept seen [] :=
  ⟨rfl, rfl, by simpa using h⟩

theorem append {x y : Extraction} (hx : x.Continues kept seen ds)
    (hy : y.Continues (kept ++ x.contracts) (seen ++ ds) ds') :
    Continues ⟨x.contracts ++ y.contracts, x.warnings ++ y.warnings⟩ kept seen (ds ++ ds') where
  contracts := by
    rw [withEarlier_append, List.filter_append, List.map_append, hx.contracts, hy.contracts]
  duplicates := by
    rw [withEarlier_append, List.filterMap_append, List.filter_append, hx.duplicates, hy.duplicates]
  tracks := by
    rw [← List.append_assoc, ← List.append_assoc]
    exact hy.tracks

theorem keep (h : Tracks kept seen) (hd : d.contract.sourceName = d.unit.name)
    (hk : first? seen d.contract.name = none) : Continues ⟨[d.contract], []⟩ kept seen [d] where
  contracts := by simp [withEarlier, isFirst, keeper?, hk]
  duplicates := by simp [withEarlier, duplicate?, keeper?, hk]
  tracks := h.keep hd

theorem leave (h : Tracks kept seen) (hd : d.contract.sourceName = d.unit.name) {k : Declaration}
    (hk : first? seen d.contract.name = some k) :
    Continues ⟨[], [⟨d.unit.name, d.unit.path,
      .duplicate d.contract.name k.unit.name d.contract.line⟩]⟩ kept seen [d] where
  contracts := by simp [withEarlier, isFirst, keeper?, hk]
  duplicates := by simp [withEarlier, duplicate?, keeper?, hk, Warning.code]
  tracks := by simpa using h.leave hd hk

theorem fail (h : Tracks kept seen) (unit : SourceUnit) (e : ParseError) :
    Continues ⟨[], [Warning.ofError unit e]⟩ kept seen [] where
  contracts := rfl
  duplicates := rfl
  tracks := by simpa using h

end Continues

/-- One declaration is kept or left, and the others go on from there. -/
theorem continues_keepNew {unit : SourceUnit} {kept cs : List Contract} {seen : List Declaration}
    (h : Tracks kept seen) (hs : ∀ c ∈ cs, c.sourceName = unit.name) :
    (keepNew unit kept cs).Continues kept seen (cs.map (Declaration.mk unit)) := by
  induction cs generalizing kept seen with
  | nil => exact .nil h
  | cons c cs ih =>
    obtain ⟨hc, hcs⟩ := List.forall_mem_cons.mp hs
    cases hk : first? seen c.name with
    | none =>
      have hf : kept.find? (·.name == c.name) = none := by rw [h.find, hk]; rfl
      have hone := Continues.keep (d := ⟨unit, c⟩) h hc hk
      have happend := hone.append (ih hone.tracks hcs)
      simpa only [keepNew, hf, List.map_cons, List.cons_append, List.nil_append] using happend
    | some k =>
      -- The warning has the source name of the kept contract, which is the name of its unit.
      have hf : kept.find? (·.name == c.name) = some k.contract := by rw [h.find, hk]; rfl
      have hsource : k.contract.sourceName = k.unit.name := h.source k (List.mem_of_find?_eq_some hk)
      have hone := Continues.leave (d := ⟨unit, c⟩) h hc hk
      have happend := hone.append (ih hone.tracks hcs)
      simpa only [keepNew, hf, hsource, List.map_cons, List.cons_append, List.nil_append,
        List.append_nil] using happend

theorem code_of_mem_keepNew {unit : SourceUnit} {kept cs : List Contract} {w : Warning}
    (hw : w ∈ (keepNew unit kept cs).warnings) : w.code = .duplicateContract := by
  induction cs generalizing kept with
  | nil => cases hw
  | cons c cs ih =>
    simp only [keepNew] at hw
    split at hw
    · rcases List.mem_cons.mp hw with rfl | hw
      · rfl
      · exact ih hw
    · exact ih hw

/-! ## All units -/

/-- Merging goes on from what the first results leave. -/
theorem mergeFrom_append (kept : List Contract)
    (rs rs' : List (SourceUnit × Except ParseError (List Contract))) :
    mergeFrom kept (rs ++ rs') =
      ⟨(mergeFrom kept rs).contracts ++ (mergeFrom (kept ++ (mergeFrom kept rs).contracts) rs').contracts,
       (mergeFrom kept rs).warnings ++
         (mergeFrom (kept ++ (mergeFrom kept rs).contracts) rs').warnings⟩ := by
  induction rs generalizing kept with
  | nil => simp [mergeFrom]
  | cons r rs ih =>
    obtain ⟨unit, e | cs⟩ := r
    · simp [mergeFrom, ih]
    · simp [mergeFrom, ih]

theorem continues_mergeFrom {kept : List Contract} {seen : List Declaration} (h : Tracks kept seen)
    (units : List SourceUnit) :
    (mergeFrom kept (units.map fun unit => (unit, unit.contracts))).Continues kept seen
      (Declaration.all units) := by
  induction units generalizing kept seen with
  | nil => exact .nil h
  | cons unit units ih =>
    have hs : ∀ c ∈ unit.declared, c.sourceName = unit.name :=
      fun c hc => SourceUnit.sourceName_of_mem_declared hc
    rw [Declaration.all, List.flatMap_cons, ← Declaration.all]
    cases hu : unit.contracts with
    | error e =>
      rw [SourceUnit.declared_of_error hu, List.map_nil]
      have hone := Continues.fail h unit e
      have happend := hone.append (ih hone.tracks)
      simpa only [List.map_cons, hu, mergeFrom, List.cons_append, List.nil_append, List.append_nil]
        using happend
    | ok cs =>
      rw [SourceUnit.declared_of_ok hu] at hs ⊢
      have hone := continues_keepNew h hs
      simpa only [List.map_cons, hu, mergeFrom] using hone.append (ih hone.tracks)

theorem unreadable_mergeFrom (kept : List Contract) (units : List SourceUnit) :
    (mergeFrom kept (units.map fun unit => (unit, unit.contracts))).warnings.filter
      (·.code == .parseWarning) = units.flatMap (·.unreadable) := by
  induction units generalizing kept with
  | nil => rfl
  | cons unit units ih =>
    cases hu : unit.contracts with
    | error e =>
      have hcode : (Warning.ofError unit e).code = .parseWarning := rfl
      simp [mergeFrom, hu, ih, SourceUnit.unreadable_of_error hu, hcode]
    | ok cs =>
      have hnone : (keepNew unit kept cs).warnings.filter (·.code == .parseWarning) = [] := by
        rw [List.filter_eq_nil_iff]
        intro w hw
        simp [code_of_mem_keepNew hw]
      simp [mergeFrom, hu, ih, SourceUnit.unreadable_of_ok hu, hnone]

theorem continues_ofUnits (units : List SourceUnit) :
    (ofUnits units).Continues [] [] (Declaration.all units) :=
  continues_mergeFrom Tracks.nil units

/-- What further units add is put behind. -/
theorem contracts_prefix_append (units more : List SourceUnit) :
    (ofUnits units).contracts <+: (ofUnits (units ++ more)).contracts := by
  rw [ofUnits, ofUnits, merge, merge, List.map_append, mergeFrom_append]
  exact List.prefix_append _ _

/-- A unit without a model leaves its warning and nothing else. -/
theorem ofUnits_of_unreadable {unit : SourceUnit} {e : ParseError} (hu : unit.contracts = .error e)
    (before after : List SourceUnit) :
    ∃ ws ws', ofUnits (before ++ after) = ⟨(ofUnits (before ++ after)).contracts, ws ++ ws'⟩ ∧
      ofUnits (before ++ unit :: after) =
        ⟨(ofUnits (before ++ after)).contracts, ws ++ Warning.ofError unit e :: ws'⟩ := by
  simp only [ofUnits, merge, List.map_append, List.map_cons, hu, mergeFrom_append, mergeFrom]
  exact ⟨_, _, rfl, rfl⟩

end Extraction

/-- The warning says that a declaration repeats the name of a kept one, and which unit has that. -/
structure Warning.IsOnDuplicate (w : Warning) (kept : List Contract)
    (p : List Declaration × Declaration) : Prop where
  code : w.code = .duplicateContract
  source : w.sourceName = p.2.unit.name
  path : w.sourcePath = p.2.unit.path
  line : w.line? = some p.2.contract.line
  message : ∃ k, keeper? p = some k ∧ k.contract ∈ kept ∧
    w.message = "duplicate declaration of " ++ p.2.contract.name ++ "; keeping the one from " ++
      k.unit.name

/-- Every declaration of the units is kept or warned about, and every unit without a model is warned
about. -/
structure Extraction.Accounts (x : Extraction) (units : List SourceUnit) : Prop where
  nodup : (x.contracts.map (·.name)).Nodup
  contracts : x.contracts =
    ((withEarlier [] (Declaration.all units)).filter isFirst).map (·.2.contract)
  duplicates : List.Forall₂ (fun p w => w.IsOnDuplicate x.contracts p)
    ((withEarlier [] (Declaration.all units)).filter (! isFirst ·))
    (x.warnings.filter (·.code == .duplicateContract))
  unreadable : x.warnings.filter (·.code == .parseWarning) = units.flatMap (·.unreadable)
  count : (Declaration.all units).length =
    x.contracts.length + (x.warnings.filter (·.code == .duplicateContract)).length

namespace Extraction

theorem isOnDuplicate_of_mem {units : List SourceUnit} {p : List Declaration × Declaration}
    {w : Warning} (hp : p ∈ withEarlier [] (Declaration.all units)) (hw : duplicate? p = some w) :
    w.IsOnDuplicate (ofUnits units).contracts p := by
  obtain ⟨k, hk, rfl⟩ := Option.map_eq_some_iff.mp hw
  -- The first of the earlier declarations is the first of all, so it is the kept one.
  obtain ⟨before, after, hall, hbefore⟩ := mem_withEarlier hp
  have hfirst : first? (Declaration.all units) p.2.contract.name = some k := by
    rw [hall, first?, List.find?_append]
    rw [keeper?, hbefore, List.nil_append] at hk
    rw [← first?, hk]
    rfl
  have hfind := (continues_ofUnits units).tracks.find p.2.contract.name
  rw [List.nil_append, List.nil_append, hfirst] at hfind
  exact {
    code := rfl
    source := rfl
    path := rfl
    line := rfl
    message := ⟨k, hk, List.mem_of_find?_eq_some hfind, rfl⟩ }

theorem duplicates_ofUnits (units : List SourceUnit) :
    List.Forall₂ (fun p w => w.IsOnDuplicate (ofUnits units).contracts p)
      ((withEarlier [] (Declaration.all units)).filter (! isFirst ·))
      ((ofUnits units).warnings.filter (·.code == .duplicateContract)) := by
  have hnot : (fun p => ! isFirst p) = fun p => (duplicate? p).isSome := by
    funext p
    rw [isFirst, duplicate?, Option.isSome_map, Option.not_isNone]
  rw [(continues_ofUnits units).duplicates, hnot]
  exact forall₂_filterMap fun p hp w hw => isOnDuplicate_of_mem hp hw

/-- Nothing that a batch declares is lost, and further units do not change what is kept. -/
theorem declarations_accounted (units : List SourceUnit) :
    (ofUnits units).Accounts units ∧
      ∀ more, (ofUnits units).contracts <+: (ofUnits (units ++ more)).contracts := by
  have hcontinues := continues_ofUnits units
  have hduplicates := duplicates_ofUnits units
  refine ⟨?_, contracts_prefix_append units⟩
  exact {
    nodup := nodup_names units
    contracts := hcontinues.contracts
    duplicates := hduplicates
    unreadable := unreadable_mergeFrom [] units
    count := by
      rw [← length_withEarlier [], List.length_eq_length_filter_add isFirst, hduplicates.length_eq,
        hcontinues.contracts, List.length_map] }

end Extraction

end ContractAudit
