import ContractAudit.Dependency.Graph
import ContractAudit.Batch
import ContractAudit.Proofs.Table

/-!
# The contracts of a batch

Merging keeps the first declaration of each name, so the contracts of a batch have distinct names and
are the nodes of its graph. Where all declarations have distinct names nothing is left out.
-/

namespace ContractAudit

namespace Extraction

/-- The names of `kept` and of what is kept after it are distinct if those of `kept` are. -/
theorem nodup_keepNew (unit : SourceUnit) (cs kept : List Contract)
    (hk : (kept.map (·.name)).Nodup) :
    ((kept ++ (keepNew unit kept cs).contracts).map (·.name)).Nodup := by
  induction cs generalizing kept with
  | nil => simpa [keepNew] using hk
  | cons c cs ih =>
    simp only [keepNew]
    split
    · exact ih kept hk
    · rename_i hf
      have hc : c.name ∉ kept.map (·.name) := by
        simpa using hf
      have hk' : ((kept ++ [c]).map (·.name)).Nodup := by
        rw [List.map_append, List.nodup_append]
        refine ⟨hk, by simp, fun a ha b hb => ?_⟩
        rw [List.map_singleton, List.mem_singleton] at hb
        rintro rfl
        exact hc (hb ▸ ha)
      simpa using ih (kept ++ [c]) hk'

theorem nodup_mergeFrom (results : List (SourceUnit × Except ParseError (List Contract)))
    (kept : List Contract) (hk : (kept.map (·.name)).Nodup) :
    ((kept ++ (mergeFrom kept results).contracts).map (·.name)).Nodup := by
  induction results generalizing kept with
  | nil => simpa [mergeFrom] using hk
  | cons r rest ih =>
    obtain ⟨unit, e | cs⟩ := r
    · exact ih kept hk
    · simpa [mergeFrom] using ih _ (nodup_keepNew unit cs kept hk)

/-- The contracts of a batch have distinct names. -/
theorem nodup_names (units : List SourceUnit) : ((ofUnits units).contracts.map (·.name)).Nodup :=
  nodup_mergeFrom (units.map fun unit => (unit, unit.contracts)) [] List.nodup_nil

end Extraction

/-! ## Batches with distinct names -/

/-- The contracts that a unit declares; none if it has no model. -/
def SourceUnit.declared (unit : SourceUnit) : List Contract :=
  match unit.contracts with
  | .ok cs => cs
  | .error _ => []

/-- The warning on a unit without a model. -/
def SourceUnit.unreadable (unit : SourceUnit) : List Warning :=
  match unit.contracts with
  | .ok _ => []
  | .error e => [Warning.ofError unit e]

namespace SourceUnit

variable {unit : SourceUnit} {cs : List Contract} {e : ParseError}

theorem declared_of_ok (h : unit.contracts = .ok cs) : unit.declared = cs := by
  simp only [declared, h]

theorem declared_of_error (h : unit.contracts = .error e) : unit.declared = [] := by
  simp only [declared, h]

theorem unreadable_of_ok (h : unit.contracts = .ok cs) : unit.unreadable = [] := by
  simp only [unreadable, h]

theorem unreadable_of_error (h : unit.contracts = .error e) :
    unit.unreadable = [Warning.ofError unit e] := by
  simp only [unreadable, h]

end SourceUnit

namespace Extraction

theorem keepNew_of_nodup (unit : SourceUnit) {cs kept : List Contract}
    (h : ((kept ++ cs).map (·.name)).Nodup) : keepNew unit kept cs = ⟨cs, []⟩ := by
  induction cs generalizing kept with
  | nil => rfl
  | cons c cs ih =>
    have hf : kept.find? (·.name == c.name) = none := by
      rw [List.map_append, List.nodup_append] at h
      rw [List.find?_eq_none]
      intro d hd he
      exact h.2.2 d.name (List.mem_map_of_mem hd) c.name (by simp) (by simpa using he)
    have hr : keepNew unit (kept ++ [c]) cs = ⟨cs, []⟩ := ih (by simpa using h)
    simp only [keepNew, hf, hr]

theorem mergeFrom_of_nodup {units : List SourceUnit} {kept : List Contract}
    (h : ((kept ++ units.flatMap (·.declared)).map (·.name)).Nodup) :
    mergeFrom kept (units.map fun unit => (unit, unit.contracts)) =
      ⟨units.flatMap (·.declared), units.flatMap (·.unreadable)⟩ := by
  induction units generalizing kept with
  | nil => rfl
  | cons unit units ih =>
    rw [List.flatMap_cons] at h
    cases hu : unit.contracts with
    | error e =>
      have hd := SourceUnit.declared_of_error hu
      rw [hd] at h
      simp [mergeFrom, hu, ih h, hd, SourceUnit.unreadable_of_error hu]
    | ok cs =>
      have hd := SourceUnit.declared_of_ok hu
      rw [hd, ← List.append_assoc] at h
      have hk : ((kept ++ cs).map (·.name)).Nodup := by
        rw [List.map_append] at h
        exact (List.nodup_append.mp h).1
      simp [mergeFrom, hu, keepNew_of_nodup unit hk, ih h, hd, SourceUnit.unreadable_of_ok hu]

/-- A batch whose declarations have distinct names is modelled whole. -/
theorem ofUnits_of_nodup {units : List SourceUnit}
    (h : ((units.flatMap (·.declared)).map (·.name)).Nodup) :
    ofUnits units = ⟨units.flatMap (·.declared), units.flatMap (·.unreadable)⟩ := by
  rw [ofUnits, merge]
  exact mergeFrom_of_nodup h

end Extraction

namespace DependencyGraph

theorem nodesOf_eq_self {cs : List Contract} (h : (cs.map (·.name)).Nodup) : nodesOf cs = cs := by
  have hn : (Table.keys (([] : Table String Contract) ++ cs.map fun c => (c.name, c))).Nodup := by
    simpa [Table.keys, Function.comp_def] using h
  rw [nodesOf, Table.putAll_eq_append hn]
  simp [Table.values, Function.comp_def]

theorem nodes_ofContracts {cs : List Contract} (h : (cs.map (·.name)).Nodup) :
    (ofContracts cs).nodes = cs :=
  nodesOf_eq_self h

end DependencyGraph

end ContractAudit
