/-!
# Tables

A table is a list of keys with their values, in the order in which the keys came. Putting a key that
is there replaces its value and keeps its place.
-/

namespace ContractAudit

abbrev Table (κ ν : Type) := List (κ × ν)

namespace Table

variable {κ ν : Type} [BEq κ]

def put (t : Table κ ν) (key : κ) (value : ν) : Table κ ν :=
  match t with
  | [] => [(key, value)]
  | e :: rest => if e.1 == key then (e.1, value) :: rest else e :: put rest key value

def get? (t : Table κ ν) (key : κ) : Option ν := (t.find? (·.1 == key)).map (·.2)

def keys (t : Table κ ν) : List κ := t.map (·.1)

def values (t : Table κ ν) : List ν := t.map (·.2)

/-- Puts every entry of a list, in order. -/
def putAll (t : Table κ ν) (entries : List (κ × ν)) : Table κ ν :=
  entries.foldl (fun t e => t.put e.1 e.2) t

theorem keys_put_of_mem [LawfulBEq κ] {t : Table κ ν} {key : κ} (h : key ∈ t.keys) (value : ν) :
    (t.put key value).keys = t.keys := by
  induction t with
  | nil => simp [keys] at h
  | cons e rest ih =>
    by_cases he : e.1 = key
    · simp [put, keys, he]
    · have : key ∈ keys rest := by
        simp only [keys, List.map_cons, List.mem_cons] at h
        exact h.resolve_left fun hk => he hk.symm
      have := ih this
      simp only [keys] at this
      simp [put, keys, he, this]

theorem keys_put_of_not_mem [LawfulBEq κ] {t : Table κ ν} {key : κ} (h : key ∉ t.keys)
    (value : ν) : (t.put key value).keys = t.keys ++ [key] := by
  induction t with
  | nil => rfl
  | cons e rest ih =>
    simp only [keys, List.map_cons, List.mem_cons, not_or] at h
    have := ih h.2
    simp only [keys] at this
    simp [put, keys, Ne.symm h.1, this]

end Table

end ContractAudit
