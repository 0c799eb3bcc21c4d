import ContractAudit.Contract
import ContractAudit.Path
import ContractAudit.Text.Blank
import ContractAudit.Text.Lower
import ContractAudit.TypeText

/-!
# Dependencies between contracts

A state variable refers to another contract of the batch by its declared type or, failing that, by
its own name: `token` and `_token` refer to a contract `Token` or an interface `IToken`. A reference
that no contract answers makes no edge and is kept as unresolved.
-/

namespace ContractAudit

/-- What an edge rests on. -/
inductive Tier where
  | declaredType
  | namingConvention
  deriving DecidableEq, Repr

structure DependencyEdge where
  source : String
  target : String
  via : String
  tier : Tier
  deriving DecidableEq, Repr

/-- A user-defined type that no contract of the batch declares. -/
structure UnresolvedReference where
  contract : String
  name : String
  typeName : String
  deriving DecidableEq, Repr

/-- What a state variable contributes to the graph. -/
inductive Reference where
  | edge (e : DependencyEdge)
  | unresolved (u : UnresolvedReference)
  | nothing
  deriving DecidableEq, Repr

namespace Dependency

/-- A name without underscores, in lower case. -/
def normalize (name : String) : String :=
  Text.lower (String.ofList (name.toList.filter (· != '_')))

/-- What follows the last point of a qualified name. -/
def lastPart (name : String) : List Char := ((Path.stretches '.' name.toList).getLast?).getD []

/-- The contract a type name refers to: by its exact name, else by its normalized name. -/
def findByType? (typeName : String) (cs : List Contract) : Option Contract :=
  let simple := String.ofList (Text.trim (lastPart typeName))
  (cs.find? (·.name == simple)).or (cs.find? (normalize ·.name == normalize simple))

theorem mem_of_findByType? {type : String} {cs : List Contract} {c : Contract}
    (h : findByType? type cs = some c) : c ∈ cs := by
  simp only [findByType?, Option.or_eq_some_iff] at h
  rcases h with h | ⟨-, h⟩
  · exact List.mem_of_find?_eq_some h
  · exact List.mem_of_find?_eq_some h

/-- The contract a variable name refers to by convention. -/
def findByName? (name : String) (cs : List Contract) : Option Contract :=
  let wanted := normalize name
  if wanted.isEmpty then none
  else (cs.find? (normalize ·.name == wanted)).or (cs.find? (normalize ·.name == "i" ++ wanted))

theorem mem_of_findByName? {name : String} {cs : List Contract} {c : Contract}
    (h : findByName? name cs = some c) : c ∈ cs := by
  simp only [findByName?] at h
  split at h
  · cases h
  · rcases Option.or_eq_some_iff.mp h with h | ⟨-, h⟩
    · exact List.mem_of_find?_eq_some h
    · exact List.mem_of_find?_eq_some h

/-- What follows the last arrow, without closing parentheses and spaces at its end. -/
def afterLastArrow : List Char → Option (List Char)
  | [] => none
  | c :: cs =>
    match afterLastArrow cs with
    | some rest => some rest
    | none =>
      match c == '=', cs with
      | true, '>' :: rest =>
        some (rest.reverse.dropWhile fun c => c == ')' || c == ' ').reverse
      | _, _ => none

/-- The declared type is, or finally holds, an address. -/
def referencesAddress (declared : String) : Bool :=
  let value := (afterLastArrow declared.toList).getD declared.toList
  Text.firstWord (value.takeWhile (· != '[')) == "address".toList

def isLocalType (c : Contract) (typeName : String) : Bool :=
  c.typeNames.contains (String.ofList (lastPart typeName))

/-- The contract a variable refers to and what that rests on. -/
def target? (cs : List Contract) (c : Contract) (v : StateVariable) : Option (Contract × Tier) :=
  match TypeText.referencedName? v.declaredType with
  | some type =>
    match findByType? type cs with
    | some d => some (d, .declaredType)
    | none =>
      if isLocalType c type then none
      else (findByName? v.name cs).map fun d => (d, .namingConvention)
  | none =>
    if referencesAddress v.declaredType then
      (findByName? v.name cs).map fun d => (d, .namingConvention)
    else none

/-- What a state variable of `c` contributes. Constants refer to nothing, and a contract does not
depend on itself. -/
def reference (cs : List Contract) (c : Contract) (v : StateVariable) : Reference :=
  if v.isConstant then .nothing
  else
    match target? cs c v with
    | some (d, tier) => if d.name == c.name then .nothing else .edge ⟨c.name, d.name, v.name, tier⟩
    | none =>
      match TypeText.referencedName? v.declaredType with
      | some type => if isLocalType c type then .nothing else .unresolved ⟨c.name, v.name, type⟩
      | none => .nothing

/-- What every state variable contributes, contract by contract. -/
def references (cs : List Contract) : List Reference :=
  cs.flatMap fun c => c.stateVariables.map (reference cs c)

end Dependency

end ContractAudit
