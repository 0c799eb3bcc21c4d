import ContractAudit.Contract.Extract
import ContractAudit.Dependency.Cycle
import ContractAudit.Table

/-!
# The dependency graph of a batch
-/

namespace ContractAudit

structure DependencyGraph where
  /-- The contracts, with distinct names. -/
  nodes : List Contract
  edges : List DependencyEdge
  unresolved : List UnresolvedReference
  cycles : List (List String)
  deriving Repr

namespace DependencyGraph

/-- Contracts with distinct names: of several with one name the last, at the place of the first. -/
def nodesOf (cs : List Contract) : List Contract :=
  (Table.putAll [] (cs.map fun c => (c.name, c))).values

def ofContracts (cs : List Contract) : DependencyGraph :=
  let nodes := nodesOf cs
  let references := Dependency.references nodes
  let edges := references.filterMap fun
    | .edge e => some e
    | _ => none
  { nodes := nodes
    edges := edges
    unresolved := references.filterMap fun
      | .unresolved u => some u
      | _ => none
    cycles := Dependency.cycles edges (nodes.map (·.name)) }

def node? (g : DependencyGraph) (name : String) : Option Contract := g.nodes.find? (·.name == name)

/-- The edge of a variable of a contract. -/
def edge? (g : DependencyGraph) (contract name : String) : Option DependencyEdge :=
  g.edges.find? fun e => e.source == contract && e.via == name

def unresolvedOf (g : DependencyGraph) (contract : String) : List UnresolvedReference :=
  g.unresolved.filter (·.contract == contract)

/-- The contract that a receiver, read from the variable `target` or of the type `type`, is of. The
edge of the variable, if it has one, decides. -/
def resolve? (g : DependencyGraph) (contract : String) (target type : Option String) :
    Option Contract :=
  let edge := match target with
    | some name => if name.isEmpty then none else g.edge? contract name
    | none => none
  match edge with
  | some e => g.node? e.target
  | none =>
    match type with
    | some t => if t.isEmpty then none else Dependency.findByType? t g.nodes
    | none => none

/-- The contract of the batch that a call lands in. -/
def resolveCall? (g : DependencyGraph) (contract : String) (site : CallSite) : Option Contract :=
  g.resolve? contract site.targetVariable site.resolvedType

/-- The number of edges from and to a contract. -/
def degree (g : DependencyGraph) (name : String) : Nat :=
  (g.edges.filter (·.source == name)).length + (g.edges.filter (·.target == name)).length

/-- Contracts with more than three links or on a cycle, sorted. -/
def critical (g : DependencyGraph) : List String :=
  Text.sort ((g.nodes.map (·.name)).filter fun n =>
    decide (3 < g.degree n) || g.cycles.any (·.contains n))

end DependencyGraph

/-- The declared type of each state variable of a source. A text that has no model is read as a bare
list of declarations. A later variable of a name replaces an earlier one. -/
def declaredTypes (code : String) : Table String String :=
  let vs : List StateVariable := match (SourceUnit.mk "inline" "" code).contracts with
    | .ok cs => cs.flatMap (·.stateVariables)
    | .error _ => (Token.split ";" (tokenize code)).filterMap StateVariable.ofTokens?
  Table.putAll [] (vs.map fun v => (v.name, v.declaredType))

end ContractAudit
