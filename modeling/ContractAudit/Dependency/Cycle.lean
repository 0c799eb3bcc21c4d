import ContractAudit.Dependency
import ContractAudit.Text.Order

/-!
# Cycles

Cycles of dependency edges are found depth first, from the contracts in order of name, each contract
being entered once. An edge back to a contract on the current path closes a cycle. A cycle is
written from its smallest member, so that each is reported once.
-/

namespace ContractAudit.Dependency

/-- The distinct targets of the edges from a contract, in order. -/
def successors (edges : List DependencyEdge) (name : String) : List String :=
  ((edges.filter (·.source == name)).map (·.target)).eraseDups

/-- The smallest of some names. -/
def smallest : List String → String
  | [] => ""
  | [n] => n
  | n :: ns => let m := smallest ns; if m < n then m else n

/-- The cycle from its smallest member on. -/
def rotate (cycle : List String) : List String :=
  let least := smallest cycle
  cycle.dropWhile (· != least) ++ cycle.takeWhile (· != least)

structure Search where
  visited : List String
  cycles : List (List String)
  deriving Repr

/-- Follows edges from the contract at the head of `path`, which leads back to where the search
began. -/
def followEdges (enter : String → List String → Search → Search) (path : List String) :
    List String → Search → Search
  | [], s => s
  | n :: ns, s =>
    let s :=
      if path.contains n then
        { s with cycles := rotate (path.reverse.dropWhile (· != n)) :: s.cycles }
      else if s.visited.contains n then s
      else enter n path s
    followEdges enter path ns s

/-- Enters a contract. The contracts on a path are all different, so a depth of the number of
contracts is never used up. -/
def enter (edges : List DependencyEdge) : Nat → String → List String → Search → Search
  | 0, _, _, s => s
  | depth + 1, name, path, s =>
    followEdges (enter edges depth) (name :: path) (successors edges name)
      { s with visited := name :: s.visited }

def search (edges : List DependencyEdge) (names : List String) : Search :=
  (Text.sort names).foldl
    (fun s n => if s.visited.contains n then s else enter edges names.length n [] s) ⟨[], []⟩

/-- Lists of names in lexicographic order. -/
def listLe : List String → List String → Bool
  | [], _ => true
  | _ :: _, [] => false
  | a :: as, b :: bs => a < b || (a == b && listLe as bs)

/-- The cycles found, sorted and each once. -/
def cycles (edges : List DependencyEdge) (names : List String) : List (List String) :=
  ((search edges names).cycles.eraseDups).mergeSort listLe

end ContractAudit.Dependency
