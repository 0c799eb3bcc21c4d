import ContractAudit.Text.Lower
import ContractAudit.Text.Search

/-!
# Vendored code

Third-party libraries, tests and scripts are told by their paths: by how the path begins, or by the
name of a library anywhere in it.
-/

namespace ContractAudit.Vendored

def beginnings : List String :=
  ["@", "lib/", "node_modules/", "open-zeppelin/", "solmate/", "solady/", "permit2/", "forge-std/",
   ".deps/", "test/", "script/", "target/"]

def libraries : List String :=
  ["openzeppelin", "solmate", "solady", "permit2", "forge-std", "hardhat", "foundry"]

/-- Drops the marks of the present folder at the start of a path. -/
def dropHere : List Char → List Char
  | '.' :: '/' :: cs => dropHere cs
  | cs => cs

/-- The form of a path that is compared: slashes only, lower case, no mark of the present folder. -/
def normalize (path : String) : List Char :=
  dropHere (Text.lower (path.map fun c => if c = '\\' then '/' else c)).toList

/-- The relative path leads into code that is not the project's own. -/
def holds (path : String) : Bool :=
  let cs := normalize path
  beginnings.any (·.toList.isPrefixOf cs) || libraries.any (Text.occurs ·.toList cs)

end ContractAudit.Vendored
