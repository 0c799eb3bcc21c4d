import ContractAudit.Contract
import ContractAudit.FileTree
import ContractAudit.Vendored

/-!
# Finding sources

A crawl takes the sources below a folder in one order, whatever order the folder lists its entries
in: a folder's own files by name, then what is in its folders, by name. Folders that hold no sources
of the project are not entered. A crawl from a file takes that file alone.
-/

namespace ContractAudit

/-- What a crawl sees: links to files are files, links to folders are not there. A file that cannot
be read has no bytes. -/
inductive SourceTree where
  | file (bytes : Option (List UInt8))
  | folder (entries : List (String × SourceTree))

namespace FileSystem

/-- What a link in the folder at `place` is to a crawl. -/
def linkSources (fs : FileSystem) (place : List String) (target : String) : Option SourceTree :=
  let path := Path.ofString target
  match follow fs.root false maxLinks (startOf path place) path.parts with
  | .error _ => some (.file none)
  | .ok there =>
    match fs.root.at? there with
    | some (.file bytes) => some (.file (some bytes))
    | _ => none

mutual
/-- What a crawl sees of a tree that stands at `place`. -/
def sources (fs : FileSystem) (place : List String) : FileTree → Option SourceTree
  | .file bytes => some (.file (some bytes))
  | .folder entries => some (.folder (sourceEntries fs place entries))
  | .link target => linkSources fs place.dropLast target
termination_by structural t => t

def sourceEntries (fs : FileSystem) (place : List String) :
    List (String × FileTree) → List (String × SourceTree)
  | [] => []
  | e :: es => (sourceEntry fs place e).toList ++ sourceEntries fs place es
termination_by structural es => es

def sourceEntry (fs : FileSystem) (place : List String) :
    String × FileTree → Option (String × SourceTree)
  | (name, t) => (sources fs (place ++ [name]) t).map (name, ·)
termination_by structural e => e
end

end FileSystem

/-- A file that a crawl came to, with its path from the folder it started in. -/
structure FoundFile where
  name : String
  path : String
  bytes : Option (List UInt8)

def FoundFile.unit? (f : FoundFile) : Option SourceUnit :=
  f.bytes.map fun bytes => ⟨f.name, f.path, fileText bytes⟩

/-- What a crawl takes. -/
structure Crawl where
  extensions : List String
  /-- No more sources than this are taken. -/
  cap : Int
  /-- Leave out vendored code. -/
  filter : Bool

namespace Crawl

/-- Names of folders that are never entered. -/
def skippedFolders : List String :=
  [".git", "node_modules", "__pycache__", ".venv", "venv", "artifacts", "cache", "out",
   "typechain-types"]

def leavesOut (c : Crawl) (path : String) : Bool := c.filter && Vendored.holds path

/-- The folder `name` below the folders `above` is entered. -/
def enters (c : Crawl) (above name : String) : Bool :=
  ! skippedFolders.contains name && ! c.leavesOut (above ++ name ++ "/")

def accepts (c : Crawl) (name : String) : Bool := c.extensions.contains (Path.extension name)

/-- Orders entries by name. -/
def byName (entries : List (String × α)) : List (String × α) :=
  entries.mergeSort fun a b => decide (a.1 ≤ b.1)

/-- The file that an entry is, if it is one that is accepted. -/
def ownFile? (c : Crawl) (above : String) : String × SourceTree → Option (String × FoundFile)
  | (name, .file bytes) => if c.accepts name then some (name, ⟨name, above ++ name, bytes⟩) else none
  | (_, .folder _) => none

mutual
/-- The accepted files of a tree below the folders `above`, in the order of the crawl. -/
def files (c : Crawl) (above : String) : SourceTree → List FoundFile
  | .file _ => []
  | .folder entries =>
    (byName (entries.filterMap (c.ownFile? above))).map (·.2) ++
      (byName (folderFiles c above entries)).flatMap (·.2)
termination_by structural t => t

/-- The files in each folder of a list of entries. -/
def folderFiles (c : Crawl) (above : String) :
    List (String × SourceTree) → List (String × List FoundFile)
  | [] => []
  | e :: es => (folderFile c above e).toList ++ folderFiles c above es
termination_by structural es => es

def folderFile (c : Crawl) (above : String) : String × SourceTree → Option (String × List FoundFile)
  | (name, t) =>
    if c.enters above name then some (name, files c (above ++ name ++ "/") t) else none
termination_by structural e => e
end

/-- The sources below a folder. -/
def units (c : Crawl) (t : SourceTree) : List SourceUnit :=
  (((c.files "" t).filter (! c.leavesOut ·.path)).filterMap FoundFile.unit?).take c.cap.toNat

/-- The sources that a path leads to, or nothing where it leads nowhere. -/
def run? (c : Crawl) (fs : FileSystem) (path : Path) : Option (List SourceUnit) :=
  match fs.locate false path with
  | .error _ => none
  | .ok place =>
    match fs.root.at? place with
    | some (.file bytes) => some [⟨path.name, path.name, fileText bytes⟩]
    | some t => some (((fs.sources place t).map c.units).getD [])
    | none => none

end Crawl

/-- What is said of a path that leads nowhere. -/
def missingPath (path : Path) : String := "No such file or directory: " ++ path.text

end ContractAudit
