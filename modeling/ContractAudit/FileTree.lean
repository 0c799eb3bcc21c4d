import ContractAudit.Path
import ContractAudit.Table
import ContractAudit.Text.LineEnd
import ContractAudit.Text.Quoted
import ContractAudit.Text.Utf8

/-!
# File trees

A tree of folders, files and symbolic links. A path is followed name by name from a folder: a double
dot goes up, a link is replaced by its target, seen from the folder it stands in. Only so many links
are followed.
-/

namespace ContractAudit

inductive FileTree where
  | file (bytes : List UInt8)
  | folder (entries : List (String × FileTree))
  | link (target : String)

namespace FileTree

def isFolder : FileTree → Bool
  | folder _ => true
  | _ => false

/-- What stands at a place. A place is given by the names that lead to it, and no link is followed. -/
def at? : FileTree → List String → Option FileTree
  | t, [] => some t
  | folder entries, name :: names =>
    match Table.get? entries name with
    | some t => t.at? names
    | none => none
  | _, _ :: _ => none

/-- Puts `new` at a place, with the folders that lead to it. -/
def put (new : FileTree) : List String → FileTree → FileTree
  | [], _ => new
  | name :: names, folder entries =>
    folder (Table.put entries name (new.put names ((Table.get? entries name).getD (folder []))))
  | name :: names, _ => folder [(name, new.put names (folder []))]

end FileTree

/-- Why a path leads nowhere, or not to a file. -/
inductive PathError where
  | notFound
  | notFolder
  | isFolder
  | tooManyLinks
  deriving DecidableEq, Repr

namespace PathError

def number : PathError → Nat
  | notFound => 2
  | notFolder => 20
  | isFolder => 21
  | tooManyLinks => 40

def reason : PathError → String
  | notFound => "No such file or directory"
  | notFolder => "Not a directory"
  | isFolder => "Is a directory"
  | tooManyLinks => "Too many levels of symbolic links"

def message (e : PathError) (path : Path) : String :=
  "[Errno " ++ toString e.number ++ "] " ++ e.reason ++ ": " ++ Text.quoted path.text

end PathError

/-- The text of a file. -/
def fileText (bytes : List UInt8) : String :=
  String.ofList (Text.normalizeLineEnds (Text.decode bytes))

/-- A file tree and the folder in it from which relative paths start. -/
structure FileSystem where
  root : FileTree
  workingFolder : List String := []

namespace FileSystem

/-- Where a path starts that is used in the folder at `place`. -/
def startOf (path : Path) (place : List String) : List String :=
  if path.root.isEmpty then place else []

/-- Follows names from the folder at `place` to the place of a file or folder. With `create`, the
last name may be new. -/
def follow (root : FileTree) (create : Bool) (links : Nat) (place : List String) :
    (names : List String) → Except PathError (List String)
  | [] => .ok place
  | name :: names =>
    if name = ".." then follow root create links place.dropLast names
    else
      let next := place ++ [name]
      match root.at? next with
      | none => if create && names.isEmpty then .ok next else .error .notFound
      | some (.folder _) => follow root create links next names
      | some (.file _) => if names.isEmpty then .ok next else .error .notFolder
      | some (.link target) =>
        match links with
        | 0 => .error .tooManyLinks
        | n + 1 =>
          let path := Path.ofString target
          follow root create n (startOf path place) (path.parts ++ names)
termination_by names => (links, names.length)

/-- How many links are followed on the way. -/
def maxLinks : Nat := 40

def locate (fs : FileSystem) (create : Bool) (path : Path) : Except PathError (List String) :=
  follow fs.root create maxLinks (startOf path fs.workingFolder) path.parts

/-- The bytes of the file that a path leads to. -/
def read? (fs : FileSystem) (path : Path) : Option (List UInt8) :=
  match fs.locate false path with
  | .error _ => none
  | .ok place =>
    match fs.root.at? place with
    | some (.file bytes) => some bytes
    | _ => none

def text? (fs : FileSystem) (path : Path) : Option String := (fs.read? path).map fileText

/-- The place that a path names if no name on it is a link. -/
def placeOf (fs : FileSystem) (path : Path) : List String :=
  path.parts.foldl (fun place name => if name = ".." then place.dropLast else place ++ [name])
    (startOf path fs.workingFolder)

/-- Puts a folder where there is nothing. -/
def ensureFolder (root : FileTree) (place : List String) : FileTree :=
  if (root.at? place).isSome then root else (FileTree.folder []).put place root

/-- Puts a tree where a path leads, with a folder for every name on the way. -/
def mount (fs : FileSystem) (path : Path) (tree : FileTree) : FileSystem :=
  let onTheWay := (List.range path.parts.length).map fun n =>
    fs.placeOf { path with parts := path.parts.take n }
  { fs with root := tree.put (fs.placeOf path) (onTheWay.foldl ensureFolder fs.root) }

/-- Writes a file, which may be new in a folder that is there. -/
def write (fs : FileSystem) (path : Path) (bytes : List UInt8) : Except PathError FileSystem :=
  match fs.locate true path with
  | .error e => .error e
  | .ok place =>
    if (fs.root.at? place).any (·.isFolder) then .error .isFolder
    else .ok { fs with root := (FileTree.file bytes).put place fs.root }

end FileSystem

end ContractAudit
