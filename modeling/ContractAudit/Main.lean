import ContractAudit.CommandLine

/-!
# The program

Takes what a run needs out of the world, and puts its outcome there.
-/

namespace ContractAudit.CommandLine

/-- The tree at a path. Folders that a crawl never enters are left empty, and links inside it are
taken for what they lead to, unless that is a folder or nothing. -/
partial def loadTree (path : String) : IO FileTree := do
  let there ← IO.FS.realPath path
  if ← there.isDir then
    let mut entries := #[]
    for e in ← there.readDir do
      let isLink := (← e.path.symlinkMetadata).type == .symlink
      match ← e.path.metadata.toBaseIO with
      | .error _ => pure ()
      | .ok target =>
        if target.type != .dir then
          entries := entries.push (e.fileName, ← loadTree e.path.toString)
        else if ! isLink then
          let tree ← if Crawl.skippedFolders.contains e.fileName then pure (.folder [])
            else loadTree e.path.toString
          entries := entries.push (e.fileName, tree)
    return .folder entries.toList
  else
    return .file (← IO.FS.readBinFile there).toList

/-- Adds what a path leads to, if it leads anywhere. -/
def withTree (files : FileSystem) (path : Path) : IO FileSystem := do
  match ← (loadTree path.text).toBaseIO with
  | .ok tree => return files.mount path tree
  | .error _ => return files

/-- Adds what stands in the way of a file at a path: the folder it goes into, and a folder that is
there already. -/
def withTarget (files : FileSystem) (path : Path) : IO FileSystem := do
  let parent : Path := { path with parts := path.parts.dropLast }
  let mut files := files
  for p in [parent, path] do
    let found ← (do (← IO.FS.realPath p.text).isDir : IO Bool).toBaseIO
    if found matches .ok true then
      if (files.locate false p).toOption.isNone then files := files.mount p (.folder [])
  return files

/-- The environment variables that settings are read from. -/
def environment : IO (Table String String) := do
  let names := Settings.fields.map fun (name, _) =>
    String.ofList (("xcaudit_" ++ name).toList.map Char.toUpper)
  let values ← names.mapM fun name => return (← IO.getEnv name).map (name, ·)
  return values.filterMap id

/-- The part of the world that a command line is about. -/
def filesFor (words : List String) : IO FileSystem := do
  let here := Path.ofString (← IO.currentDir).toString
  let start : FileSystem := { root := .folder [], workingFolder := here.parts }
  let files := start.mount (.ofString ".") (.folder [])
  match Invocation.ofWords words with
  | .ok { command := some c, .. } =>
    let files ← withTree files (.ofString Settings.environmentFile)
    match c with
    | .config => return files
    | .scan r =>
      let files ← withTree files (.ofString r.path)
      match r.output with
      | some output => withTarget files (.ofString output)
      | none => return files
  | _ => return files

end ContractAudit.CommandLine

open ContractAudit CommandLine in
def main (words : List String) : IO UInt32 := do
  match run words (← filesFor words) (← environment) with
  | .error (.settings e) => throw (IO.userError ("settings: " ++ e.message))
  | .error (.logging e) => throw (IO.userError e.message)
  | .error (.score e) => throw (IO.userError e.message)
  | .ok o =>
    match o.written with
    | some (path, text) => IO.FS.writeFile path.text text
    | none => pure ()
    IO.print o.out
    IO.eprint o.err
    return o.code.toUInt32
