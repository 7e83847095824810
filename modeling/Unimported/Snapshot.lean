import Unimported.Run

/-!
# `Unimported.Snapshot`: the files that a run looks at

A run is a function of a workspace. This module copies from the disk what a given
command will ask for: the directories and source files under its root, configuration
files, and whatever stands at the paths that imports may mean. Everything goes into the
tree at its real place, and a link is kept with the real place it leads to, so that a
path names the same thing in the copy as on the disk. Trees have no permissions: a file
that the user may not read is empty in the copy, and such a directory is too.

- `Snapshot.take` makes the copy for a command.
-/

set_option autoImplicit false

namespace Unimported.Snapshot

/-- Copies into a tree. -/
abbrev Copy := StateT FileTree IO

/-- The location of a real path. -/
def locationOf (real : String) : Location :=
  ((Path.ofString real).segments.filterMap Name.ofBytes?).reverse

/-- Adds an entry at a real path, unless there is one. -/
def add (real : String) (entry : Entry) : Copy Unit :=
  modify fun t => ⟨t.table.insertIfNew (locationOf real) entry⟩

/-- The result of an action, if it does not fail. -/
def attempt {α : Type} (action : IO α) : Copy (Option α) := do
  try
    return some (← action)
  catch _ =>
    return none

/-- Where a link leads that has no real path: nowhere, which the empty path does too, or
in circles, like a link to itself. -/
def lostTarget (path : String) : IO.Error → Path
  | .noFileOrDirectory .. => Path.empty
  | _ => Path.ofString path

/-- Copies what stands under a name in a real directory, with the contents of a file if
they are wanted, and what a link there leads to. The answer is the real path, if there
is one. -/
partial def copyAt (contents : Bool) (directory name : String) : Copy (Option String) := do
  let path := if directory = "/" then "/" ++ name else directory ++ "/" ++ name
  let entry? ← attempt do
    let full := (← IO.FS.realPath directory) / name
    return (full, (← full.symlinkMetadata).type)
  match entry? with
  | none => return none
  | some (_, .dir) =>
    add path .directory
    return some path
  | some (full, .symlink) =>
    try
      let real := (← IO.FS.realPath full).toString
      add path (.link (Path.ofString real))
      copyReal contents real
    catch e =>
      add path (.link (lostTarget path e))
      return none
  | some _ =>
    let bytes ← if contents then attempt (IO.FS.readBinFile path) else pure none
    add path (.file ((bytes.map (·.toList)).getD []))
    return some path
where
  /-- Copies a real path with the directories that lead to it. -/
  copyReal (contents : Bool) (real : String) : Copy (Option String) := do
    let mut at? := some "/"
    for name in (real.splitOn "/").filter (· ≠ "") do
      match at? with
      | some dir => at? ← copyAt contents dir name
      | none => pure ()
    return at?

/-- Copies what a path names, seen from a real directory, with all that the lookup
passes. -/
partial def copyPath (contents : Bool) (directory : String) (p : Path) :
    Copy (Option String) := do
  let mut at? := some (if p.isAbsolute then "/" else directory)
  for c in p.components do
    match at?, c with
    | some dir, .name bytes =>
      match Utf8.decode bytes with
      | some name => at? ← copyAt contents dir (String.ofList name)
      | none => at? := none
    | some dir, .up =>
      at? := some ("/" ++ "/".intercalate ((dir.splitOn "/").filter (· ≠ "")).dropLast)
    | _, _ => pure ()
  return at?

/-- Copies the directories below a real directory and the names in them, with the
contents of source files. `shown` is the path of the directory as the scan writes it. -/
partial def copyBelow (c : Config) (directory : String) (shown : Path) : Copy Unit := do
  let dir ← IO.FS.realPath directory
  let entries ← attempt dir.readDir
  for e in entries.getD #[] do
    let path := shown.join (Path.ofString e.fileName)
    let source := c.isSourceName e.fileName.toList
    match ← copyAt source directory e.fileName with
    | none => pure ()
    | some real =>
      let own := (if directory = "/" then "" else directory) ++ "/" ++ e.fileName
      let isDir := ((← get).entryAt (locationOf real)) == some .directory
      if real = own && isDir && !c.isVendorPath path then
        copyBelow c own path

/-- The workspace in which a command finds everything that it looks at. -/
def take (command : Command) : IO Workspace := do
  let here := (← IO.FS.realPath ".").toString
  let workspace (t : FileTree) : Workspace := ⟨t, locationOf here⟩
  let copy : Copy Unit := do
    let _ ← copyAt.copyReal false here
    let root ← copyPath false here command.root
    for name in Config.fileNames do
      let _ ← copyPath true here (command.root.join (Path.ofString name))
    for p in command.config?.toList ++ command.output?.toList do
      let _ ← copyPath true here p
    match root, command.configure (workspace (← get)) with
    | some real, .ok (config, _) =>
      if !config.isVendorPath command.root then
        copyBelow config real command.root
      let w := workspace (← get)
      for file in (discover w config command.root).sourceFiles do
        match readReferences w config.extensions command.root file with
        | .ok refs =>
          for p in refs.flatMap (·.candidates) do
            let _ ← copyPath false here p
        | .error _ => pure ()
    | _, _ => pure ()
  let (_, tree) ← copy.run FileTree.empty
  return workspace tree

end Unimported.Snapshot
