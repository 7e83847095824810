import Unimported.Config.Basic
import Unimported.Path.Normal
import Unimported.Path.Set
import Unimported.Specifier

/-!
# `Unimported.Candidate`: the paths a reference may mean

A relative specifier leaves open whether it names a file, a file without its
extension, or a directory with an index file. Which of them it is shows only on disk;
here they are all listed.

- `candidatePaths` are the paths that one specifier may mean.
- `references` are the references of a source text.
-/

set_option autoImplicit false

namespace Unimported

/-- A relative import, with every path it may mean. -/
structure Reference where
  /-- The specifier as written. -/
  specifier : String
  /-- The paths that it may mean; they need not exist. -/
  candidates : List Path
deriving DecidableEq, Repr

/-- The index file with this extension. -/
def indexFile (extension : String) : Path :=
  Path.ofString ("index" ++ extension)

/-- What a specifier in a file of the directory `dir` under `root` names, by its text
alone. Normalizing the whole path lets `../name/x` come back into a root that is
called `name`. -/
def importBase (root dir specifier : Path) : Path :=
  ((root.join dir).join specifier).normalize

/-- The paths that a specifier may mean: its base, the base with an extension written
after it, and an index file in the directory of that name. The empty base is the
current directory, which only has index files. -/
def candidatePaths (extensions : List String) (root dir specifier : Path) : List Path :=
  let base := importBase root dir specifier
  if base = Path.empty then
    -- An extension alone would be the name of some file.
    extensions.map indexFile
  else
    base :: (extensions.map fun extension => base.append (Utf8.encode extension.toList))
      ++ extensions.map fun extension => base.join (indexFile extension)

/-- The relative imports of a source text, in the order of `Specifier.specifiers`. -/
def references (extensions : List String) (root dir : Path) (source : List Char) :
    List Reference :=
  (Specifier.specifiers source).map fun specifier =>
    ⟨String.ofList specifier,
      candidatePaths extensions root dir (Path.ofChars specifier)⟩

/-- Every path that one of the references may mean, in order. -/
def allCandidates (refs : List Reference) : List Path :=
  (PathSet.ofList (refs.flatMap (·.candidates))).toList

end Unimported
