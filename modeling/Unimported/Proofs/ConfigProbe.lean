import Unimported.Proofs.FileTree.Contents
import Unimported.Proofs.Scan
import Unimported.Run

/-!
# `Unimported.Proofs.ConfigProbe`: the configuration file that counts

Six names are looked for in the root of a scan, one after the other. A name that a directory
has, or a link that leads nowhere, is passed over like a name that is free. The first name that
a file has counts, and the search ends there: a broken file does not give way to a later one,
but to the defaults. So a configuration depends on which of the names are files and on the bytes
of one of them; not even the root has a part in it, since the language of the file is told by
its name. The statements:

* `languageOf_join`: the language of a file does not depend on the directory that it is in.
* `fileUnder?_eq_some_iff`, `fileUnder?_eq_none_iff`: which file the search comes to.
* `probe_of_counts`: the configuration is what the bytes of this file hold under its name.
* `probe_firstFile`: the result of the search, its warning included, and what it depends on.
-/

set_option autoImplicit false

namespace Unimported

/-! ### Names and languages -/

namespace Path

/-- A path has the last name that it has when it is seen from any directory. -/
theorem fileName?_join (p : Path) {q : Path} (hq : q.isAbsolute = false) (hbody : q.body ≠ []) :
    (p.join q).fileName? = q.fileName? := by
  have hlast : (p.join q).components.getLast? = q.components.getLast? := by
    rw [components_join p q hq]
    split
    · rfl
    · rw [components_eq q, List.getLast?_append_of_ne_nil _ hbody,
        List.getLast?_append_of_ne_nil _ hbody]
  rw [fileName?, fileName?, hlast]

end Path

namespace Config

/-- The language of a file does not depend on the directory that it is in. -/
theorem languageOf_join (root : Path) {name : String} (hname : name ∈ fileNames) :
    languageOf (root.join (Path.ofString name)) = languageOf (Path.ofString name) := by
  have hplain : ∀ n ∈ fileNames, (Path.ofString n).isAbsolute = false ∧
      (Path.ofString n).body ≠ [] := by decide +kernel
  obtain ⟨hrelative, hbody⟩ := hplain name hname
  rw [languageOf, languageOf, Path.extension?, Path.extension?,
    Path.fileName?_join root hrelative hbody]

/-! ### The first file -/

/-- Whether the file of this name counts under a root: there is a file of this name, links
followed, and none of the names before it has one. -/
def Counts (w : Workspace) (root : Path) (name : String) : Prop :=
  w.isFile (root.join (Path.ofString name)) = true ∧
    ∃ before after, fileNames = before ++ name :: after ∧
      ∀ earlier ∈ before, w.isFile (root.join (Path.ofString earlier)) = false

section

variable {w w' : Workspace} {root root' : Path} {name : String} {contents : List UInt8}

/-- The file that counts has one of the six names. -/
theorem Counts.mem (h : Counts w root name) : name ∈ fileNames := by
  obtain ⟨-, before, after, hnames, -⟩ := h
  rw [hnames]
  exact List.mem_append_right _ (List.mem_cons_self ..)

/-- The file that counts has contents. -/
theorem Counts.exists_read (h : Counts w root name) :
    ∃ contents, w.read (root.join (Path.ofString name)) = .ok contents := by
  obtain ⟨loc, contents, hstat⟩ := Workspace.isFile_iff.mp h.1
  exact ⟨contents, by rw [Workspace.read, hstat]⟩

/-- The file that counts is the same wherever the same names are files. -/
theorem Counts.congr (h : Counts w root name)
    (hsame : ∀ n ∈ fileNames,
      w'.isFile (root'.join (Path.ofString n)) = w.isFile (root.join (Path.ofString n))) :
    Counts w' root' name := by
  have hmem := h.mem
  obtain ⟨hfile, before, after, hnames, hearlier⟩ := h
  refine ⟨(hsame name hmem).trans hfile, before, after, hnames, fun earlier hbefore => ?_⟩
  rw [hsame earlier (hnames ▸ List.mem_append_left _ hbefore)]
  exact hearlier earlier hbefore

/-- The file that counts is the first one that the search finds. -/
theorem counts_iff : Counts w root name ↔
    fileNames.find? (fun n => w.isFile (root.join (Path.ofString n))) = some name := by
  rw [List.find?_eq_some_iff_append]
  simp [Counts]

/-- No more than one file counts. -/
theorem Counts.unique {other : String} (h : Counts w root name) (h' : Counts w root other) :
    name = other :=
  Option.some.inj ((counts_iff.mp h).symm.trans (counts_iff.mp h'))

/-- The search comes to the file that counts. -/
theorem fileUnder?_eq_some_iff {p : Path} : fileUnder? w root = some p ↔
    ∃ name, Counts w root name ∧ root.join (Path.ofString name) = p := by
  rw [fileUnder?, List.find?_map, Option.map_eq_some_iff]
  exact exists_congr fun name => and_congr_left fun _ => counts_iff.symm

/-- The search comes to no file exactly if none of the names is one. -/
theorem fileUnder?_eq_none_iff : fileUnder? w root = none ↔
    ∀ name ∈ fileNames, w.isFile (root.join (Path.ofString name)) = false := by
  rw [fileUnder?, List.find?_map, Option.map_eq_none_iff, List.find?_eq_none]
  simp

/-! ### What the file holds -/

/-- The configuration that bytes hold in a file of this name. It is the default one if they are
no text, or a text that holds no configuration in the language of the name. -/
def ofContents (name : String) (contents : List UInt8) : Config :=
  match Utf8.decode contents with
  | none => {}
  | some text =>
    match ofText (languageOf (Path.ofString name)) text with
    | .ok c => c.normalized
    | .error _ => {}

/-- What is made of a file of one of the names, a failure being the default configuration. -/
theorem load_getD (hname : name ∈ fileNames)
    (hread : w.read (root.join (Path.ofString name)) = .ok contents) :
    (load w (root.join (Path.ofString name))).toOption.getD {} = ofContents name contents := by
  simp only [load, Workspace.readText, hread, languageOf_join root hname, ofContents]
  cases Utf8.decode contents with
  | none => rfl
  | some text =>
    simp only
    cases ofText (languageOf (Path.ofString name)) text with
    | ok c => rfl
    | error e => rfl

/-- The search gives what is made of the file that counts, and a warning where this fails. -/
theorem probe_eq_of_counts (h : Counts w root name) :
    probe w root =
      match load w (root.join (Path.ofString name)) with
      | .ok c => (c, [])
      | .error _ =>
        ({}, [.warn ("Ignoring config file " ++ (root.join (Path.ofString name)).display)]) := by
  rewrite [probe, fileUnder?_eq_some_iff.mpr ⟨name, h, rfl⟩]
  rfl

/-- The configuration is what the bytes of the file that counts hold under its name. -/
theorem probe_of_counts (h : Counts w root name)
    (hread : w.read (root.join (Path.ofString name)) = .ok contents) :
    (probe w root).1 = ofContents name contents := by
  rw [← load_getD h.mem hread, probe_eq_of_counts h]
  cases load w (root.join (Path.ofString name)) with
  | ok c => rfl
  | error e => rfl

/-- A search in another tree, and under another root, comes to the same configuration if the
same names are files there and the bytes of the file that counts are the same. -/
theorem probe_congr
    (hsame : ∀ n ∈ fileNames,
      w'.isFile (root'.join (Path.ofString n)) = w.isFile (root.join (Path.ofString n)))
    (hread : ∀ n, Counts w root n →
      w'.read (root'.join (Path.ofString n)) = w.read (root.join (Path.ofString n))) :
    (probe w' root').1 = (probe w root).1 := by
  -- The same name counts in both searches, or none does.
  cases hunder : fileUnder? w root with
  | none =>
    have hunder' : fileUnder? w' root' = none := by
      rw [fileUnder?_eq_none_iff] at hunder ⊢
      intro n hn
      rw [hsame n hn]
      exact hunder n hn
    rw [probe, probe, hunder, hunder']
  | some p =>
    obtain ⟨n, hcounts, -⟩ := fileUnder?_eq_some_iff.mp hunder
    obtain ⟨bytes, hbytes⟩ := hcounts.exists_read
    rw [probe_of_counts hcounts hbytes,
      probe_of_counts (hcounts.congr hsame) ((hread n hcounts).trans hbytes)]

/-- Contents play no part in the search but for those of the file that counts. -/
theorem probe_of_sameOutline (h : w.SameOutline w')
    (hread : ∀ n, Counts w root n →
      w'.read (root.join (Path.ofString n)) = w.read (root.join (Path.ofString n))) :
    (probe w' root).1 = (probe w root).1 :=
  probe_congr (fun _ _ => Workspace.isFile_of_sameOutline h _) hread

end

/-- The configuration that holds for a root where none is asked for.

1. If none of the six names is a file under the root, links followed, every default holds.
2. Otherwise the first name that is a file counts. The configuration is what its bytes hold
   under its name: it is the one that the file gives when it is loaded, and the default one
   where the file cannot be read or parsed, of which a warning tells. What the other names
   stand for is not asked.
3. So the search in another tree, and under another root, has the same result if the same
   names are files there and the first of them has the same bytes. This is so in particular
   if no more than the contents of other files have changed.
4. A command that asks for no configuration file always has a configuration. -/
theorem probe_firstFile (w : Workspace) (root : Path) :
    ((∀ name ∈ fileNames, w.isFile (root.join (Path.ofString name)) = false) →
      probe w root = ({}, [])) ∧
    (∀ name, Counts w root name →
      let p := root.join (Path.ofString name)
      (∃ contents, w.read p = .ok contents ∧ (probe w root).1 = ofContents name contents) ∧
      (∀ c, load w p = .ok c → probe w root = (c, [])) ∧
      ∀ e, load w p = .error e →
        probe w root = ({}, [.warn ("Ignoring config file " ++ p.display)])) ∧
    ((∀ w' root',
        (∀ name ∈ fileNames, w'.isFile (root'.join (Path.ofString name))
          = w.isFile (root.join (Path.ofString name))) →
        (∀ name, Counts w root name → w'.read (root'.join (Path.ofString name))
          = w.read (root.join (Path.ofString name))) →
        (probe w' root').1 = (probe w root).1) ∧
      ∀ w', w.SameOutline w' →
        (∀ name, Counts w root name → w'.read (root.join (Path.ofString name))
          = w.read (root.join (Path.ofString name))) →
        (probe w' root).1 = (probe w root).1) ∧
    ∀ command : Command, command.config? = none → command.root = root →
      command.configure w = .ok (command.override (probe w root).1, (probe w root).2) := by
  refine ⟨fun hnone => ?_, fun name hcounts => ⟨?_, ?_, ?_⟩,
    ⟨fun w' root' => probe_congr, fun w' => probe_of_sameOutline⟩, ?_⟩
  · rw [probe, fileUnder?_eq_none_iff.mpr hnone]
  · obtain ⟨contents, hread⟩ := hcounts.exists_read
    exact ⟨contents, hread, probe_of_counts hcounts hread⟩
  · intro c hload
    rw [probe_eq_of_counts hcounts, hload]
  · intro e hload
    rw [probe_eq_of_counts hcounts, hload]
  · intro command hconfig hroot
    rw [Command.configure, Command.baseConfig, hconfig, ← hroot]
    rfl

/-- An app in which a directory has the first name, a link that leads nowhere the second one,
and a broken file the third. What comes after it, a later file has for text. -/
def brokenConfig (later : String) : Workspace :=
  let files := Workspace.ofFiles [("app/.deadfiles.yml/notes", ""),
    ("app/.deadfiles.toml", "vendor_dir = "), ("app/deadfiles.yml", later)]
  { files with
    tree := files.tree.place (Location.ofString "app/.deadfiles.yaml")
      (.link (Path.ofString "nowhere")) }

/-- The broken file counts, whatever the later one holds. Loaded for itself, the later one
gives a configuration. -/
theorem probe_firstFile_brokenConfig :
    Counts (brokenConfig "vendor_dir: lib") (Path.ofString "app") ".deadfiles.toml" ∧
    load (brokenConfig "vendor_dir: lib") (Path.ofString "app/deadfiles.yml")
      = .ok { vendorDir := "lib" } ∧
    probe (brokenConfig "vendor_dir: lib") (Path.ofString "app")
      = ({}, [.warn "Ignoring config file app/.deadfiles.toml"]) ∧
    (probe (brokenConfig "extensions: [js]") (Path.ofString "app")).1 = {} := by
  have hcounts : Counts (brokenConfig "vendor_dir: lib") (Path.ofString "app")
      ".deadfiles.toml" := by
    refine ⟨by decide +kernel, [".deadfiles.yml", ".deadfiles.yaml"],
      ["deadfiles.yml", "deadfiles.yaml", "deadfiles.toml"], rfl, ?_⟩
    decide +kernel
  have hload : load (brokenConfig "vendor_dir: lib")
      ((Path.ofString "app").join (Path.ofString ".deadfiles.toml")) = .error .notToml := by
    decide +kernel
  have hwarning : ((Path.ofString "app").join (Path.ofString ".deadfiles.toml")).display
      = "app/.deadfiles.toml" := by decide +kernel
  obtain ⟨-, hfirst, ⟨hother, -⟩, -⟩ :=
    probe_firstFile (brokenConfig "vendor_dir: lib") (Path.ofString "app")
  obtain ⟨-, -, hbroken⟩ := hfirst _ hcounts
  have hprobe := hbroken _ hload
  rw [hwarning] at hprobe
  refine ⟨hcounts, by decide +kernel, hprobe, ?_⟩
  rw [hother (brokenConfig "extensions: [js]") (Path.ofString "app"), hprobe]
  · decide +kernel
  · intro name hname
    obtain rfl := hcounts.unique hname
    decide +kernel

end Config
end Unimported
