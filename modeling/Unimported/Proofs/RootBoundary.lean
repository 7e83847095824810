import Unimported.Proofs.CurrentDirectory

/-!
# `Unimported.Proofs.RootBoundary`: targets inside and outside the root

What a file has for a target is a variant that exists and whose normal form begins with that
of the root. For most roots this says that the variant lies in the root, because normal forms
have their `..` in front: behind a name, or behind `/`, only names follow. A root that is the
current directory or one above it has neither, its normal form is a run of `..` or empty, and
a variant that climbs further up begins with the same run. The statements:

* `normal_append_cases`: what may follow the components of a root in a normal form.
* `isTarget_iff`: the variants that are targets lie in the root or climb out of it, and the
  second only if the root is upward.
* `resolved_inside_iff`: where the root is not upward, the targets are what lies in the root.
  Where it is, they lie in the root as long as no variant that exists climbs out of it.
* `resolved_climbing`: an import that leaves `.` has a target outside.
-/

set_option autoImplicit false

namespace Unimported

open Unimported.Path

/-- Whether a path lies in a root by its text: behind the normal form of the root, its own has
nothing but names. -/
def LiesIn (root q : Path) : Prop :=
  ∃ names : List (List UInt8), q.normalComponents = root.normalComponents ++ names.map .name

/-- Whether a path goes on with `..` behind the normal form of a root. -/
def ClimbsOut (root q : Path) : Prop :=
  ∃ rest, q.normalComponents = root.normalComponents ++ .up :: rest

/-- Whether a root is the current directory or one above it. -/
def IsUpward (root : Path) : Prop :=
  ∀ x ∈ root.normalComponents, x = .up

instance (root : Path) : Decidable (IsUpward root) :=
  inferInstanceAs (Decidable (∀ x ∈ root.normalComponents, x = .up))

/-- Whether a path is one of some targets, which are seen from the root. -/
def IsTarget (targets : List Path) (root q : Path) : Prop :=
  ∃ p ∈ targets, q.normalComponents = root.normalComponents ++ p.components

/-- In a normal form there are names behind a name and behind the root. So a `..` has only `..`
in front, and the root has nothing. -/
theorem normal_append_cases {front behind : List Component} (h : IsNormal (front ++ behind)) :
    (∃ names : List (List UInt8), behind = names.map .name) ∨
    ((∀ x ∈ front, x = .up) ∧ ∃ rest, behind = .up :: rest) ∨
    (front = [] ∧ .root ∈ behind) := by
  obtain ⟨names, -, hroot | ⟨ups, hups⟩⟩ := h
  · cases front with
    | nil =>
      refine Or.inr (Or.inr ⟨rfl, ?_⟩)
      rw [List.nil_append] at hroot
      simp [hroot]
    | cons x front =>
      obtain ⟨-, hnames⟩ := List.cons.inj hroot
      obtain ⟨-, names', -, -, hbehind⟩ := List.append_eq_map_iff.mp hnames
      exact Or.inl ⟨names', hbehind.symm⟩
  · rcases List.append_eq_append_iff.mp hups with ⟨more, hmore, hbehind⟩ | ⟨more, -, hnames⟩
    · cases more with
      | nil => exact Or.inl ⟨names, hbehind⟩
      | cons x more =>
        -- The front and what comes next are part of the run of `..`.
        have hmem : ∀ y ∈ front ++ x :: more, y = .up :=
          fun y hy => List.eq_of_mem_replicate (hmore ▸ hy)
        refine Or.inr (Or.inl ⟨fun y hy => hmem y (by simp [hy]), more ++ names.map .name, ?_⟩)
        rw [hbehind, hmem x (by simp), List.cons_append]
    · obtain ⟨-, names', -, -, hbehind⟩ := List.map_eq_append_iff.mp hnames
      exact Or.inl ⟨names', hbehind.symm⟩

/-- Only an upward root can be left by climbing on behind it. -/
theorem isUpward_of_climbsOut {root q : Path} (h : ClimbsOut root q) : IsUpward root := by
  obtain ⟨rest, hrest⟩ := h
  have hnormal := isNormal_normalComponents q
  rw [hrest] at hnormal
  rcases normal_append_cases hnormal with ⟨names, hnames⟩ | ⟨hups, -⟩ | ⟨hnil, -⟩
  · cases names <;> simp at hnames
  · exact hups
  · intro x hx
    rw [hnil] at hx
    cases hx

section References

variable {w : Workspace} {extensions : List String} {root dir : Path} {source : List Char}

/-- The variants of the references in a relative root are relative. -/
theorem isAbsolute_of_reference (hroot : root.isAbsolute = false) (hdir : dir.isAbsolute = false)
    {r : Reference} (hr : r ∈ references extensions root dir source) {q : Path}
    (hq : q ∈ r.candidates) : q.isAbsolute = false := by
  obtain ⟨s, hs, rfl⟩ := mem_references_iff.mp hr
  have hspecifier := isAbsolute_specifier hs
  by_cases hempty : baseComponents root dir (Path.ofChars s) = []
  · have hindex := mem_candidatePaths_iff.mp hq
    rw [if_pos hempty] at hindex
    obtain ⟨e, -, rfl⟩ := hindex
    exact isAbsolute_indexFile e
  · refine (isAbsolute_candidate hempty (root_notMem_normalComponents_iff.mpr ?_) hq).1
    rw [isAbsolute_join _ _ hspecifier, isAbsolute_join _ _ hdir, hroot]

/-- What the normal form of a variant has behind that of the root. -/
theorem liesIn_or_climbsOut (hdir : dir.isAbsolute = false) {r : Reference}
    (hr : r ∈ references extensions root dir source) {q : Path} (hq : q ∈ r.candidates)
    {cs : List Component} (hcs : q.normalComponents = root.normalComponents ++ cs) :
    (∃ names : List (List UInt8), cs = names.map .name) ∨ ∃ rest, cs = .up :: rest := by
  have hnormal := isNormal_normalComponents q
  rw [hcs] at hnormal
  rcases normal_append_cases hnormal with hnames | ⟨-, hup⟩ | ⟨hnil, hmem⟩
  · exact Or.inl hnames
  · exact Or.inr hup
  · -- A root without components is relative, and so would be the variant.
    have hroot : root.isAbsolute = false := root_notMem_normalComponents_iff.mp (by simp [hnil])
    have hrelative := isAbsolute_of_reference hroot hdir hr hq
    rw [← root_notMem_normalComponents_iff, hcs] at hrelative
    exact absurd (List.mem_append_right _ hmem) hrelative

/-- A variant that exists is kept as a target exactly if it lies in the root or goes on with `..`
behind it. -/
theorem isTarget_iff (hdir : dir.isAbsolute = false) {r : Reference}
    (hr : r ∈ references extensions root dir source) {q : Path} (hq : q ∈ r.existing w) :
    IsTarget (resolve w root (references extensions root dir source)).resolved root q ↔
      LiesIn root q ∨ ClimbsOut root q := by
  obtain ⟨hcandidate, hexists⟩ := List.mem_filter.mp hq
  constructor
  · rintro ⟨p, -, hcs⟩
    exact (liesIn_or_climbsOut hdir hr hcandidate hcs).imp
      (fun ⟨names, hnames⟩ => ⟨names, hnames ▸ hcs⟩) fun ⟨rest, hrest⟩ => ⟨rest, hrest ▸ hcs⟩
  · intro h
    obtain ⟨cs, hcs⟩ : ∃ cs, q.normalComponents = root.normalComponents ++ cs :=
      h.elim (fun ⟨_, hnames⟩ => ⟨_, hnames⟩) fun ⟨_, hrest⟩ => ⟨_, hrest⟩
    obtain ⟨p, hp, rfl⟩ := mem_resolved_iff.mpr ⟨r, hr, q, hcandidate, hexists, hcs⟩
    exact ⟨p, hp, hcs⟩

/-- The targets are made of names as long as no variant that exists climbs out of the root. -/
theorem isName_of_resolved_iff (hdir : dir.isAbsolute = false) :
    (∀ p ∈ (resolve w root (references extensions root dir source)).resolved,
        ∀ x ∈ p.components, x.isName = true) ↔
      ∀ r ∈ references extensions root dir source, ∀ q ∈ r.existing w, ¬ClimbsOut root q := by
  constructor
  · rintro h r hr q hq ⟨rest, hrest⟩
    obtain ⟨hcandidate, hexists⟩ := List.mem_filter.mp hq
    obtain ⟨p, hp, hcs⟩ := mem_resolved_iff.mpr ⟨r, hr, q, hcandidate, hexists, hrest⟩
    have hname := h p hp .up (by simp [hcs])
    cases hname
  · intro h p hp x hx
    obtain ⟨r, hr, q, hcandidate, hexists, hcs⟩ := mem_resolved_iff.mp ⟨p, hp, rfl⟩
    rcases liesIn_or_climbsOut hdir hr hcandidate hcs with ⟨names, hnames⟩ | ⟨rest, hrest⟩
    · obtain ⟨name, -, rfl⟩ := List.mem_map.mp (hnames ▸ hx)
      rfl
    · exact absurd ⟨rest, hrest ▸ hcs⟩ (h r hr q (List.mem_filter.mpr ⟨hcandidate, hexists⟩))

end References

/-- Where the targets of a file lie, for a directory that is made of names.

1. Unless the root is the current directory or one above it, the targets are made of names,
   and the variants that exist are targets exactly if they lie in the root. What lies outside
   is dropped.
2. Otherwise a variant that exists and climbs out of the root is a target too, and it begins
   with `..` there. The targets are made of names exactly if there is no such variant. -/
theorem resolved_inside_iff (w : Workspace) (c : Config) (root : Path) {dir : Path}
    (hdir : ∀ x ∈ dir.components, x.isName = true) (source : List Char) :
    let refs := references c.extensions root dir source
    let targets := (resolve w root refs).resolved
    (¬IsUpward root →
      (∀ p ∈ targets, ∀ x ∈ p.components, x.isName = true) ∧
      ∀ r ∈ refs, ∀ q ∈ r.existing w, (IsTarget targets root q ↔ LiesIn root q)) ∧
    (IsUpward root →
      ((∀ p ∈ targets, ∀ x ∈ p.components, x.isName = true) ↔
        ∀ r ∈ refs, ∀ q ∈ r.existing w, ¬ClimbsOut root q) ∧
      ∀ r ∈ refs, ∀ q ∈ r.existing w,
        (IsTarget targets root q ↔ LiesIn root q ∨ ClimbsOut root q)) := by
  intro refs targets
  have hrelative : dir.isAbsolute = false := root_notMem_normalComponents_iff.mp fun hmem => by
    cases hdir .root (mem_normalComponents hmem)
  refine ⟨fun hroot => ?_, fun _ => ⟨isName_of_resolved_iff hrelative,
    fun r hr q hq => isTarget_iff hrelative hr hq⟩⟩
  have hstay : ∀ q, ¬ClimbsOut root q := fun q hclimbs => hroot (isUpward_of_climbsOut hclimbs)
  refine ⟨(isName_of_resolved_iff hrelative).mpr fun _ _ q _ => hstay q, fun r hr q hq => ?_⟩
  rw [isTarget_iff hrelative hr hq, or_iff_left (hstay q)]

/-- A page in a directory of `app`, a file of `app`, and a file outside. -/
def neighbourTree : FileTree :=
  (Workspace.ofFiles [("app/pages/a.ts", ""), ("app/lib.ts", ""), ("x.ts", "")]).tree

/-- An import that leaves `app` and comes back, and one that leaves it for good. -/
def leavingText : List Char :=
  "import '../../app/lib'\nimport '../../x'".toList

/-- From the directory around `app`, the file outside is dropped. -/
theorem resolved_inside_iff_neighbourTree :
    let w : Workspace := ⟨neighbourTree, []⟩
    let root := Path.ofString "app"
    let targets := (resolve w root
      (references ({} : Config).extensions root (Path.ofString "pages") leavingText)).resolved
    (∀ x ∈ (Path.ofString "pages").components, x.isName = true) ∧
      (∀ p ∈ targets, ∀ x ∈ p.components, x.isName = true) ∧
      w.pathExists (Path.ofString "x.ts") = true ∧ targets = [Path.ofString "lib.ts"] := by
  intro w root targets
  have hdir : ∀ x ∈ (Path.ofString "pages").components, x.isName = true := by decide +kernel
  have hroot : ¬IsUpward root := by decide +kernel
  have hnames := ((resolved_inside_iff w {} root hdir leavingText).1 hroot).1
  exact ⟨hdir, hnames, by decide +kernel, by decide +kernel⟩

/-- From inside `app`, which is called `.` there, the file outside is a target. -/
theorem resolved_climbing :
    let w : Workspace := ⟨neighbourTree, Location.ofString "app"⟩
    let targets := (resolve w here
      (references ({} : Config).extensions here (Path.ofString "pages")
        "import '../../x'".toList)).resolved
    (∀ x ∈ (Path.ofString "pages").components, x.isName = true) ∧
      targets = [Path.ofString "../x.ts"] ∧
      ¬∀ p ∈ targets, ∀ x ∈ p.components, x.isName = true := by
  intro w targets
  have htargets : targets = [Path.ofString "../x.ts"] := by decide +kernel
  refine ⟨by decide +kernel, htargets, ?_⟩
  rw [htargets]
  decide +kernel

end Unimported
