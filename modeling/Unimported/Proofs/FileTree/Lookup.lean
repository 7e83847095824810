import Mathlib.Data.List.Basic
import Unimported.FileTree.Workspace
import Unimported.Proofs.Path.Components

/-!
# `Unimported.Proofs.FileTree.Lookup`: where a lookup ends

What can be said about a lookup without knowing the tree. The statements:

* `mem_list_iff`: a directory lists what stands directly below it.
* `length_le_depth`: no entry is deeper in a tree than its depth.
* `lookupFrom_eq_ok_iff`: a lookup ends at a place exactly if it comes to it, link by link.
* `lookupFrom_append`: a lookup goes on from where its first steps have led, links
  and all.
* `lookupFrom_front`: a lookup that goes on has come to a directory.
* `entryAt_of_stat`: the entry that a path names stands in the tree.
* `readText_eq_ok_iff`: when a path names a text.
* `stat_join_of_advance`: a path behind a directory leads on from there, as long as it is
  short enough; `stat_join` says this of one entry in the directory.
-/

set_option autoImplicit false

namespace Unimported

namespace Name

/-- The bytes of a name make this name. -/
theorem ofBytes?_bytes (n : Name) : Name.ofBytes? n.bytes = some n := by
  rw [ofBytes?, dif_pos n.isEntryName]

/-- A name has no slash. -/
theorem slash_notMem (n : Name) : Path.slash ∉ n.bytes := by
  have h := n.isEntryName
  simp only [Unimported.isEntryName, Bool.and_eq_true, List.all_eq_true, decide_eq_true_eq] at h
  intro hmem
  exact (h.2 _ hmem).1 rfl

/-- A name is none of the segments that lead nowhere or up. -/
theorem ne_idle (n : Name) : ¬(n.bytes = [] ∨ n.bytes = [Path.dot]) ∧
    n.bytes ≠ [Path.dot, Path.dot] := by
  have h := n.isEntryName
  simp only [Unimported.isEntryName, Bool.and_eq_true, decide_eq_true_eq] at h
  exact ⟨not_or.mpr ⟨h.1.1.1.1, h.1.1.1.2⟩, h.1.1.2⟩

/-- A name has no zero byte. -/
theorem zero_notMem (n : Name) : (0 : UInt8) ∉ n.bytes := by
  have h := n.isEntryName
  simp only [Unimported.isEntryName, Bool.and_eq_true, List.all_eq_true, decide_eq_true_eq] at h
  intro hmem
  exact (h.2 _ hmem).2 rfl

/-- The path of a name is one step into it. -/
theorem steps_path (n : Name) : n.path.steps = [.into n.bytes] := by
  have hidle := n.ne_idle
  rw [Path.steps, Path.segments, Name.path, List.splitOn_eq_singleton n.slash_notMem]
  simp [hidle.1, hidle.2]

end Name

namespace FileTree

/-! ### Entries -/

/-- Above an entry there is a directory. -/
theorem entryAt_above {t : FileTree} {name : Name} {loc : Location} {e : Entry}
    (h : t.entryAt (name :: loc) = some e) : t.entryAt loc = some .directory := by
  rw [entryAt] at h
  split at h
  · assumption
  · cases h

/-- Anywhere above an entry there is a directory. -/
theorem entryAt_of_append {t : FileTree} {name : Name} {below loc : Location} {e : Entry}
    (h : t.entryAt (name :: (below ++ loc)) = some e) : t.entryAt loc = some .directory := by
  induction below generalizing name e with
  | nil => exact entryAt_above h
  | cons n below ih => exact ih (entryAt_above h)

/-- Around everything in a tree there is something. -/
theorem exists_entryAt_of_append {t : FileTree} {below loc : Location} {e : Entry}
    (h : t.entryAt (below ++ loc) = some e) : ∃ around, t.entryAt loc = some around := by
  cases below with
  | nil => exact ⟨e, h⟩
  | cons name below => exact ⟨.directory, entryAt_of_append h⟩

/-- What is at a location stands in its row. -/
theorem table_of_entryAt {t : FileTree} {name : Name} {loc : Location} {e : Entry}
    (h : t.entryAt (name :: loc) = some e) : t.table[name :: loc]? = some e := by
  rw [entryAt, entryAt_above h] at h
  exact h

/-- The location of everything in a tree is a key of the table. -/
theorem mem_keys_of_entryAt {t : FileTree} {name : Name} {loc : Location} {e : Entry}
    (h : t.entryAt (name :: loc) = some e) : name :: loc ∈ t.table.keys := by
  rw [Std.TreeMap.mem_keys, Std.TreeMap.mem_iff_isSome_getElem?, table_of_entryAt h]
  rfl

/-- The names in a directory are those at which there is something. -/
theorem mem_namesIn_iff {t : FileTree} {loc : Location} {name : Name} :
    name ∈ t.namesIn loc ↔ ∃ e, t.entryAt (name :: loc) = some e := by
  unfold namesIn
  rw [List.mem_filterMap]
  constructor
  · rintro ⟨l, -, hl⟩
    cases l with
    | nil => cases hl
    | cons n above =>
      simp only [Option.ite_none_right_eq_some, Option.some.injEq] at hl
      obtain ⟨⟨rfl, hsome⟩, rfl⟩ := hl
      exact Option.isSome_iff_exists.mp hsome
  · rintro ⟨e, he⟩
    exact ⟨name :: loc, mem_keys_of_entryAt he, by simp [he]⟩

/-- The greatest length is an upper bound, for what is counted and for where the count starts. -/
theorem length_le_foldl_max (keys : List Location) (d : Nat) :
    d ≤ keys.foldl (fun d l => max d l.length) d ∧
      ∀ l ∈ keys, l.length ≤ keys.foldl (fun d l => max d l.length) d := by
  induction keys generalizing d with
  | nil => simp
  | cons k keys ih =>
    obtain ⟨hstart, hrest⟩ := ih (max d k.length)
    rw [List.foldl_cons]
    refine ⟨by omega, fun l hl => ?_⟩
    rcases List.mem_cons.mp hl with rfl | hl
    · omega
    · exact hrest l hl

/-- No entry is deeper in a tree than its depth. -/
theorem length_le_depth {t : FileTree} {loc : Location} {e : Entry}
    (h : t.entryAt loc = some e) : loc.length ≤ t.depth := by
  cases loc with
  | nil => exact Nat.zero_le _
  | cons name above =>
    show (name :: above).length ≤ t.table.keys.foldl (fun d l => max d l.length) 0
    exact (length_le_foldl_max t.table.keys 0).2 _ (mem_keys_of_entryAt h)

/-! ### Links on the way -/

/-- How a lookup that may follow some links comes to a place: its steps end there, or they meet a
link, and the lookup comes there from the target of this one. -/
inductive ComesTo (t : FileTree) (place : Place) : Nat → Location → List PathStep → Prop where
  /-- The steps end at the place. -/
  | ended {links : Nat} {loc : Location} {steps : List PathStep}
      (h : t.advance loc steps = .ended place) : ComesTo t place links loc steps
  /-- The steps meet a link, and what is left of them comes behind those of its target. -/
  | link {links : Nat} {loc dir : Location} {target : Path} {steps rest : List PathStep}
      (h : t.advance loc steps = .link dir target rest) (htarget : target ≠ Path.empty)
      (hcomes : ComesTo t place links (target.startFrom dir) (target.steps ++ rest)) :
      ComesTo t place (links + 1) loc steps

/-- A lookup ends where its steps end. -/
theorem lookupFrom_of_ended {t : FileTree} {links : Nat} {loc : Location} {place : Place}
    {steps : List PathStep} (h : t.advance loc steps = .ended place) :
    t.lookupFrom links loc steps = .ok place := by
  rw [lookupFrom, h]

/-- A lookup whose steps meet a link goes on from the target. -/
theorem lookupFrom_of_link {t : FileTree} {links : Nat} {loc dir : Location} {target : Path}
    {steps rest : List PathStep} (h : t.advance loc steps = .link dir target rest)
    (htarget : target ≠ Path.empty) : t.lookupFrom (links + 1) loc steps
      = t.lookupFrom links (target.startFrom dir) (target.steps ++ rest) := by
  rw [lookupFrom, h]
  exact if_neg htarget

/-- A lookup ends at a place exactly if it comes to it. -/
theorem lookupFrom_eq_ok_iff {t : FileTree} {links : Nat} {loc : Location} {place : Place}
    {steps : List PathStep} :
    t.lookupFrom links loc steps = .ok place ↔ ComesTo t place links loc steps := by
  constructor
  · intro h
    induction links generalizing loc steps with
    | zero =>
      rw [lookupFrom] at h
      split at h
      · rename_i hadvance
        cases h
        exact .ended hadvance
      · cases h
      · cases h
    | succ links ih =>
      rw [lookupFrom] at h
      split at h
      · rename_i hadvance
        cases h
        exact .ended hadvance
      · cases h
      · rename_i hadvance
        simp only at h
        split at h
        · cases h
        · exact .link hadvance ‹_› (ih h)
  · intro h
    induction h with
    | ended h => exact lookupFrom_of_ended h
    | link h htarget _ ih => exact (lookupFrom_of_link h htarget).trans ih

/-! ### Going on with a lookup -/

/-- Further steps go on where the first ones have led, be it to an entry or to a link
that has to be followed before. -/
theorem advance_append {t : FileTree} {loc : Location} {steps more : List PathStep} :
    (∀ {l : Location} {e : Entry}, t.advance loc steps = .ended (.found l e) →
      t.advance loc (steps ++ more) = t.advance l more) ∧
    (∀ {dir : Location} {target : Path} {rest : List PathStep},
      t.advance loc steps = .link dir target rest →
      t.advance loc (steps ++ more) = .link dir target (rest ++ more)) := by
  induction steps generalizing loc with
  | nil =>
    constructor
    · intro l e h
      rw [advance] at h
      split at h <;> cases h
      rfl
    · intro dir target rest h
      -- Without a step there is no link to follow.
      rw [advance] at h
      split at h <;> cases h
  | cons step steps ih =>
    rw [List.cons_append]
    simp only [advance]
    split
    · cases step with
      | stay => exact ih
      | up => exact ih
      | into bytes =>
        simp only
        split
        · simp
        · split
          · -- The last name is missing: the lookup ends, but not at an entry.
            constructor
            · intro l e h
              split at h <;> cases h
            · intro dir target rest h
              split at h <;> cases h
          · simp
          · exact ih
    · simp
    · simp

/-- A lookup goes on from the place to which its first steps have led. It may follow
fewer links then. -/
theorem lookupFrom_append {t : FileTree} (links : Nat) {loc l : Location} {e : Entry}
    {steps : List PathStep} (h : t.lookupFrom links loc steps = .ok (.found l e)) :
    ∃ left, ∀ more, t.lookupFrom links loc (steps ++ more) = t.lookupFrom left l more := by
  rw [lookupFrom_eq_ok_iff] at h
  induction h with
  | @ended links _ _ hended =>
    refine ⟨links, fun more => ?_⟩
    rw [lookupFrom, lookupFrom, advance_append.1 hended]
  | link hlink htarget _ ih =>
    -- The steps that are left behind a link come after those of its target.
    obtain ⟨left, hleft⟩ := ih
    refine ⟨left, fun more => ?_⟩
    rw [lookupFrom_of_link (advance_append.2 hlink) htarget, ← List.append_assoc, hleft]

/-- Steps that go on have come to a directory, or to a link that has to be followed
before. -/
theorem advance_front {t : FileTree} {loc : Location} {steps more : List PathStep}
    (hmore : more ≠ []) :
    (∀ {place : Place}, t.advance loc (steps ++ more) = .ended place →
      ∃ l, t.advance loc steps = .ended (.found l .directory)) ∧
    (∀ {dir : Location} {target : Path} {rest : List PathStep},
      t.advance loc (steps ++ more) = .link dir target rest →
      (∃ l, t.advance loc steps = .ended (.found l .directory)) ∨
        ∃ left, rest = left ++ more ∧ t.advance loc steps = .link dir target left) := by
  induction steps generalizing loc with
  | nil =>
    obtain ⟨step, more, rfl⟩ := List.exists_cons_of_ne_nil hmore
    have hdirectory : t.entryAt loc = some .directory →
        t.advance loc [] = .ended (.found loc .directory) := by
      intro hloc
      simp only [advance, hloc]
    rw [List.nil_append]
    constructor
    · intro place h
      simp only [advance] at h
      split at h
      · exact ⟨loc, hdirectory ‹_›⟩
      · cases h
      · cases h
    · intro dir target rest h
      simp only [advance] at h
      split at h
      · exact Or.inl ⟨loc, hdirectory ‹_›⟩
      · cases h
      · cases h
  | cons step steps ih =>
    rw [List.cons_append]
    simp only [advance]
    split
    · cases step with
      | stay => exact ih
      | up => exact ih
      | into bytes =>
        simp only
        split
        · simp
        · split
          · -- A name that is missing can only be the last one.
            rw [if_neg (by simp [hmore])]
            simp
          · constructor
            · intro place h
              cases h
            · intro dir target rest h
              cases h
              exact Or.inr ⟨steps, rfl, rfl⟩
          · exact ih
    · simp
    · simp

/-- A lookup that goes on has come to a directory. -/
theorem lookupFrom_front {t : FileTree} (links : Nat) {loc : Location} {place : Place}
    {steps more : List PathStep} (hmore : more ≠ [])
    (h : t.lookupFrom links loc (steps ++ more) = .ok place) :
    ∃ l, t.lookupFrom links loc steps = .ok (.found l .directory) := by
  rw [lookupFrom_eq_ok_iff] at h
  generalize hall : steps ++ more = all at h
  induction h generalizing steps with
  | ended hended =>
    subst hall
    obtain ⟨l, hl⟩ := (advance_front hmore).1 hended
    exact ⟨l, lookupFrom_of_ended hl⟩
  | link hlink htarget _ ih =>
    subst hall
    rcases (advance_front hmore).2 hlink with ⟨l, hl⟩ | ⟨left, rfl, hleft⟩
    · exact ⟨l, lookupFrom_of_ended hl⟩
    · -- The first steps meet the same link, with fewer steps behind it.
      obtain ⟨l, hl⟩ := ih (List.append_assoc ..)
      exact ⟨l, (lookupFrom_of_link hleft htarget).trans hl⟩

/-- A step that stays where it is can be left out at the end. -/
theorem advance_stay {t : FileTree} {loc : Location} {steps : List PathStep} :
    (∀ {l : Location} {e : Entry}, t.advance loc (steps ++ [.stay]) = .ended (.found l e) →
      t.advance loc steps = .ended (.found l e)) ∧
    (∀ {dir : Location} {target : Path} {rest : List PathStep},
      t.advance loc (steps ++ [.stay]) = .link dir target rest →
      ∃ rest', rest = rest' ++ [.stay] ∧ t.advance loc steps = .link dir target rest') := by
  induction steps generalizing loc with
  | nil =>
    -- From anything but a directory a step that stays leads nowhere.
    constructor
    · intro l e h
      simp only [List.nil_append, advance] at h ⊢
      split at h <;> simp_all
    · intro dir target rest h
      simp only [List.nil_append, advance] at h
      split at h
      · split at h <;> cases h
      · cases h
      · cases h
  | cons step steps ih =>
    rw [List.cons_append]
    simp only [advance]
    split
    · cases step with
      | stay => exact ih
      | up => exact ih
      | into bytes =>
        simp only
        split
        · simp
        · split
          · simp
          · constructor
            · simp
            · intro dir target rest h
              cases h
              exact ⟨steps, rfl, rfl⟩
          · exact ih
    · simp
    · simp

/-- A slash at the end of a path asks for a directory and leads nowhere else. -/
theorem lookupFrom_stay {t : FileTree} (links : Nat) {loc l : Location} {e : Entry}
    {steps : List PathStep} (h : t.lookupFrom links loc (steps ++ [.stay]) = .ok (.found l e)) :
    t.lookupFrom links loc steps = .ok (.found l e) := by
  rw [lookupFrom_eq_ok_iff] at h
  generalize hall : steps ++ [.stay] = all at h
  induction h generalizing steps with
  | ended hended =>
    subst hall
    exact lookupFrom_of_ended (advance_stay.1 hended)
  | link hlink htarget _ ih =>
    subst hall
    obtain ⟨left, rfl, hleft⟩ := advance_stay.2 hlink
    exact (lookupFrom_of_link hleft htarget).trans
      (ih (List.append_assoc ..))

/-- What a lookup finds stands where it says. -/
theorem entryAt_of_advance {t : FileTree} {loc l : Location} {e : Entry}
    {steps : List PathStep} (h : t.advance loc steps = .ended (.found l e)) :
    t.entryAt l = some e := by
  induction steps generalizing loc with
  | nil =>
    rw [advance] at h
    split at h
    · rename_i entry hentry
      cases h
      exact hentry
    · cases h
  | cons step steps ih =>
    simp only [advance] at h
    split at h
    · cases step with
      | stay => exact ih h
      | up => exact ih h
      | into bytes =>
        simp only at h
        split at h
        · cases h
        · split at h
          · split at h <;> cases h
          · cases h
          · exact ih h
    · cases h
    · cases h

/-- What a lookup finds is in the tree. -/
theorem entryAt_of_lookupFrom {t : FileTree} (links : Nat) {loc l : Location} {e : Entry}
    {steps : List PathStep} (h : t.lookupFrom links loc steps = .ok (.found l e)) :
    t.entryAt l = some e := by
  rw [lookupFrom_eq_ok_iff] at h
  induction h with
  | ended hended => exact entryAt_of_advance hended
  | link _ _ _ ih => exact ih

end FileTree

/-! ### What a workspace says about a path -/

namespace Workspace

/-- A directory lists what is in the tree right below it. -/
theorem mem_list_iff {w : Workspace} {p : Path} {name : Name} {e : Entry} :
    (name, e) ∈ w.list p ↔
      ∃ loc, w.stat p = .ok (loc, .directory) ∧ w.tree.entryAt (name :: loc) = some e := by
  unfold list
  split
  · rename_i loc hstat
    rw [List.mem_filterMap]
    constructor
    · rintro ⟨n, -, hn⟩
      obtain ⟨e', he', heq⟩ := Option.map_eq_some_iff.mp hn
      cases heq
      exact ⟨loc, hstat, he'⟩
    · rintro ⟨loc', hstat', he⟩
      rw [hstat] at hstat'
      cases hstat'
      exact ⟨name, FileTree.mem_namesIn_iff.mpr ⟨e, he⟩, by simp [he]⟩
  · rename_i hstat
    simp only [List.not_mem_nil, false_iff]
    rintro ⟨loc, hloc, -⟩
    exact hstat loc hloc

/-- What a directory holds stands below its location. -/
theorem mem_list_iff_entryAt {w : Workspace} {p : Path} {loc : Location} {name : Name}
    {e : Entry} (h : w.stat p = .ok (loc, .directory)) :
    (name, e) ∈ w.list p ↔ w.tree.entryAt (name :: loc) = some e := by
  rw [mem_list_iff, h]
  constructor
  · rintro ⟨l, hl, he⟩
    cases hl
    exact he
  · intro he
    exact ⟨loc, rfl, he⟩

/-- A path is that of a directory if it names one, links followed. -/
theorem isDir_iff {w : Workspace} {p : Path} :
    w.isDir p = true ↔ ∃ loc, w.stat p = .ok (loc, .directory) := by
  unfold isDir
  split
  · rename_i loc hstat
    simp [hstat]
  · rename_i hstat
    simp only [Bool.false_eq_true, false_iff]
    rintro ⟨loc, hloc⟩
    exact hstat loc hloc

/-- A path is that of a file if it names one, links followed. -/
theorem isFile_iff {w : Workspace} {p : Path} :
    w.isFile p = true ↔ ∃ loc contents, w.stat p = .ok (loc, .file contents) := by
  unfold isFile
  split
  · rename_i loc contents hstat
    simp [hstat]
  · rename_i hstat
    simp only [Bool.false_eq_true, false_iff]
    rintro ⟨loc, contents, hfile⟩
    exact hstat loc contents hfile

/-- A path that is not that of a directory names none. -/
theorem stat_ne_directory {w : Workspace} {p : Path} {loc : Location} (h : w.isDir p = false) :
    w.stat p ≠ .ok (loc, .directory) := by
  intro hstat
  rw [isDir_iff.mpr ⟨loc, hstat⟩] at h
  cases h

/-- A path exists if it names something. -/
theorem pathExists_iff {w : Workspace} {p : Path} :
    w.pathExists p = true ↔ ∃ loc e, w.stat p = .ok (loc, e) := by
  unfold pathExists
  split
  · rename_i r hstat
    simp only [true_iff]
    exact ⟨r.1, r.2, hstat⟩
  · rename_i e hstat
    simp [hstat]

/-- A path names what its lookup finds. -/
theorem stat_eq_ok_iff {w : Workspace} {p : Path} {loc : Location} {e : Entry} :
    w.stat p = .ok (loc, e) ↔ w.locate p = .ok (.found loc e) := by
  unfold stat
  split <;> simp_all

/-- A path that is found is neither empty nor too long, and has no zero byte. -/
theorem locate_eq_ok_iff {w : Workspace} {p : Path} {place : Place} :
    w.locate p = .ok place ↔
      (0 : UInt8) ∉ p.bytes ∧ p.bytes.length < pathLimit ∧ p ≠ Path.empty ∧
        w.tree.lookupFrom mostLinks (p.startFrom w.current) p.steps = .ok place := by
  unfold locate FileTree.locate
  split
  · rename_i hzero
    simp only [List.contains_iff_mem] at hzero
    simp [hzero]
  · rename_i hzero
    simp only [List.contains_iff_mem] at hzero
    split
    · rename_i hlimit
      simp [Nat.not_lt.mpr hlimit]
    · rename_i hlimit
      split
      · simp_all
      · rename_i hempty
        simp [hzero, Nat.not_le.mp hlimit, hempty]

/-- The entry that a path names stands in the tree. -/
theorem entryAt_of_stat {w : Workspace} {p : Path} {loc : Location} {e : Entry}
    (h : w.stat p = .ok (loc, e)) : w.tree.entryAt loc = some e :=
  FileTree.entryAt_of_lookupFrom _ (locate_eq_ok_iff.mp (stat_eq_ok_iff.mp h)).2.2.2

/-- Reading depends on nothing but the entry that a path names. -/
theorem readText_congr {w w' : Workspace} {p p' : Path} (h : w'.stat p' = w.stat p) :
    w'.readText p' = w.readText p := by
  simp only [readText, read, h]

/-- A path names a text if it leads to a file whose contents are one. -/
theorem readText_eq_ok_iff {w : Workspace} {p : Path} {text : List Char} :
    w.readText p = .ok text ↔ ∃ loc contents, w.stat p = .ok (loc, .file contents) ∧
      Utf8.decode contents = some text := by
  unfold readText read
  cases hstat : w.stat p with
  | error e => simp
  | ok r =>
    obtain ⟨loc, entry⟩ := r
    cases entry with
    | directory => simp
    | link target => simp
    | file contents => cases hdecode : Utf8.decode contents <;> simp [hdecode]

/-- A path that is too long fails in every tree alike. -/
theorem stat_of_pathLimit_le {w : Workspace} {p : Path} (h : pathLimit ≤ p.bytes.length) :
    w.stat p = .error (if p.bytes.contains 0 then .zeroByte else .nameTooLong) := by
  by_cases hzero : (0 : UInt8) ∈ p.bytes <;> simp [stat, locate, FileTree.locate, hzero, h]

/-! ### Paths of entries -/

/-- The steps of a path are cut at a slash. -/
theorem steps_of_bytes_append {p : Path} {front back : List UInt8}
    (h : p.bytes = front ++ Path.slash :: back) :
    p.steps = (⟨front⟩ : Path).steps ++ (⟨back⟩ : Path).steps := by
  simp [Path.steps, Path.segments, h, List.splitOn_append_cons_self]

/-- The path of a name is relative. -/
theorem isAbsolute_path (n : Name) : n.path.isAbsolute = false := by
  have hslash := n.slash_notMem
  by_contra habs
  obtain ⟨rest, hrest⟩ := Path.isAbsolute_iff.mp (by simpa using habs)
  have hbytes : n.bytes = Path.slash :: rest := hrest
  simp [hbytes] at hslash

/-- Joining brings in no byte but the slash between. -/
theorem mem_bytes_join {p q : Path} {b : UInt8} (h : b ∈ (p.join q).bytes) :
    b ∈ p.bytes ∨ b = Path.slash ∨ b ∈ q.bytes := by
  unfold Path.join at h
  split at h
  · exact Or.inr (Or.inr h)
  · split at h
    · rcases List.mem_append.mp h with h | h
      · exact Or.inl h
      · exact Or.inr (Or.inr h)
    · rcases List.mem_append.mp h with h | h
      · exact Or.inl h
      · exact Or.inr (List.mem_cons.mp h)

/-- A path behind a directory leads where it leads from there, as long as nothing on
the way is a link. -/
theorem stat_join_of_advance {w : Workspace} {dir p : Path} {loc l : Location} {e : Entry}
    (hdir : w.stat dir = .ok (loc, .directory)) (habs : p.isAbsolute = false)
    (hzero : (0 : UInt8) ∉ p.bytes)
    (hadvance : w.tree.advance loc p.steps = .ended (.found l e))
    (hlimit : (dir.join p).bytes.length < pathLimit) : w.stat (dir.join p) = .ok (l, e) := by
  obtain ⟨hdirZero, -, hdirEmpty, hlookup⟩ := locate_eq_ok_iff.mp (stat_eq_ok_iff.mp hdir)
  have hjoin := Path.join_cases dir p habs
  have hnotNil : dir.bytes ≠ [] := by
    intro hbytes
    cases dir
    simp_all [Path.empty]
  -- The lookup of the joined path passes `loc`; a slash at the end of `dir` is no step.
  obtain ⟨left, hleft⟩ : ∃ left, w.tree.lookupFrom mostLinks (dir.startFrom w.current)
      (dir.join p).steps = w.tree.lookupFrom left loc p.steps := by
    rcases hjoin with ⟨hbytes, -⟩ | ⟨above, hbytes, hjoin⟩ | ⟨-, hjoin⟩
    · exact absurd hbytes hnotNil
    · rw [steps_of_bytes_append hbytes] at hlookup
      obtain ⟨left, hleft⟩ := FileTree.lookupFrom_append _ (FileTree.lookupFrom_stay _ hlookup)
      exact ⟨left, by rw [steps_of_bytes_append hjoin, hleft]⟩
    · obtain ⟨left, hleft⟩ := FileTree.lookupFrom_append _ hlookup
      exact ⟨left, by rw [steps_of_bytes_append hjoin, hleft]⟩
  rw [stat_eq_ok_iff, locate_eq_ok_iff]
  refine ⟨?_, hlimit, ?_, ?_⟩
  · intro hmem
    rcases mem_bytes_join hmem with h | h | h
    · exact hdirZero h
    · cases h
    · exact hzero h
  · intro heq
    rcases hjoin with ⟨hbytes, -⟩ | ⟨above, -, hjoin⟩ | ⟨-, hjoin⟩
    · exact hnotNil hbytes
    · simp [heq, Path.empty] at hjoin
    · simp [heq, Path.empty] at hjoin
  · have hstart : (dir.join p).startFrom w.current = dir.startFrom w.current := by
      rw [Path.startFrom, Path.startFrom, Path.isAbsolute_join dir p habs]
    rw [hstart, hleft]
    cases left <;> simp [FileTree.lookupFrom, hadvance]

/-- The path of an entry in a directory leads to this entry. -/
theorem stat_join {w : Workspace} {dir : Path} {loc : Location} {n : Name} {e : Entry}
    (hdir : w.stat dir = .ok (loc, .directory)) (he : w.tree.entryAt (n :: loc) = some e)
    (hlink : ∀ target, e ≠ .link target) (hlimit : (dir.join n.path).bytes.length < pathLimit) :
    w.stat (dir.join n.path) = .ok (n :: loc, e) := by
  have hadvance : w.tree.advance loc n.path.steps = .ended (.found (n :: loc) e) := by
    rw [n.steps_path]
    simp only [FileTree.advance, FileTree.entryAt_above he, n.ofBytes?_bytes, he]
  exact stat_join_of_advance hdir (isAbsolute_path n) n.zero_notMem hadvance hlimit

end Workspace

end Unimported
