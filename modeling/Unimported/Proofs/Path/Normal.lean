import Mathlib.Data.List.Basic
import Mathlib.Data.List.Induction
import Unimported.Proofs.Path.Components

/-!
# `Unimported.Proofs.Path.Normal`: lexical normal forms

What `Path.normalize` gives, and why it may be applied to the parts of a path. The
statements:

* `isNormal_normalComponents`: a normal form is the root or a run of `..`, and then
  names only.
* `components_ofComponents`: components in normal form are read back as they were
  written, so `components_normalize` and `normalize_normalize` hold byte for byte.
* `normalComponents_join`: normalizing a join is going on from the normal form of its
  first part; `normalize_join` says that both parts may be normalized before.
* `root_mem_normalComponents_iff`, `isStraight_normalComponents`: what the start of a
  normal form tells about the rest.
* `follow_normalComponents`: where a path leads, read as steps up and down, its normal
  form leads too.
-/

set_option autoImplicit false

namespace Unimported.Path

/-! ### The shape of a normal form -/

/-- The components of a normal form: the root or some `..`, and then names. -/
def IsNormal (cs : List Component) : Prop :=
  ∃ names : List (List UInt8), (∀ n ∈ names, IsPlain n) ∧
    (cs = .root :: names.map .name ∨
      ∃ ups, cs = List.replicate ups .up ++ names.map .name)

/-- Plain names are in normal form. -/
theorem isNormal_names {names : List (List UInt8)} (h : ∀ n ∈ names, IsPlain n) :
    IsNormal (names.map .name) :=
  ⟨names, h, Or.inr ⟨0, rfl⟩⟩

/-- No component at all is in normal form. -/
theorem isNormal_nil : IsNormal [] :=
  ⟨[], by simp, Or.inr ⟨0, rfl⟩⟩

/-- A name behind a normal form makes a normal form. -/
theorem isNormal_append_name {cs : List Component} {name : List UInt8} (h : IsNormal cs)
    (hname : IsPlain name) : IsNormal (cs ++ [.name name]) := by
  obtain ⟨names, hnames, hcs⟩ := h
  refine ⟨names ++ [name], ?_, ?_⟩
  · intro n hn
    rcases List.mem_append.mp hn with hn | hn
    · exact hnames n hn
    · rw [List.mem_singleton.mp hn]
      exact hname
  · rcases hcs with rfl | ⟨ups, rfl⟩
    · exact Or.inl (by simp)
    · exact Or.inr ⟨ups, by simp⟩

/-- Names behind a normal form make a normal form. -/
theorem isNormal_append_names {cs : List Component} {names : List (List UInt8)}
    (h : IsNormal cs) (hnames : ∀ n ∈ names, IsPlain n) :
    IsNormal (cs ++ names.map .name) := by
  induction names generalizing cs with
  | nil => simpa using h
  | cons name names ih =>
    have hfirst := isNormal_append_name h (hnames name (by simp))
    have hrest := ih hfirst fun n hn => hnames n (by simp [hn])
    simpa using hrest

/-- The names in a normal form are plain. -/
theorem isPlain_of_mem {cs : List Component} {name : List UInt8} (h : IsNormal cs)
    (hmem : .name name ∈ cs) : IsPlain name := by
  obtain ⟨names, hnames, rfl | ⟨ups, rfl⟩⟩ := h
  · exact hnames name (by simpa using hmem)
  · refine hnames name ?_
    simpa using hmem

/-- A normal form without its last component is a normal form. -/
theorem isNormal_of_append {cs : List Component} {c : Component} (h : IsNormal (cs ++ [c])) :
    IsNormal cs := by
  obtain ⟨names, hnames, hcs⟩ := h
  rcases List.eq_nil_or_concat' names with rfl | ⟨above, name, rfl⟩
  · rcases hcs with hroot | ⟨ups, hups⟩
    · have hcs : cs = [] := by
        simpa using congrArg List.length hroot
      exact ⟨[], by simp, Or.inr ⟨0, hcs⟩⟩
    · refine ⟨[], by simp, Or.inr ⟨ups - 1, ?_⟩⟩
      have hdrop := congrArg List.dropLast hups
      simpa [List.dropLast_replicate] using hdrop
  · have habove : ∀ n ∈ above, IsPlain n := fun n hn => hnames n (by simp [hn])
    rcases hcs with hroot | ⟨ups, hups⟩
    · refine ⟨above, habove, Or.inl ?_⟩
      rw [List.map_append, ← List.cons_append] at hroot
      exact (List.append_inj' hroot rfl).1
    · refine ⟨above, habove, Or.inr ⟨ups, ?_⟩⟩
      rw [List.map_append, ← List.append_assoc] at hups
      exact (List.append_inj' hups rfl).1

/-- The last component of a normal form is a name, `..`, or the root and nothing else. -/
theorem last_of_isNormal {cs : List Component} {c : Component} (h : IsNormal (cs ++ [c])) :
    (cs = [] ∧ c = .root) ∨ c.IsInner := by
  have hmem : c ∈ cs ++ [c] := by simp
  obtain ⟨names, hnames, hroot | ⟨ups, hups⟩⟩ := h
  · rcases List.eq_nil_or_concat' names with rfl | ⟨above, name, rfl⟩
    · left
      have hcs : cs = [] := by simpa using congrArg List.length hroot
      subst hcs
      simpa using hroot
    · right; right
      rw [List.map_append, ← List.cons_append] at hroot
      have hc : c = .name name := by simpa using (List.append_inj' hroot rfl).2
      exact ⟨name, hnames name (by simp), hc⟩
  · rw [hups] at hmem
    right
    rcases List.mem_append.mp hmem with hmem | hmem
    · exact Or.inl (List.eq_of_mem_replicate hmem)
    · obtain ⟨name, hname, rfl⟩ := List.mem_map.mp hmem
      exact Or.inr ⟨name, hnames name hname, rfl⟩

/-- What follows some first components of a normal form is a normal form. -/
theorem isNormal_drop {cs : List Component} (h : IsNormal cs) (k : Nat) :
    IsNormal (cs.drop k) := by
  obtain ⟨names, hnames, hcs⟩ := h
  have htail : ∀ m, ∀ n ∈ names.drop m, IsPlain n :=
    fun m n hn => hnames n (List.mem_of_mem_drop hn)
  rcases hcs with rfl | ⟨ups, rfl⟩
  · cases k with
    | zero => exact ⟨names, hnames, Or.inl rfl⟩
    | succ k => exact ⟨names.drop k, htail k, Or.inr ⟨0, by simp [List.map_drop]⟩⟩
  · refine ⟨names.drop (k - ups), htail _, Or.inr ⟨ups - k, ?_⟩⟩
    rw [List.drop_append, List.drop_replicate, List.length_replicate, List.map_drop]

/-- One more component of a path keeps the stack in normal form. Only a root would not
do, and a path has none behind its start. -/
theorem isNormal_settle {stack : List Component} {c : Component}
    (h : IsNormal stack.reverse) (hc : c = .here ∨ c.IsInner) :
    IsNormal (settle stack c).reverse := by
  rcases hc with rfl | rfl | ⟨name, hname, rfl⟩
  · simpa [settle] using h
  · obtain ⟨names, hnames, hstack⟩ := h
    rcases List.eq_nil_or_concat names with rfl | ⟨above, name, rfl⟩
    · -- There is no name to take back. The root swallows the `..`, and others keep it.
      rcases hstack with hroot | ⟨ups, hups⟩
      · have hstack : stack = [.root] := by
          rw [← List.reverse_reverse stack, hroot]
          rfl
        subst hstack
        exact ⟨[], by simp, Or.inl rfl⟩
      · have hstack : stack = List.replicate ups .up := by
          rw [← List.reverse_reverse stack, hups]
          simp
        subst hstack
        refine ⟨[], by simp, Or.inr ⟨ups + 1, ?_⟩⟩
        cases ups with
        | zero => rfl
        | succ ups =>
          simp [settle, List.replicate_succ, ← List.replicate_succ']
    · -- The `..` takes the last name back.
      have habove : ∀ n ∈ above, IsPlain n := fun n hn => hnames n (by simp [hn])
      rcases hstack with hroot | ⟨ups, hups⟩
      · have hstack : stack = .name name :: (above.reverse.map .name ++ [.root]) := by
          rw [← List.reverse_reverse stack, hroot]
          simp
        subst hstack
        exact ⟨above, habove, Or.inl (by simp [settle])⟩
      · have hstack : stack =
            .name name :: (above.reverse.map .name ++ List.replicate ups .up) := by
          rw [← List.reverse_reverse stack, hups]
          simp
        subst hstack
        exact ⟨above, habove, Or.inr ⟨ups, by simp [settle]⟩⟩
  · have hsettle : settle stack (.name name) = .name name :: stack := by
      simp [settle]
    rw [hsettle, List.reverse_cons]
    exact isNormal_append_name h hname

/-- Settling components one after the other keeps the normal form. -/
theorem isNormal_foldl_settle {cs : List Component} :
    ∀ {stack : List Component}, IsNormal stack.reverse →
      (∀ c ∈ cs, c = .here ∨ c.IsInner) →
      IsNormal (cs.foldl settle stack).reverse := by
  induction cs with
  | nil =>
    intro stack h _
    exact h
  | cons c cs ih =>
    intro stack h hcs
    have hstep : IsNormal (settle stack c).reverse := isNormal_settle h (hcs c (by simp))
    exact ih hstep fun c' hc' => hcs c' (by simp [hc'])

/-- A path is normalized to a normal form. -/
theorem isNormal_normalComponents (p : Path) : IsNormal p.normalComponents := by
  have hbody : ∀ c ∈ p.body, c = .here ∨ c.IsInner :=
    fun c hc => Or.inr (mem_body hc)
  -- The invariant holds behind the start of the path, and the body keeps it.
  rw [normalComponents, components_eq, List.foldl_append]
  unfold lead
  split
  · exact isNormal_foldl_settle ⟨[], by simp, Or.inl rfl⟩ hbody
  · split
    · exact isNormal_foldl_settle ⟨[], by simp, Or.inr ⟨0, rfl⟩⟩ hbody
    · exact isNormal_foldl_settle ⟨[], by simp, Or.inr ⟨0, rfl⟩⟩ hbody

/-! ### Writing and reading a normal form -/

/-- A component that is written between two slashes and read from there. -/
theorem ofSegment?_bytes {c : Component} (hc : c.IsInner) :
    Component.ofSegment? c.bytes = some c := by
  rcases hc with rfl | ⟨name, hname, rfl⟩
  · decide
  · exact ofSegment?_plain hname

/-- What can stand between slashes has none. -/
theorem slash_notMem_bytes {c : Component} (hc : c.IsInner) : slash ∉ c.bytes := by
  rcases hc with rfl | ⟨name, hname, rfl⟩
  · decide
  · exact hname.2.2.2

/-- Components between slashes are found again by splitting. -/
theorem splitOn_bytes {cs : List Component} (hne : cs ≠ []) (hcs : ∀ c ∈ cs, c.IsInner) :
    ([slash].intercalate (cs.map Component.bytes)).splitOn slash = cs.map Component.bytes := by
  apply List.splitOn_intercalate
  · intro bytes hbytes
    obtain ⟨c, hc, rfl⟩ := List.mem_map.mp hbytes
    exact slash_notMem_bytes (hcs c hc)
  · simpa using hne

/-- Components are found again by their bytes. -/
theorem filterMap_ofSegment?_bytes {cs : List Component} (hcs : ∀ c ∈ cs, c.IsInner) :
    (cs.map Component.bytes).filterMap Component.ofSegment? = cs := by
  induction cs with
  | nil => rfl
  | cons c cs ih =>
    rw [List.map_cons, List.filterMap_cons, ofSegment?_bytes (hcs c (by simp)),
      ih fun c' hc' => hcs c' (by simp [hc'])]

/-- The components behind the root of a normal form, or all of them if it has no root,
are `..` and names. -/
theorem up_or_name_of_isNormal {cs : List Component} (h : IsNormal cs)
    (hroot : ∀ rest, cs ≠ .root :: rest) :
    ∀ c ∈ cs, c.IsInner := by
  obtain ⟨names, hnames, rfl | ⟨ups, rfl⟩⟩ := h
  · exact absurd rfl (hroot _)
  · intro c hc
    rcases List.mem_append.mp hc with hc | hc
    · exact Or.inl (List.eq_of_mem_replicate hc)
    · obtain ⟨name, hname, rfl⟩ := List.mem_map.mp hc
      exact Or.inr ⟨name, hnames name hname, rfl⟩

/-- Neither `..` nor a name starts with a slash or is a lone dot. -/
theorem lead_eq_nil {p : Path} {c : Component} {rest : List UInt8} (hc : c.IsInner)
    (hbytes : p.bytes = c.bytes ∨ p.bytes = c.bytes ++ slash :: rest) : p.lead = [] := by
  have hne : c.bytes ≠ [] := by
    rcases hc with rfl | ⟨name, hname, rfl⟩
    · decide
    · exact hname.1
  have hslash := slash_notMem_bytes hc
  obtain ⟨b, bs, hb⟩ := List.exists_cons_of_ne_nil hne
  have habs : p.isAbsolute = false := by
    have : b ≠ slash := by
      rintro rfl
      simp [hb] at hslash
    rcases hbytes with h | h <;> simp [isAbsolute, h, hb, this]
  -- The component is the first segment of the path.
  have hhead : p.segments.head? = some c.bytes := by
    rcases hbytes with h | h
    · rw [segments, h, List.splitOn_eq_singleton hslash, List.head?_cons]
    · rw [segments, h, List.splitOn_append_cons_self_of_not_mem hslash, List.head?_cons]
  have hdot : c.bytes ≠ [dot] := by
    rcases hc with rfl | ⟨name, hname, rfl⟩
    · decide
    · exact hname.2.1
  simp [lead, habs, hhead, hdot]

/-- Components in normal form are read back as they were written. -/
theorem components_ofComponents {cs : List Component} (h : IsNormal cs) :
    (ofComponents cs).components = cs := by
  by_cases hroot : ∃ rest, cs = .root :: rest
  · obtain ⟨rest, rfl⟩ := hroot
    -- The root is only at the start, so that the rest stands between slashes.
    have hrest : ∀ c ∈ rest, c.IsInner := by
      have hdrop : IsNormal rest := isNormal_drop h 1
      refine up_or_name_of_isNormal hdrop ?_
      obtain ⟨names, -, heq | ⟨ups, heq⟩⟩ := h
      · intro rest' hrest'
        have hmem : Component.root ∈ names.map Component.name := by
          rw [← List.cons.inj heq |>.2, hrest']
          simp
        simp at hmem
      · exfalso
        cases ups with
        | zero => cases names <;> simp at heq
        | succ ups => simp [List.replicate_succ] at heq
    have hlead : (ofComponents (.root :: rest)).lead = [.root] := by
      simp [lead, ofComponents, isAbsolute]
    rw [components_eq, hlead, List.singleton_append]
    congr 1
    -- The slash of the root is the end of an empty segment.
    show List.filterMap _ (List.splitOn slash (slash :: _)) = rest
    rw [List.splitOn_cons_eq_if_modifyHead, if_pos (by simp)]
    cases rest with
    | nil => simp [Component.ofSegment?]
    | cons c cs =>
      rw [splitOn_bytes (by simp) hrest, List.filterMap_cons,
        filterMap_ofSegment?_bytes hrest]
      rfl
  · have hcs := up_or_name_of_isNormal h fun rest heq => hroot ⟨rest, heq⟩
    cases cs with
    | nil => simp [ofComponents, components, segments, isAbsolute, Component.ofSegment?]
    | cons c cs =>
      have hbytes : (ofComponents (c :: cs)).bytes
          = [slash].intercalate ((c :: cs).map Component.bytes) := by
        unfold ofComponents
        split
        · rename_i heq
          exact absurd ⟨_, heq⟩ hroot
        · rfl
      have hlead : (ofComponents (c :: cs)).lead = [] := by
        have hstart : (ofComponents (c :: cs)).bytes = c.bytes ∨ (ofComponents (c :: cs)).bytes
            = c.bytes ++ slash :: [slash].intercalate (cs.map Component.bytes) := by
          rw [hbytes]
          cases cs with
          | nil => exact Or.inl (by simp)
          | cons c' cs => exact Or.inr (by simp [List.intercalate_cons_cons])
        exact lead_eq_nil (hcs c (by simp)) hstart
      rw [components_eq, hlead, List.nil_append, body, segments, hbytes,
        splitOn_bytes (by simp) hcs, filterMap_ofSegment?_bytes hcs]

/-! ### Normalizing -/

/-- Names are put on the stack one by one. -/
theorem foldl_settle_names (names : List (List UInt8)) (stack : List Component) :
    (names.map Component.name).foldl settle stack
      = (names.map Component.name).reverse ++ stack := by
  induction names generalizing stack with
  | nil => rfl
  | cons name names ih => simp [ih, settle]

/-- Steps up from nowhere stay. -/
theorem foldl_settle_ups (ups : Nat) :
    (List.replicate ups Component.up).foldl settle [] = List.replicate ups .up := by
  induction ups with
  | zero => rfl
  | succ ups ih =>
    rw [List.replicate_succ', List.foldl_append, ih, ← List.replicate_succ']
    -- A `..` stays if there is nothing in front of it, or another `..`.
    cases ups with
    | zero => rfl
    | succ ups => simp [settle, List.replicate_succ]

/-- Components in normal form go onto the stack as they are. -/
theorem foldl_settle_isNormal {cs : List Component} (h : IsNormal cs) :
    cs.foldl settle [] = cs.reverse := by
  obtain ⟨names, -, rfl | ⟨ups, rfl⟩⟩ := h
  · rw [List.foldl_cons, foldl_settle_names]
    simp [settle]
  · rw [List.foldl_append, foldl_settle_ups, foldl_settle_names, List.reverse_append,
      List.reverse_replicate]

/-- A path in normal form has the components of its normal form. -/
theorem normalComponents_of_isNormal {p : Path} (h : IsNormal p.components) :
    p.normalComponents = p.components := by
  rw [normalComponents, foldl_settle_isNormal h, List.reverse_reverse]

/-- Components in normal form, written down and normalized, are themselves. -/
theorem normalComponents_ofComponents {cs : List Component} (h : IsNormal cs) :
    (ofComponents cs).normalComponents = cs := by
  rw [normalComponents_of_isNormal, components_ofComponents h]
  rwa [components_ofComponents h]

/-- The normal form has the components that settling leaves. -/
theorem components_normalize (p : Path) : p.normalize.components = p.normalComponents :=
  components_ofComponents (isNormal_normalComponents p)

/-- The normal form of a normal form has the same components. -/
theorem normalComponents_normalize (p : Path) :
    p.normalize.normalComponents = p.normalComponents := by
  have hnormal : IsNormal p.normalize.components := by
    rw [components_normalize]
    exact isNormal_normalComponents p
  rw [normalComponents_of_isNormal hnormal, components_normalize]

/-- A normal form is its own normal form. -/
theorem normalize_normalize (p : Path) : p.normalize.normalize = p.normalize := by
  rw [normalize, normalComponents_normalize, normalize]

/-- What has been settled already can be settled again on top of anything. This is what
lets a path be normalized part by part: a `..` takes back the same name whether the
name was put onto an empty stack or onto a longer one. -/
theorem foldl_settle_reverse (cs stack : List Component) :
    (cs.foldl settle []).reverse.foldl settle stack = cs.foldl settle stack := by
  induction cs using List.reverseRecOn with
  | nil => rfl
  | append_singleton cs c ih =>
    rw [List.foldl_append, List.foldl_append, List.foldl_cons, List.foldl_nil,
      List.foldl_cons, List.foldl_nil, ← ih]
    generalize cs.foldl settle [] = settled
    -- Only `..` looks at the stack, and what it needs to see has been settled.
    cases c with
    | here => simp [settle]
    | root => simp [settle]
    | name bytes => simp [settle]
    | up =>
      cases settled with
      | nil => simp [settle]
      | cons top below => cases top <;> simp [settle]

/-- The dot at the start of a relative path is settled away. -/
theorem foldl_settle_lead {p : Path} (hp : p.isAbsolute = false) (stack : List Component) :
    p.lead.foldl settle stack = stack := by
  unfold lead
  rw [if_neg (by simp [hp])]
  split <;> simp [settle]

/-- For a relative path only the components between slashes are settled. -/
theorem foldl_settle_components {p : Path} (hp : p.isAbsolute = false)
    (stack : List Component) : p.components.foldl settle stack = p.body.foldl settle stack := by
  rw [components_eq, List.foldl_append, foldl_settle_lead hp]

/-- A join is worked off by going on behind its first part. -/
theorem foldl_settle_join (p q : Path) (hq : q.isAbsolute = false) :
    (p.join q).components.foldl settle []
      = q.components.foldl settle (p.components.foldl settle []) := by
  rw [components_join p q hq]
  split
  · rename_i hp
    have hempty : p.components = [] := by
      simp [components, isAbsolute, segments, hp, Component.ofSegment?]
    rw [hempty, List.foldl_nil]
  · rw [List.foldl_append, foldl_settle_components hq]

/-- A joined path is put into normal form by settling one normal form on top of the other. -/
theorem normalComponents_join (p q : Path) (hq : q.isAbsolute = false) :
    (p.join q).normalComponents
      = (q.normalComponents.foldl settle p.normalComponents.reverse).reverse := by
  rw [normalComponents, foldl_settle_join p q hq, normalComponents, normalComponents,
    foldl_settle_reverse, List.reverse_reverse]

/-! ### The root and `..` in a normal form -/

/-- Settling a component brings no other component in. -/
theorem mem_settle {stack : List Component} {c d : Component} (h : c ∈ settle stack d) :
    c ∈ stack ∨ c = d := by
  unfold settle at h
  split at h <;> simp_all [or_comm]

/-- Settling makes no new components. -/
theorem mem_foldl_settle {cs stack : List Component} {c : Component}
    (h : c ∈ cs.foldl settle stack) : c ∈ stack ∨ c ∈ cs := by
  induction cs generalizing stack with
  | nil => exact Or.inl h
  | cons d cs ih =>
    rcases ih h with hmem | hmem
    · rcases mem_settle hmem with hmem | rfl
      · exact Or.inl hmem
      · exact Or.inr (List.mem_cons_self ..)
    · exact Or.inr (List.mem_cons_of_mem d hmem)

/-- Every component of a normal form was one of the path. -/
theorem mem_normalComponents {p : Path} {c : Component} (h : c ∈ p.normalComponents) :
    c ∈ p.components := by
  rw [normalComponents, List.mem_reverse] at h
  exact (mem_foldl_settle h).resolve_left List.not_mem_nil

/-- No `..` takes the root back. -/
theorem root_mem_settle {stack : List Component} (c : Component) (h : .root ∈ stack) :
    .root ∈ settle stack c := by
  unfold settle
  split <;> simp_all

/-- The root is never settled away. -/
theorem root_mem_foldl_settle (cs : List Component) {stack : List Component}
    (h : .root ∈ stack) : .root ∈ cs.foldl settle stack := by
  induction cs generalizing stack with
  | nil => exact h
  | cons c cs ih => exact ih (root_mem_settle c h)

/-- The normal form has the root exactly if the path is absolute. -/
theorem root_mem_normalComponents_iff {p : Path} :
    .root ∈ p.normalComponents ↔ p.isAbsolute = true := by
  constructor
  · intro h
    -- A root is nowhere but at the start of an absolute path.
    have hmem := mem_normalComponents h
    rw [components_eq] at hmem
    rcases List.mem_append.mp hmem with hlead | hbody
    · unfold lead at hlead
      split at hlead
      · assumption
      · split at hlead <;> simp at hlead
    · rcases mem_body hbody with hup | ⟨bytes, -, hname⟩
      · cases hup
      · cases hname
  · intro habs
    have hlead : p.lead = [.root] := by
      rw [lead, if_pos habs]
    rw [normalComponents, List.mem_reverse, components_eq, hlead, List.foldl_append]
    exact root_mem_foldl_settle _ (by simp [settle])

/-- The normal form is without the root exactly if the path is relative. -/
theorem root_notMem_normalComponents_iff {p : Path} :
    .root ∉ p.normalComponents ↔ p.isAbsolute = false := by
  rw [root_mem_normalComponents_iff, Bool.not_eq_true]

/-- A normal form starts at the root exactly if its path does. -/
theorem isAbsolute_normalize (p : Path) : p.normalize.isAbsolute = p.isAbsolute := by
  rw [Bool.eq_iff_iff, ← root_mem_normalComponents_iff, ← root_mem_normalComponents_iff,
    normalComponents_normalize]

/-- A join is normalized to the same path whether its parts are normalized first or not. -/
theorem normalize_join (p q : Path) :
    (p.join q).normalize = (p.normalize.join q.normalize).normalize := by
  cases hq : q.isAbsolute with
  | true =>
    -- Nothing is left of the first part.
    have hq' : q.normalize.isAbsolute = true := (isAbsolute_normalize q).trans hq
    rw [join, if_pos hq, join, if_pos hq', normalize_normalize]
  | false =>
    have hq' : q.normalize.isAbsolute = false := (isAbsolute_normalize q).trans hq
    rw [normalize, normalize, normalComponents_join p q hq,
      normalComponents_join p.normalize q.normalize hq', normalComponents_normalize,
      normalComponents_normalize]

/-- A path of components without the root is relative. -/
theorem isAbsolute_ofComponents {cs : List Component} (h : IsNormal cs) (hroot : .root ∉ cs) :
    (ofComponents cs).isAbsolute = false := by
  rw [← root_notMem_normalComponents_iff, normalComponents_ofComponents h]
  exact hroot

/-- Components without `..` are names, behind the root if there is one. -/
def IsStraight (absolute : Bool) (cs : List Component) : Prop :=
  ∃ names : List (List UInt8), cs = (if absolute then [.root] else []) ++ names.map .name

/-- A normal form has all its `..` at the start, and an absolute one has none. -/
theorem isStraight_normalComponents {p : Path}
    (hup : p.isAbsolute = true ∨ p.normalComponents.head? ≠ some .up) :
    IsStraight p.isAbsolute p.normalComponents := by
  obtain ⟨names, -, hroot | ⟨ups, hups⟩⟩ := isNormal_normalComponents p
  · have habs : p.isAbsolute = true := root_mem_normalComponents_iff.mp (by simp [hroot])
    exact ⟨names, by rw [hroot, habs]; rfl⟩
  · have habs : p.isAbsolute = false := root_notMem_normalComponents_iff.mp (by simp [hups])
    have hzero : ups = 0 := by
      cases ups with
      | zero => rfl
      | succ ups =>
        -- The first component would be a `..` after all.
        rw [hups, habs] at hup
        simp [List.replicate_succ] at hup
    subst hzero
    exact ⟨names, by rw [hups, habs]; rfl⟩

/-- A straight list stays straight with a name behind it. -/
theorem IsStraight.append_name {absolute : Bool} {cs : List Component}
    (h : IsStraight absolute cs) (name : List UInt8) :
    IsStraight absolute (cs ++ [.name name]) := by
  obtain ⟨names, rfl⟩ := h
  exact ⟨names ++ [name], by simp⟩

/-! ### Where a path leads -/

/-- Where one component leads from a place that is given by its names, the last one
first. Above the root there is only the root. -/
def follow (place : List (List UInt8)) : Component → List (List UInt8)
  | .root => []
  | .here => place
  | .up => place.tail
  | .name bytes => bytes :: place

/-- Settling changes nothing about where components lead. -/
theorem foldl_follow_settle (place : List (List UInt8)) (stack : List Component)
    (c : Component) :
    (settle stack c).reverse.foldl follow place = follow (stack.reverse.foldl follow place) c := by
  cases c with
  | here => simp [settle, follow]
  | root => simp [settle]
  | name bytes => simp [settle]
  | up =>
    cases stack with
    | nil => simp [settle]
    | cons top below => cases top <;> simp [settle, follow]

/-- A path leads where its normal form leads. -/
theorem follow_normalComponents (place : List (List UInt8)) (p : Path) :
    p.normalComponents.foldl follow place = p.components.foldl follow place := by
  rw [normalComponents]
  induction p.components using List.reverseRecOn with
  | nil => rfl
  | append_singleton cs c ih =>
    rw [List.foldl_append, List.foldl_append, List.foldl_cons, List.foldl_nil,
      foldl_follow_settle, ih, List.foldl_cons, List.foldl_nil]

/-- Names lead down from a place. -/
theorem foldl_follow_names (place names : List (List UInt8)) :
    (names.map Component.name).foldl follow place = names.reverse ++ place := by
  induction names generalizing place with
  | nil => rfl
  | cons name names ih => simp [follow, ih]

/-- Steps up lead up from a place, and stay at the top. -/
theorem foldl_follow_ups (ups : Nat) (place : List (List UInt8)) :
    (List.replicate ups Component.up).foldl follow place = place.drop ups := by
  induction ups generalizing place with
  | zero => rfl
  | succ ups ih => rw [List.replicate_succ, List.foldl_cons, ih, follow, List.drop_tail]

/-- A straight list leads down its names, from the top or from the place where it starts. -/
theorem IsStraight.foldl_follow {absolute : Bool} {cs : List Component}
    (h : IsStraight absolute cs) :
    ∃ names : List (List UInt8), cs = (if absolute then [.root] else []) ++ names.map .name ∧
      ∀ place, cs.foldl follow place = names.reverse ++ if absolute then [] else place := by
  obtain ⟨names, rfl⟩ := h
  refine ⟨names, rfl, fun place => ?_⟩
  rw [List.foldl_append, foldl_follow_names]
  cases absolute <;> rfl

/-- Of two paths without `..`, the one that leads below where the other leads has the
components of the other one at its start. -/
theorem IsStraight.eq_append {absolute : Bool} {cs root : List Component}
    {place names : List (List UInt8)} (hcs : IsStraight absolute cs)
    (hroot : IsStraight absolute root)
    (h : cs.foldl follow place = names.reverse ++ root.foldl follow place) :
    cs = root ++ names.map .name := by
  obtain ⟨ns, hns, hfollow⟩ := hcs.foldl_follow
  obtain ⟨ms, hms, hfollow'⟩ := hroot.foldl_follow
  rw [hfollow, hfollow', ← List.append_assoc, ← List.reverse_append] at h
  have hnames : ns = ms ++ names := List.reverse_injective (List.append_cancel_right h)
  rw [hns, hms, hnames, List.map_append, List.append_assoc]

end Unimported.Path
