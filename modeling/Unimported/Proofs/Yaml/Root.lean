import Unimported.Config.OfYaml

/-!
# `Unimported.Proofs.Yaml.Root`: streams that hold no configuration

A configuration is a mapping whose keys are texts. The first tokens of a stream often tell
that it is none, whatever follows them: the root is a sequence or a text, the first key is
a sequence, or two scalars stand where the grammar allows for one.

- `ofTokens?` is the configuration of a stream, and `ofYamlText?_eq_bind` reads a text
  through its tokens.
- `IsBarren` says that a stream with these first tokens holds no configuration.
- `isBarren_scalar`, `isBarren_flowSequence`, `isBarren_blockSequence`: the root is no
  mapping. `isBarren_documentStart` is the same behind a document mark.
- `isBarren_scalars`, `isBarren_key`, `isBarren_scalarKey`: the tokens break the grammar.
- `isBarren_sequenceKey`: the first key of a mapping is no text.
-/

set_option autoImplicit false

namespace Unimported.Config

open Unimported.Yaml

/-- The configuration that a stream of tokens holds. -/
def ofTokens? (tokens : List Token) : Option Config :=
  (Document.ofTokens? tokens).bind ofYaml?

/-- A text holds the configuration that its tokens hold. -/
theorem ofYamlText?_eq_bind (text : List Char) :
    ofYamlText? text = (tokens? text).bind ofTokens? := by
  simp only [ofYamlText?, Document.ofText?, Option.bind_assoc]
  rfl

variable {r r' : TreeReader} {n : Node} {rest : List Token}

/-! ### Roots that are no mapping of texts -/

/-- A node that every document refuses where it asks for fields. -/
def HasNoFields (n : Node) : Prop :=
  ∀ d : Document, YamlField.fields? d n = none

/-- A sequence has no fields. -/
theorem hasNoFields_sequence (items : List Node) : HasNoFields (.sequence items) :=
  fun _ => rfl

/-- A scalar that is not empty has no fields. -/
theorem hasNoFields_scalar (style : ScalarStyle) (tag : Option (List Char))
    {text : List Char} (h : text ≠ []) : HasNoFields (.scalar style tag text) := by
  intro d
  cases text with
  | nil => exact absurd rfl h
  | cons c text => cases style <;> rfl

/-- A mapping whose first key is a sequence has no fields. -/
theorem hasNoFields_sequenceKey (items : List Node) (v : Node)
    (more : List (Node × Node)) : HasNoFields (.mapping ((.sequence items, v) :: more)) := by
  intro d
  simp [YamlField.fields?, Document.target, YamlField.text?]

/-- A root without fields holds no configuration. -/
theorem ofYaml?_of_hasNoFields {d : Document} (hn : d.root = some n) (h : HasNoFields n) :
    ofYaml? d = none := by
  simp [ofYaml?, hn, h d]

/-- A stream holds no configuration if its root cannot be read to a node with fields. -/
theorem ofRoot?_bind_eq_none (handles : List (List Char × List Char)) (tokens : List Token)
    (h : ∀ fuel n r', TreeReader.node? fuel true false { tokens, handles } = some (n, r') →
      HasNoFields n ∨ Document.isOver r'.tokens = false) :
    (Document.ofRoot? handles tokens).bind ofYaml? = none := by
  simp only [Document.ofRoot?]
  split
  next n r' hn =>
    split
    next hover =>
      rcases h _ n r' hn with h | h
      · exact ofYaml?_of_hasNoFields (d := ⟨some n, r'.slots⟩) rfl h
      · simp [h] at hover
    next => rfl
  next => rfl

/-! ### The first node of a stream -/

section FirstNode

variable {fuel : Nat} {block loose : Bool}

/-- A scalar at the front is the node. -/
theorem node?_scalar {style : ScalarStyle} {text : List Char}
    (hr : r.tokens = .scalar style text :: rest)
    (h : TreeReader.node? fuel block loose r = some (n, r')) :
    n = .scalar style none text ∧ r'.tokens = rest := by
  cases fuel with
  | zero => simp [TreeReader.node?] at h
  | succ fuel =>
    simp [TreeReader.node?, TreeReader.properties, TreeReader.fullTag?, TreeReader.anchored,
      TreeReader.keep, hr] at h
    obtain ⟨rfl, rfl⟩ := h
    simp [TreeReader.skip, hr]

/-- The start of a flow sequence at the front makes the node a sequence. -/
theorem node?_flowSequence (hr : r.tokens = .flowSequenceStart :: rest)
    (h : TreeReader.node? fuel block loose r = some (n, r')) :
    ∃ items, n = .sequence items := by
  cases fuel with
  | zero => simp [TreeReader.node?] at h
  | succ fuel =>
    simp [TreeReader.node?, TreeReader.properties, TreeReader.fullTag?, TreeReader.anchored,
      TreeReader.keep, hr] at h
    obtain ⟨items, -, rfl⟩ := h
    exact ⟨items, rfl⟩

/-- The start of a block sequence at the front makes the node a sequence. -/
theorem node?_blockSequence (hr : r.tokens = .blockSequenceStart :: rest)
    (h : TreeReader.node? fuel true loose r = some (n, r')) :
    ∃ items, n = .sequence items := by
  cases fuel with
  | zero => simp [TreeReader.node?] at h
  | succ fuel =>
    simp [TreeReader.node?, TreeReader.properties, TreeReader.fullTag?, TreeReader.anchored,
      TreeReader.keep, hr] at h
    obtain ⟨items, -, rfl⟩ := h
    exact ⟨items, rfl⟩

/-- No node starts with the mark of a key. -/
theorem node?_key (hr : r.tokens = .key :: rest) :
    TreeReader.node? fuel block loose r = none := by
  cases fuel with
  | zero => simp [TreeReader.node?]
  | succ fuel =>
    simp [TreeReader.node?, TreeReader.properties, TreeReader.fullTag?, TreeReader.anchored, hr]

/-- The start of a block mapping at the front makes the node a mapping, with the entries that
follow. -/
theorem node?_blockMapping (hr : r.tokens = .blockMappingStart :: rest)
    (h : TreeReader.node? fuel true loose r = some (n, r')) :
    ∃ fuel' entries, TreeReader.blockEntries? fuel' (r.skip 1) = some (entries, r') ∧
      n = .mapping entries := by
  cases fuel with
  | zero => simp [TreeReader.node?] at h
  | succ fuel =>
    simp [TreeReader.node?, TreeReader.properties, TreeReader.fullTag?, TreeReader.anchored,
      TreeReader.keep, hr] at h
    obtain ⟨entries, hentries, rfl⟩ := h
    exact ⟨fuel, entries, hentries, rfl⟩

end FirstNode

/-! ### The first entry of a mapping -/

/-- Where entries are read, a key or the end of the mapping stands. -/
theorem blockEntries?_head {fuel : Nat} {entries : List (Node × Node)}
    (h : TreeReader.blockEntries? fuel r = some (entries, r')) :
    ∃ t after, r.tokens = t :: after ∧ (t = .key ∨ t = .blockEnd) := by
  cases fuel with
  | zero => simp [TreeReader.blockEntries?] at h
  | succ fuel =>
    simp only [TreeReader.blockEntries?] at h
    split at h
    next hr => exact ⟨_, _, hr, .inl rfl⟩
    next hr => exact ⟨_, _, hr, .inr rfl⟩
    next => simp at h

/-- The first entry has the node behind the mark for its key, and what follows that node is
the colon, a further key, or the end of the mapping. -/
theorem blockEntries?_key {fuel : Nat} {t : Token} {entries : List (Node × Node)}
    (hr : r.tokens = .key :: t :: rest) (ht : t ∉ [Token.key, .value, .blockEnd])
    (h : TreeReader.blockEntries? fuel r = some (entries, r')) :
    ∃ fuel' k v more rk, TreeReader.node? fuel' true true (r.skip 1) = some (k, rk) ∧
      entries = (k, v) :: more ∧
      ∃ u after, rk.tokens = u :: after ∧ u ∈ [Token.key, .value, .blockEnd] := by
  cases fuel with
  | zero => simp [TreeReader.blockEntries?] at h
  | succ fuel =>
    simp only [TreeReader.blockEntries?, hr] at h
    split at h
    next => simp at h
    next k rk hk =>
      have hnode : ∃ fuel', TreeReader.node? fuel' true true (r.skip 1) = some (k, rk) := by
        cases fuel with
        | zero => simp [TreeReader.nodeUnless?] at hk
        | succ fuel =>
          refine ⟨fuel, ?_⟩
          simpa [TreeReader.nodeUnless?, TreeReader.at?, TreeReader.skip, hr, ht] using hk
      obtain ⟨fuel', hnode⟩ := hnode
      split at h
      next => simp at h
      next v rv hv =>
        rw [Option.map_eq_some_iff] at h
        obtain ⟨⟨more, ra⟩, hmore, heq⟩ := h
        refine ⟨fuel', k, v, more, rk, hnode, by simp_all, ?_⟩
        -- Without a colon the value is empty, and the next entry is read where it would be.
        split at hv
        next after htokens => exact ⟨_, _, htokens, by simp⟩
        next =>
          obtain ⟨rfl, rfl⟩ : TreeReader.nothing = v ∧ rk = rv := by simpa using hv
          obtain ⟨u, after, htokens, rfl | rfl⟩ := blockEntries?_head hmore
          · exact ⟨_, after, htokens, by simp⟩
          · exact ⟨_, after, htokens, by simp⟩

/-! ### Barren beginnings -/

/-- A beginning of a stream that rules out a configuration, whatever follows it. -/
def IsBarren (front : List Token) : Prop :=
  ∀ tokens, front <+: tokens → ofTokens? tokens = none

/-- A beginning is barren if no root that starts with it is a node with fields and all of
the document. -/
theorem isBarren_of_node? {front : List Token} {t : Token} (ht : front.head? = some t)
    (hroot : ∀ tokens, Document.ofTokens? (t :: tokens) =
      Document.ofRoot? standardHandles (t :: tokens))
    (h : ∀ rest fuel n r', TreeReader.node? fuel true false
      { tokens := front ++ rest, handles := standardHandles } = some (n, r') →
      HasNoFields n ∨ Document.isOver r'.tokens = false) :
    IsBarren front := by
  rintro _ ⟨rest, rfl⟩
  obtain ⟨more, rfl⟩ := List.head?_eq_some_iff.mp ht
  rw [ofTokens?, List.cons_append, hroot]
  exact ofRoot?_bind_eq_none _ _ (h rest)

/-- A scalar that is not empty rules out a configuration if it comes first. -/
theorem isBarren_scalar (style : ScalarStyle) {text : List Char} (h : text ≠ []) :
    IsBarren [.scalar style text] := by
  refine isBarren_of_node? rfl (fun _ => rfl) fun rest fuel n r' hn => .inl ?_
  obtain ⟨rfl, -⟩ := node?_scalar rfl hn
  exact hasNoFields_scalar _ _ h

/-- A scalar is a root of its own, and a second one cannot stand behind it. -/
theorem isBarren_scalars (style style' : ScalarStyle) (text text' : List Char) :
    IsBarren [.scalar style text, .scalar style' text'] := by
  refine isBarren_of_node? rfl (fun _ => rfl) fun rest fuel n r' hn => .inr ?_
  obtain ⟨-, hr'⟩ := node?_scalar rfl hn
  simp [hr', Document.isOver]

/-- So does the start of a flow sequence. -/
theorem isBarren_flowSequence : IsBarren [.flowSequenceStart] := by
  refine isBarren_of_node? rfl (fun _ => rfl) fun rest fuel n r' hn => .inl ?_
  obtain ⟨items, rfl⟩ := node?_flowSequence rfl hn
  exact hasNoFields_sequence items

/-- So does the start of a block sequence. -/
theorem isBarren_blockSequence : IsBarren [.blockSequenceStart] := by
  refine isBarren_of_node? rfl (fun _ => rfl) fun rest fuel n r' hn => .inl ?_
  obtain ⟨items, rfl⟩ := node?_blockSequence rfl hn
  exact hasNoFields_sequence items

/-- So does the mark of a key without a mapping. -/
theorem isBarren_key : IsBarren [.key] := by
  refine isBarren_of_node? rfl (fun _ => rfl) fun rest fuel n r' hn => ?_
  simp [node?_key] at hn

/-- So does a mapping whose first key is a sequence. -/
theorem isBarren_sequenceKey : IsBarren [.blockMappingStart, .key, .flowSequenceStart] := by
  refine isBarren_of_node? rfl (fun _ => rfl) fun rest fuel n r' hn => .inl ?_
  obtain ⟨_, entries, hentries, rfl⟩ := node?_blockMapping rfl hn
  obtain ⟨_, k, v, more, rk, hk, rfl, -⟩ := blockEntries?_key rfl (by simp) hentries
  obtain ⟨items, rfl⟩ := node?_flowSequence rfl hk
  exact hasNoFields_sequenceKey items v more

/-- So does a mapping in which a second scalar follows the first key without the mark of a value. -/
theorem isBarren_scalarKey (style style' : ScalarStyle) (text text' : List Char) :
    IsBarren [.blockMappingStart, .key, .scalar style text, .scalar style' text'] := by
  refine isBarren_of_node? rfl (fun _ => rfl) fun rest fuel n r' hn => ?_
  obtain ⟨_, entries, hentries, rfl⟩ := node?_blockMapping rfl hn
  obtain ⟨_, k, v, more, rk, hk, -, u, after, hu, hmem⟩ :=
    blockEntries?_key rfl (by simp) hentries
  obtain ⟨-, hrk⟩ := node?_scalar rfl hk
  obtain ⟨rfl, -⟩ := List.cons.inj (hrk.symm.trans hu)
  simp at hmem

/-- So does a document mark with a scalar behind it. -/
theorem isBarren_documentStart (style : ScalarStyle) {text : List Char} (h : text ≠ []) :
    IsBarren [.documentStart, .scalar style text] := by
  rintro _ ⟨rest, rfl⟩
  change (Document.ofRoot? standardHandles (.scalar style text :: rest)).bind ofYaml? = none
  refine ofRoot?_bind_eq_none _ _ fun fuel n r' hn => .inl ?_
  obtain ⟨rfl, -⟩ := node?_scalar rfl hn
  exact hasNoFields_scalar _ _ h

end Unimported.Config
