import Unimported.Yaml.Token

/-!
# `Unimported.Yaml.Node`: the tree of a YAML document

- `Node` is a scalar, a sequence, a mapping, or an alias of another node.
- `Document.ofTokens?` reads the tokens of a stream with at most one document.
- `Document.target` is the node that an alias stands for.

An anchor gives its node a slot, numbered by how many names have been anchored before.
A name that is anchored again counts once, so a later anchor may get a slot that is
taken; then it takes the slot over, for the aliases before it too.
-/

set_option autoImplicit false

namespace Unimported.Yaml

/-- A node of a document. -/
inductive Node where
  /-- A scalar with its tag. -/
  | scalar (style : ScalarStyle) (tag : Option (List Char)) (text : List Char)
  /-- A sequence. -/
  | sequence (items : List Node)
  /-- A mapping with its entries in order. -/
  | mapping (entries : List (Node × Node))
  /-- Another node, by its slot. -/
  | alias (slot : Nat)
deriving Repr

/-- A document. -/
structure Document where
  /-- The root, unless the stream is empty. -/
  root : Option Node
  /-- The anchored nodes by slot; the first row of a slot counts. -/
  slots : List (Nat × Node)
deriving Repr

namespace Document

/-- The node itself, or the node that it is an alias of. -/
def target (d : Document) (n : Node) : Option Node :=
  match n with
  | .alias slot => d.slots.lookup slot
  | other => some other

end Document

/-! ### Reading a tree -/

/-- How far the tokens have been read. -/
structure TreeReader where
  /-- The tokens still to read. -/
  tokens : List Token
  /-- What the tag handles stand for. -/
  handles : List (List Char × List Char)
  /-- The slot of each anchored name, the latest first. -/
  anchors : List (List Char × Nat) := []
  /-- The anchored nodes by slot, the latest first. -/
  slots : List (Nat × Node) := []

/-- What stands before a node: its anchor and its tag. -/
structure Properties where
  /-- The name of the anchor. -/
  anchor : Option (List Char) := none
  /-- The handle and the suffix of the tag. -/
  tag : Option (List Char × List Char) := none

namespace TreeReader

/-- The reader after `n` more tokens. -/
def skip (r : TreeReader) (n : Nat) : TreeReader :=
  { r with tokens := r.tokens.drop n }

/-- Whether the next token is one of these. -/
def at? (r : TreeReader) (ts : List Token) : Bool :=
  match r.tokens with
  | t :: _ => ts.contains t
  | [] => false

/-- The anchor and the tag before a node, in either order. -/
def properties (r : TreeReader) : Properties × TreeReader :=
  match r.tokens with
  | .anchor name :: .tag handle suffix :: _ =>
    (⟨some name, some (handle, suffix)⟩, r.skip 2)
  | .tag handle suffix :: .anchor name :: _ =>
    (⟨some name, some (handle, suffix)⟩, r.skip 2)
  | .anchor name :: _ => (⟨some name, none⟩, r.skip 1)
  | .tag handle suffix :: _ => (⟨none, some (handle, suffix)⟩, r.skip 1)
  | _ => ({}, r)

/-- A tag written out. Its handle must be known. -/
def fullTag? (r : TreeReader) : Option (List Char × List Char) →
    Option (Option (List Char))
  | none => some none
  | some ([], suffix) => some (some suffix)
  | some (handle, suffix) => (r.handles.lookup handle).map fun e => some (e ++ suffix)

/-- Gives an anchored name its slot. -/
def anchored (r : TreeReader) : Option (List Char) → Option Nat × TreeReader
  | none => (none, r)
  | some name =>
    let slot := r.anchors.length
    (some slot, { r with
      anchors := (name, slot) :: r.anchors.filter fun a => a.1 ≠ name })

/-- Puts a node into its slot. Nodes that were anchored since `before` are inside it or
behind it, and come first. -/
def keep (r before : TreeReader) (slot : Option Nat) (n : Node) : TreeReader :=
  match slot with
  | none => r
  | some slot =>
    let later := r.slots.length - before.slots.length
    { r with slots := r.slots.take later ++ (slot, n) :: r.slots.drop later }

/-- The scalar that stands where nothing is written. -/
def nothing : Node := .scalar .plain none []

mutual

/-- Reads a node. Block collections can stand only in a block, and a sequence without
indentation of its own only in a mapping. -/
def node? : Nat → Bool → Bool → TreeReader → Option (Node × TreeReader)
  | 0, _, _, _ => none
  | fuel + 1, block, loose, r =>
    match r.tokens with
    | .alias name :: _ => (r.anchors.lookup name).map fun slot => (.alias slot, r.skip 1)
    | _ =>
      let (p, r) := r.properties
      match r.fullTag? p.tag with
      | none => none
      | some tag =>
        -- The slot is given before the node is read, so an alias inside may name it.
        let (slot, r) := r.anchored p.anchor
        let read : Option (Node × TreeReader) :=
          match r.tokens with
          | .blockEntry :: _ =>
            if loose then (looseItems? fuel r).map fun (xs, r) => (.sequence xs, r)
            else if p.anchor.isSome || tag.isSome then some (.scalar .plain tag [], r)
            else none
          | .scalar style text :: _ => some (.scalar style tag text, r.skip 1)
          | .flowSequenceStart :: _ =>
            (flowItems? fuel true (r.skip 1)).map fun (xs, r) => (.sequence xs, r)
          | .flowMappingStart :: _ =>
            (flowEntries? fuel true (r.skip 1)).map fun (xs, r) => (.mapping xs, r)
          | t :: _ =>
            if block && t == .blockSequenceStart then
              (blockItems? fuel (r.skip 1)).map fun (xs, r) => (.sequence xs, r)
            else if block && t == .blockMappingStart then
              (blockEntries? fuel (r.skip 1)).map fun (xs, r) => (.mapping xs, r)
            else if p.anchor.isSome || tag.isSome then some (.scalar .plain tag [], r)
            else none
          | [] =>
            if p.anchor.isSome || tag.isSome then some (.scalar .plain tag [], r)
            else none
        read.map fun (n, after) => (n, after.keep r slot n)

/-- Reads a node, or nothing if the next token is one of `ends`. -/
def nodeUnless? : Nat → List Token → Bool → Bool → TreeReader →
    Option (Node × TreeReader)
  | 0, _, _, _, _ => none
  | fuel + 1, ends, block, loose, r =>
    if r.at? ends then some (nothing, r) else node? fuel block loose r

/-- Reads the items of a block sequence and its end. -/
def blockItems? : Nat → TreeReader → Option (List Node × TreeReader)
  | 0, _ => none
  | fuel + 1, r =>
    match r.tokens with
    | .blockEntry :: _ =>
      match nodeUnless? fuel [.blockEntry, .blockEnd] true false (r.skip 1) with
      | none => none
      | some (x, r) => (blockItems? fuel r).map fun (xs, r) => (x :: xs, r)
    | .blockEnd :: _ => some ([], r.skip 1)
    | _ => none

/-- Reads the items of a sequence that has no indentation of its own. -/
def looseItems? : Nat → TreeReader → Option (List Node × TreeReader)
  | 0, _ => none
  | fuel + 1, r =>
    match r.tokens with
    | .blockEntry :: _ =>
      match nodeUnless? fuel [.blockEntry, .key, .value, .blockEnd] true false (r.skip 1) with
      | none => none
      | some (x, r) => (looseItems? fuel r).map fun (xs, r) => (x :: xs, r)
    | _ => some ([], r)

/-- Reads the entries of a block mapping and its end. -/
def blockEntries? : Nat → TreeReader → Option (List (Node × Node) × TreeReader)
  | 0, _ => none
  | fuel + 1, r =>
    match r.tokens with
    | .key :: _ =>
      match nodeUnless? fuel [.key, .value, .blockEnd] true true (r.skip 1) with
      | none => none
      | some (k, r) =>
        let value : Option (Node × TreeReader) :=
          match r.tokens with
          | .value :: _ => nodeUnless? fuel [.key, .value, .blockEnd] true true (r.skip 1)
          | _ => some (nothing, r)
        match value with
        | none => none
        | some (v, r) => (blockEntries? fuel r).map fun (xs, r) => ((k, v) :: xs, r)
    | .blockEnd :: _ => some ([], r.skip 1)
    | _ => none

/-- Reads the items of a flow sequence and its end. An item can be a mapping with one
entry, written without braces. Where the key of such an entry is left out, the mark
that follows in its place is passed over. -/
def flowItems? : Nat → Bool → TreeReader → Option (List Node × TreeReader)
  | 0, _, _ => none
  | fuel + 1, first, r =>
    if r.at? [.flowSequenceEnd] then some ([], r.skip 1)
    else if !first && !r.at? [.flowEntry] then none
    else
      let r := if first then r else r.skip 1
      match r.tokens with
      | .flowSequenceEnd :: _ => some ([], r.skip 1)
      | .key :: _ =>
        let pairKey : Option (Node × TreeReader) :=
          if (r.skip 1).at? [.value, .flowEntry, .flowSequenceEnd] then
            -- The mark is passed over together with the key.
            some (nothing, r.skip 2)
          else node? fuel false false (r.skip 1)
        match pairKey with
        | none => none
        | some (k, r) =>
          let value : Option (Node × TreeReader) :=
            match r.tokens with
            | .value :: _ =>
              nodeUnless? fuel [.flowEntry, .flowSequenceEnd] false false (r.skip 1)
            | _ => some (nothing, r)
          match value with
          | none => none
          | some (v, r) =>
            (flowItems? fuel false r).map fun (xs, r) => (.mapping [(k, v)] :: xs, r)
      | _ =>
        match node? fuel false false r with
        | none => none
        | some (x, r) => (flowItems? fuel false r).map fun (xs, r) => (x :: xs, r)

/-- Reads the entries of a flow mapping and its end. A key without a value has an empty
one. -/
def flowEntries? : Nat → Bool → TreeReader → Option (List (Node × Node) × TreeReader)
  | 0, _, _ => none
  | fuel + 1, first, r =>
    if r.at? [.flowMappingEnd] then some ([], r.skip 1)
    else if !first && !r.at? [.flowEntry] then none
    else
      let r := if first then r else r.skip 1
      match r.tokens with
      | .flowMappingEnd :: _ => some ([], r.skip 1)
      | .key :: _ =>
        match nodeUnless? fuel [.value, .flowEntry, .flowMappingEnd] false false (r.skip 1)
        with
        | none => none
        | some (k, r) =>
          let value : Option (Node × TreeReader) :=
            match r.tokens with
            | .value :: _ =>
              nodeUnless? fuel [.flowEntry, .flowMappingEnd] false false (r.skip 1)
            | _ => some (nothing, r)
          match value with
          | none => none
          | some (v, r) => (flowEntries? fuel false r).map fun (xs, r) => ((k, v) :: xs, r)
      | _ =>
        match node? fuel false false r with
        | none => none
        | some (k, r) =>
          (flowEntries? fuel false r).map fun (xs, r) => ((k, nothing) :: xs, r)

end

end TreeReader

/-! ### Reading a document -/

/-- What the tag handles stand for that need no directive. -/
def standardHandles : List (List Char × List Char) :=
  [(['!'], ['!']), (['!', '!'], "tag:yaml.org,2002:".toList)]

/-- Reads the directives before a document: what the tag handles stand for, and the
tokens after. There can be one version, 1.1 or 1.2, and one directive for a handle. -/
def directives? : Bool → List (List Char × List Char) → List Token →
    Option (List (List Char × List Char) × List Token)
  | versioned, handles, .version major minor :: rest =>
    if versioned || major ≠ 1 || (minor ≠ 1 && minor ≠ 2) then none
    else directives? true handles rest
  | versioned, handles, .tagDirective handle expansion :: rest =>
    if handles.any fun h => h.1 == handle then none
    else directives? versioned (handles ++ [(handle, expansion)]) rest
  | _, handles, rest => some (handles ++ standardHandles, rest)

namespace Document

/-- Whether nothing but document ends is left. -/
def isOver (tokens : List Token) : Bool :=
  tokens.all (· == .documentEnd)

/-- Reads the root of a document. -/
def ofRoot? (handles : List (List Char × List Char)) (tokens : List Token) :
    Option Document :=
  let r : TreeReader := { tokens, handles }
  match r.node? (4 * tokens.length + 4) true false with
  | some (n, r) => if isOver r.tokens then some ⟨some n, r.slots⟩ else none
  | none => none

/-- The document of a stream. A stream without a document has no root, and one with two
of them is refused. -/
def ofTokens? (tokens : List Token) : Option Document :=
  match tokens with
  | [] => some ⟨none, []⟩
  | .version _ _ :: _ | .tagDirective _ _ :: _ | .documentStart :: _ =>
    match directives? false [] tokens with
    | some (handles, .documentStart :: rest) =>
      match rest with
      | [] | .documentEnd :: _ =>
        if isOver rest then some ⟨some TreeReader.nothing, []⟩ else none
      | _ => ofRoot? handles rest
    | _ => none
  | _ => ofRoot? standardHandles tokens

/-- The document that a text holds. -/
def ofText? (text : List Char) : Option Document :=
  (tokens? text).bind ofTokens?

end Document

end Unimported.Yaml
