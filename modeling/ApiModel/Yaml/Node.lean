import ApiModel.Tree
import ApiModel.Yaml.Token
/-!
# YAML nodes

The tree of a stream of YAML tokens.  A text holds one document, or none, which reads as
an empty scalar.  An alias stands for a copy of the node under its anchor; inside that
node itself it denotes nothing.  Tags are kept for readers that need the kind of a scalar.
-/

namespace ApiModel.Yaml

/-- The nodes under anchors so far, with the number of aliases that reading each goes
through; `none` stands for a node that is not complete yet. -/
abbrev Anchors := List (String × Option (Tree × Nat))

/-- A node with what its reading goes through. -/
structure Node where
  tree : Tree
  aliases : Nat := 0

/-- The state of the reading of nodes. -/
structure Stream where
  tokens : List Token
  anchors : Anchors := []

/-- Expansions of tag handles. -/
abbrev Handles := List (String × String)

namespace Handles

/-- The handles that every document knows. -/
def standard : Handles :=
  [("!", "!"), ("!!", "tag:yaml.org,2002:")]

/-- The full name of a tag; `none` when its handle is unknown. -/
def expand? (handles : Handles) (handle suffix : String) : Option String :=
  if handle.isEmpty then some suffix
  else (handles.lookup handle).map (· ++ suffix)

end Handles

/-- The empty node, which stands where a text leaves a node out. -/
def Node.empty : Node := { tree := .plain "" }

/-- Anchor and tag of a node. -/
structure Properties where
  anchor : Option String := none
  tag : Option String := none

namespace Stream

/-- The stream without its next token. -/
def skip (s : Stream) : Stream :=
  { s with tokens := s.tokens.tail }

/-- Whether the next token is one of these. -/
def atAny (s : Stream) (ts : List Token) : Bool :=
  s.tokens.head?.all ts.contains

/-- Whether the next token is this one. -/
def atToken (s : Stream) (t : Token) : Bool :=
  s.tokens.head? == some t

/-- Reads an anchor and a tag, in either order. -/
def properties? (handles : Handles) (s : Stream) : Option (Properties × Stream) := do
  match s.tokens with
  | .anchor name :: .tag handle suffix :: _ =>
    let tag ← handles.expand? handle suffix
    return ({ anchor := some name, tag := some tag }, s.skip.skip)
  | .tag handle suffix :: .anchor name :: _ =>
    let tag ← handles.expand? handle suffix
    return ({ anchor := some name, tag := some tag }, s.skip.skip)
  | .anchor name :: _ => return ({ anchor := some name }, s.skip)
  | .tag handle suffix :: _ =>
    let tag ← handles.expand? handle suffix
    return ({ tag := some tag }, s.skip)
  | _ => return ({}, s)

/-- Registers the anchor of a node whose reading begins. -/
def openAnchor (s : Stream) (p : Properties) : Stream :=
  match p.anchor with
  | some name => { s with anchors := (name, none) :: s.anchors }
  | none => s

/-- Completes the anchor whose reading began last and is not over. -/
def complete (name : String) (tree : Tree) (aliases : Nat) : Anchors → Anchors
  | [] => []
  | (other, node?) :: anchors =>
    if other == name && node?.isNone then (name, some (tree, aliases)) :: anchors
    else (other, node?) :: complete name tree aliases anchors

/-- Gives a finished node its tag and stores it under its anchor. -/
def close (s : Stream) (p : Properties) (node : Node) : Node × Stream :=
  let isScalar := match node.tree with
    | .plain _ => true
    | .string _ => true
    | _ => false
  let node := match p.tag with
    | some tag =>
      if tag == "!" && isScalar then node else { node with tree := .tagged tag node.tree }
    | none => node
  match p.anchor with
  | some name => (node, { s with anchors := complete name node.tree node.aliases s.anchors })
  | none => (node, s)

mutual

/-- Reads a node.  `block` admits block collections and `indentless` admits a sequence whose
entries stand at the column of the mapping around it. -/
def node? (handles : Handles) (block indentless : Bool) (s : Stream) :
    Nat → Option (Node × Stream)
  | 0 => none
  | fuel + 1 =>
    match s.tokens with
    | .alias name :: _ =>
      match s.anchors.lookup name with
      | none => none
      | some none => some ({ tree := .broken, aliases := 1 }, s.skip)
      | some (some (tree, aliases)) => some ({ tree := tree, aliases := aliases + 1 }, s.skip)
    | _ =>
      match properties? handles s with
      | none => none
      | some (p, s) =>
        let s := s.openAnchor p
        let finish (result : Option (Node × Stream)) : Option (Node × Stream) :=
          result.map fun (node, s) => s.close p node
        match s.tokens.head? with
        | some .blockEntry =>
          if indentless then finish (blockItems? handles true [] 0 s fuel)
          else if p.anchor.isSome || p.tag.isSome then finish (some (Node.empty, s))
          else none
        | some (.plain text) => finish (some ({ tree := .plain text }, s.skip))
        | some (.quoted text) => finish (some ({ tree := .string text }, s.skip))
        | some .flowSequenceStart => finish (flowItems? handles true [] 0 s.skip fuel)
        | some .flowMappingStart => finish (flowEntries? handles true [] 0 s.skip fuel)
        | some .blockSequenceStart =>
          if block then finish (blockItems? handles false [] 0 s.skip fuel)
          else if p.anchor.isSome || p.tag.isSome then finish (some (Node.empty, s))
          else none
        | some .blockMappingStart =>
          if block then finish (blockEntries? handles [] 0 s.skip fuel)
          else if p.anchor.isSome || p.tag.isSome then finish (some (Node.empty, s))
          else none
        | _ =>
          if p.anchor.isSome || p.tag.isSome then finish (some (Node.empty, s)) else none
termination_by structural fuel => fuel

/-- Reads the entries of a block sequence, in reverse so far. -/
def blockItems? (handles : Handles) (indentless : Bool) (items : List Tree) (aliases : Nat)
    (s : Stream) : Nat → Option (Node × Stream)
  | 0 => none
  | fuel + 1 =>
    if s.atToken .blockEntry then
      let s := s.skip
      let stops := if indentless then [Token.blockEntry, .key, .value, .blockEnd]
        else [Token.blockEntry, .blockEnd]
      let entry := if s.atAny stops then some (Node.empty, s)
        else node? handles true false s fuel
      match entry with
      | none => none
      | some (node, s) =>
        blockItems? handles indentless (node.tree :: items) (aliases + node.aliases) s fuel
    else if indentless then some ({ tree := .sequence items.reverse, aliases := aliases }, s)
    else if s.atToken .blockEnd then
      some ({ tree := .sequence items.reverse, aliases := aliases }, s.skip)
    else none
termination_by structural fuel => fuel

/-- Reads the entries of a block mapping, in reverse so far. -/
def blockEntries? (handles : Handles) (entries : List (Tree × Tree)) (aliases : Nat)
    (s : Stream) : Nat → Option (Node × Stream)
  | 0 => none
  | fuel + 1 =>
    let stops := [Token.key, .value, .blockEnd]
    if s.atToken .blockEnd then
      some ({ tree := .mapping entries.reverse, aliases := aliases }, s.skip)
    else if s.atToken .key then
      let s := s.skip
      let key := if s.atAny stops then some (Node.empty, s) else node? handles true true s fuel
      match key with
      | none => none
      | some (key, s) =>
        let value :=
          if s.atToken .value then
            let s := s.skip
            if s.atAny stops then some (Node.empty, s) else node? handles true true s fuel
          else some (Node.empty, s)
        match value with
        | none => none
        | some (value, s) =>
          blockEntries? handles ((key.tree, value.tree) :: entries)
            (aliases + key.aliases + value.aliases) s fuel
    else none
termination_by structural fuel => fuel

/-- Reads the items of a flow sequence, in reverse so far.  An item may be a mapping of one
entry without braces. -/
def flowItems? (handles : Handles) (first : Bool) (items : List Tree) (aliases : Nat)
    (s : Stream) : Nat → Option (Node × Stream)
  | 0 => none
  | fuel + 1 =>
    if s.atToken .flowSequenceEnd then
      some ({ tree := .sequence items.reverse, aliases := aliases }, s.skip)
    else if !first && !s.atToken .flowEntry then none
    else
      let s := if first then s else s.skip
      if s.atToken .key then
        let s := s.skip
        let key := if s.atAny [Token.value, .flowEntry, .flowSequenceEnd] then some (Node.empty, s)
          else node? handles false false s fuel
        match key with
        | none => none
        | some (key, s) =>
          let value :=
            if s.atToken .value then
              let s := s.skip
              if s.atAny [Token.flowEntry, .flowSequenceEnd] then some (Node.empty, s)
              else node? handles false false s fuel
            else some (Node.empty, s)
          match value with
          | none => none
          | some (value, s) =>
            flowItems? handles false (.mapping [(key.tree, value.tree)] :: items)
              (aliases + key.aliases + value.aliases) s fuel
      else if s.atToken .flowSequenceEnd then
        some ({ tree := .sequence items.reverse, aliases := aliases }, s.skip)
      else
        match node? handles false false s fuel with
        | none => none
        | some (node, s) =>
          flowItems? handles false (node.tree :: items) (aliases + node.aliases) s fuel
termination_by structural fuel => fuel

/-- Reads the entries of a flow mapping, in reverse so far. -/
def flowEntries? (handles : Handles) (first : Bool) (entries : List (Tree × Tree))
    (aliases : Nat) (s : Stream) : Nat → Option (Node × Stream)
  | 0 => none
  | fuel + 1 =>
    let stops := [Token.value, .flowEntry, .flowMappingEnd]
    if s.atToken .flowMappingEnd then
      some ({ tree := .mapping entries.reverse, aliases := aliases }, s.skip)
    else if !first && !s.atToken .flowEntry then none
    else
      let s := if first then s else s.skip
      if s.atToken .flowMappingEnd then
        some ({ tree := .mapping entries.reverse, aliases := aliases }, s.skip)
      else
        let announced := s.atToken .key
        let s := if announced then s.skip else s
        let key := if announced && s.atAny stops then some (Node.empty, s)
          else node? handles false false s fuel
        match key with
        | none => none
        | some (key, s) =>
          let value :=
            if announced && s.atToken .value then
              let s := s.skip
              if s.atAny [Token.flowEntry, .flowMappingEnd] then some (Node.empty, s)
              else node? handles false false s fuel
            else some (Node.empty, s)
          match value with
          | none => none
          | some (value, s) =>
            flowEntries? handles false ((key.tree, value.tree) :: entries)
              (aliases + key.aliases + value.aliases) s fuel
termination_by structural fuel => fuel

end

/-- Reads the directives of a document: at most one version, which is 1.1 or 1.2, and each
tag handle once. -/
def directives? (handles : Handles) (version : Bool) : List Token → Option (Handles × List Token)
  | .versionDirective major minor :: rest =>
    if version || major != 1 || !(minor == 1 || minor == 2) then none
    else directives? handles true rest
  | .tagDirective handle expansion :: rest =>
    if (handles.lookup handle).isSome then none
    else directives? ((handle, expansion) :: handles) version rest
  | rest => some (handles, rest)

/-- Reads the content of an explicit document. -/
def content? (handles : Handles) (tokens : List Token) (fuel : Nat) : Option (Node × Stream) :=
  let s : Stream := { tokens := tokens }
  match tokens.head? with
  | none => some (Node.empty, s)
  | some .documentStart => some (Node.empty, s)
  | some .documentEnd => some (Node.empty, s)
  | some (.versionDirective _ _) => some (Node.empty, s)
  | some (.tagDirective _ _) => some (Node.empty, s)
  | _ => node? handles true false s fuel

/-- Reads the only document of a stream. -/
def document? (tokens : List Token) : Option Node := do
  let fuel := 4 * tokens.length + 16
  let explicit := match tokens.head? with
    | some .documentStart => true
    | some (.versionDirective _ _) => true
    | some (.tagDirective _ _) => true
    | none => true
    | _ => false
  let (node, s) ←
    if explicit then do
      let (handles, rest) ← directives? [] false tokens
      match rest with
      | .documentStart :: rest => content? (handles ++ Handles.standard) rest fuel
      | [] => if tokens.isEmpty then some (Node.empty, { tokens := [] }) else none
      | _ => none
    else node? Handles.standard true false { tokens := tokens } fuel
  if (s.tokens.dropWhile (· == .documentEnd)).isEmpty then some node else none

end Stream

/-- Collections may nest this deep. -/
def depthLimit : Nat := 128

/-- The number of aliases that a text may expand to, per token. -/
def aliasLimit : Nat := 100

/-- The tree of a YAML text. -/
def tree? (text : String) : Option Tree := do
  let tokens ← Token.scan? text
  let node ← Stream.document? tokens
  if node.aliases > aliasLimit * tokens.length then none
  else return node.tree.clip depthLimit

end ApiModel.Yaml
