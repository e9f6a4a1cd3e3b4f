import DocHarvest.Yaml.Token

/-!
# YAML Nodes

The tokens of a document are put together to a tree of scalars, sequences and mappings. A node
can carry an anchor, under which a later alias finds it again. An alias holds the node it stands
for, so the tree needs no table of anchors; inside its own node an alias stands for nothing.

## Main definitions

* `Yaml.Tag` — what a node says about its type.
* `Yaml.Node` — the nodes.
* `Yaml.Reading` — the tokens ahead and the anchors and tag handles that are known.
* `Yaml.readNode` — the node at the start of the tokens.
* `Yaml.document?` — the node of the first document in a stream of tokens.
-/

namespace DocHarvest.Yaml

/-- What a node says about its type: nothing, one of YAML's own types, or something that only
others understand. -/
inductive Tag
  | unsaid
  | null
  | bool
  | int
  | float
  | timestamp
  | binary
  | text
  | merge
  | other
  deriving DecidableEq, Repr

/-- A node of a document. -/
inductive Node
  | scalar (tag : Tag) (text : List Char) (plain : Bool)
  | sequence (items : List Node)
  | mapping (entries : List (Node × Node))
  | alias (name : List Char) (target? : Option Node)
  deriving Repr

/-- What stands where a node was left out. -/
def Node.empty : Node := .scalar .unsaid [] true

/-- A name given to a node: the number tells nodes of the same name apart, and the node is
missing as long as it is being read. -/
structure Anchor where
  name : List Char
  number : Nat
  node? : Option Node
  deriving Repr

/-- The state of reading nodes: the tokens ahead, the anchors, the number of the next node, and
the tag handles. -/
structure Reading where
  tokens : List Token
  anchors : List Anchor := []
  number : Nat := 0
  handles : List (Bytes × Bytes) := []
  deriving Repr

/-! ### Tags -/

/-- What the tags of YAML itself start with, in the long form. -/
def standardStem : Bytes := utf8 "tag:yaml.org,2002:"

/-- What the tags of YAML itself start with, in the short form. -/
def shortStem : Bytes := utf8 "!!"

/-- The tag handles that need no directive. -/
def standardHandles : List (Bytes × Bytes) :=
  [(utf8 "!", utf8 "!"), (utf8 "!!", standardStem)]

/-- The tags with a meaning, by their names. -/
def standardTags : List (Bytes × Tag) :=
  [(utf8 "null", .null), (utf8 "bool", .bool), (utf8 "int", .int), (utf8 "float", .float),
    (utf8 "timestamp", .timestamp), (utf8 "binary", .binary), (utf8 "str", .text),
    (utf8 "merge", .merge)]

/-- The meaning of a tag. A single exclamation mark says nothing. -/
def Tag.ofBytes (s : Bytes) : Tag :=
  if s = utf8 "!" then .unsaid
  else
    match Bytes.dropStem? standardStem s <|> Bytes.dropStem? shortStem s with
    | some name => (standardTags.lookup name).getD .other
    | none => .other

/-- The tag that a handle and a suffix spell. -/
def spelledTag? (handles : List (Bytes × Bytes)) (handle suffix : Bytes) : Option Bytes :=
  if handle.isEmpty then some suffix
  else
    match handles.lookup handle with
    | some stem => if (stem ++ suffix).isEmpty then none else some (stem ++ suffix)
    | none => none

/-! ### Anchors -/

/-- Gives a number and perhaps a name to a node that is about to be read. -/
def Reading.announce (r : Reading) (name? : Option (List Char)) : Reading :=
  match name? with
  | none => { r with number := r.number + 1 }
  | some name =>
    { r with
      number := r.number + 1
      anchors := ⟨name, r.number, none⟩ :: r.anchors.filter fun anchor => anchor.name ≠ name }

/-- Fills in the node that has been read under a number. -/
def Reading.settle (r : Reading) (number : Nat) (node : Node) : Reading :=
  { r with
    anchors := r.anchors.map fun anchor =>
      if anchor.number = number then { anchor with node? := some node } else anchor }

/-- What a node carries in front: an anchor and a tag, each at most once, in either order. -/
structure Properties where
  anchor? : Option (List Char) := none
  tag : Tag := .unsaid
  given : Bool := false
  deriving Repr

/-- Reads what a node carries in front. -/
def readProperties (r : Reading) : Option (Properties × Reading) :=
  match r.tokens with
  | .anchor name :: .tag handle suffix :: rest
  | .tag handle suffix :: .anchor name :: rest =>
    (spelledTag? r.handles handle suffix).map fun tag =>
      ({ anchor? := some name, tag := .ofBytes tag, given := true }, { r with tokens := rest })
  | .anchor name :: rest =>
    some ({ anchor? := some name, given := true }, { r with tokens := rest })
  | .tag handle suffix :: rest =>
    (spelledTag? r.handles handle suffix).map fun tag =>
      ({ tag := .ofBytes tag, given := true }, { r with tokens := rest })
  | _ => some ({}, r)

/-! ### Nodes -/

/-- Whether a block mapping leaves out a node here. -/
def endsBlockField : Token → Bool
  | .key | .value | .blockEnd => true
  | _ => false

/-- Whether a flow collection leaves out a node here. -/
def endsFlowField (closing : Token) (token : Token) : Bool :=
  token = .flowEntry || token = closing

mutual

/-- Reads the node at the start of the tokens. Block collections are allowed only where the first
flag says so, and entries without a block of their own where the second does. The fuel bounds the
depth of the recursion. -/
def readNode (block indentless : Bool) : Nat → Reading → Option (Node × Reading)
  | 0, _ => none
  | fuel + 1, r =>
    match r.tokens with
    | .alias name :: rest =>
      (r.anchors.find? fun anchor => anchor.name = name).map fun anchor =>
        (.alias name anchor.node?, { r with tokens := rest })
    | _ =>
      match readProperties r with
      | none => none
      | some (properties, after) =>
        let inside := after.announce properties.anchor?
        let finish (read : Option (Node × Reading)) : Option (Node × Reading) :=
          read.map fun (node, r) => (node, r.settle after.number node)
        match inside.tokens with
        | [] => none
        | token :: rest =>
          let onward := { inside with tokens := rest }
          match token, block, indentless with
          | .blockEntry, _, true =>
            finish ((readItems true fuel inside).map fun (items, r) => (.sequence items, r))
          | .scalar text plain, _, _ => finish (some (.scalar properties.tag text plain, onward))
          | .flowSequenceStart, _, _ =>
            finish ((readFlowItems true fuel onward).map fun (items, r) => (.sequence items, r))
          | .flowMappingStart, _, _ =>
            finish ((readFlowFields true fuel onward).map fun (entries, r) => (.mapping entries, r))
          | .sequenceStart, true, _ =>
            finish ((readItems false fuel onward).map fun (items, r) => (.sequence items, r))
          | .mappingStart, true, _ =>
            finish ((readFields fuel onward).map fun (entries, r) => (.mapping entries, r))
          | _, _, _ =>
            if properties.given then finish (some (.scalar properties.tag [] true, inside))
            else none

/-- Reads the items of a block sequence; one without a block of its own ends where no further
entry follows. -/
def readItems (indentless : Bool) : Nat → Reading → Option (List Node × Reading)
  | 0, _ => none
  | fuel + 1, r =>
    match r.tokens with
    | .blockEntry :: token :: rest =>
      let onward := { r with tokens := token :: rest }
      let leftOut := token = .blockEntry || token = .blockEnd ||
        (indentless && endsBlockField token)
      let item := if leftOut then some (.empty, onward) else readNode true false fuel onward
      match item with
      | none => none
      | some (node, next) =>
        (readItems indentless fuel next).map fun (nodes, r) => (node :: nodes, r)
    | .blockEnd :: rest => some ([], if indentless then r else { r with tokens := rest })
    | _ :: _ => if indentless then some ([], r) else none
    | [] => none

/-- Reads the fields of a block mapping. -/
def readFields : Nat → Reading → Option (List (Node × Node) × Reading)
  | 0, _ => none
  | fuel + 1, r =>
    match r.tokens with
    | .key :: token :: rest =>
      let onward := { r with tokens := token :: rest }
      let key :=
        if endsBlockField token then some (.empty, onward) else readNode true true fuel onward
      match key with
      | none => none
      | some (key, next) =>
        let value :=
          match next.tokens with
          | .value :: token :: rest =>
            let onward := { next with tokens := token :: rest }
            if endsBlockField token then some (.empty, onward) else readNode true true fuel onward
          | [.value] => none
          | [] => none
          | _ => some (.empty, next)
        match value with
        | none => none
        | some (value, next) =>
          (readFields fuel next).map fun (entries, r) => ((key, value) :: entries, r)
    | .blockEnd :: rest => some ([], { r with tokens := rest })
    | _ => none

/-- Reads the items of a sequence in brackets. A key in front of an item makes it a mapping
with one field. -/
def readFlowItems (first : Bool) : Nat → Reading → Option (List Node × Reading)
  | 0, _ => none
  | fuel + 1, r =>
    match r.tokens, first with
    | .flowSequenceEnd :: rest, _ => some ([], { r with tokens := rest })
    | .flowEntry :: .flowSequenceEnd :: rest, false => some ([], { r with tokens := rest })
    | .flowEntry :: rest, false => readFlowItem fuel { r with tokens := rest }
    | _, true => readFlowItem fuel r
    | _, false => none

/-- Reads an item of a sequence in brackets, and those after it. -/
def readFlowItem : Nat → Reading → Option (List Node × Reading)
  | 0, _ => none
  | fuel + 1, r =>
    let item :=
      match r.tokens with
      | .key :: token :: rest =>
        let key :=
          if token = .value || endsFlowField .flowSequenceEnd token then
            some (.empty, { r with tokens := rest })
          else readNode false false fuel { r with tokens := token :: rest }
        match key with
        | none => none
        | some (key, next) =>
          (readFlowValue .flowSequenceEnd fuel next).map fun (value, r) =>
            (.mapping [(key, value)], r)
      | _ => readNode false false fuel r
    match item with
    | none => none
    | some (node, next) =>
      (readFlowItems false fuel next).map fun (nodes, r) => (node :: nodes, r)

/-- Reads the value after a key in brackets. -/
def readFlowValue (closing : Token) : Nat → Reading → Option (Node × Reading)
  | 0, _ => none
  | fuel + 1, r =>
    match r.tokens with
    | .value :: token :: rest =>
      let onward := { r with tokens := token :: rest }
      if endsFlowField closing token then some (.empty, onward)
      else readNode false false fuel onward
    | [.value] => none
    | [] => none
    | _ => some (.empty, r)

/-- Reads the fields of a mapping in braces. -/
def readFlowFields (first : Bool) : Nat → Reading → Option (List (Node × Node) × Reading)
  | 0, _ => none
  | fuel + 1, r =>
    match r.tokens, first with
    | .flowMappingEnd :: rest, _ => some ([], { r with tokens := rest })
    | .flowEntry :: .flowMappingEnd :: rest, false => some ([], { r with tokens := rest })
    | .flowEntry :: rest, false => readFlowField fuel { r with tokens := rest }
    | _, true => readFlowField fuel r
    | _, false => none

/-- Reads a field of a mapping in braces, and those after it. A node that is no key has an empty
value. -/
def readFlowField : Nat → Reading → Option (List (Node × Node) × Reading)
  | 0, _ => none
  | fuel + 1, r =>
    let field :=
      match r.tokens with
      | .key :: token :: rest =>
        let onward := { r with tokens := token :: rest }
        let key :=
          if token = .value || endsFlowField .flowMappingEnd token then some (.empty, onward)
          else readNode false false fuel onward
        match key with
        | none => none
        | some (key, next) =>
          (readFlowValue .flowMappingEnd fuel next).map fun (value, r) => ((key, value), r)
      | _ => (readNode false false fuel r).map fun (node, r) => ((node, .empty), r)
    match field with
    | none => none
    | some (entry, next) =>
      (readFlowFields false fuel next).map fun (entries, r) => (entry :: entries, r)

end

/-! ### Documents -/

/-- Reads the directives in front of a document: one version, which has to be 1.1, and handles,
each at most once. -/
def readDirectives : Bool → List (Bytes × Bytes) → List Token →
    Option (List (Bytes × Bytes) × List Token)
  | versioned, handles, .version major minor :: rest =>
    if versioned || major ≠ 1 || minor ≠ 1 then none else readDirectives true handles rest
  | versioned, handles, .tagHandle handle stem :: rest =>
    if (handles.lookup handle).isSome then none
    else readDirectives versioned (handles ++ [(handle, stem)]) rest
  | _, handles, rest => some (handles, rest)

/-- Whether a document that has been started holds nothing. -/
def endsDocument : Token → Bool
  | .version .. | .tagHandle .. | .documentStart | .documentEnd | .streamEnd => true
  | _ => false

/-- The node of the first document in a stream of tokens; nothing when there is no document.
Tokens after the document do not matter, but there has to be one. -/
def document? (tokens : List Token) : Option (Option Node) :=
  let fuel := 3 * tokens.length + 3
  let whole (read : Option (Node × Reading)) : Option (Option Node) :=
    match read with
    | some (node, r) => if r.tokens.isEmpty then none else some (some node)
    | none => none
  match tokens with
  | .streamStart :: rest =>
    match rest with
    | [] => none
    | .streamEnd :: _ => some none
    | .version .. :: _ | .tagHandle .. :: _ | .documentStart :: _ =>
      match readDirectives false [] rest with
      | some (handles, .documentStart :: token :: rest) =>
        if endsDocument token then some (some .empty)
        else
          whole (readNode true false fuel
            { tokens := token :: rest, handles := handles ++ standardHandles })
      | _ => none
    | _ => whole (readNode true false fuel { tokens := rest, handles := standardHandles })
  | _ => none

end DocHarvest.Yaml
