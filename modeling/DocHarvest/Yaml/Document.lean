import DocHarvest.Bytes.Base64
import DocHarvest.Yaml.Node
import DocHarvest.Yaml.Plain

/-!
# YAML Documents

From the bytes of a file to the fields of its first document. Every node becomes a value: a
scalar by its tag or by what it looks like, a mapping with the fields that it merges from
others.

## Main definitions

* `Yaml.Node.value?` — the value of a node.
* `Yaml.fields?` — the fields of the mapping that a file holds.
-/

namespace DocHarvest.Yaml

/-! ### Scalars -/

/-- An integer as a floating-point number. -/
def floatOfInt? (n : Int) : Option Double :=
  Double.ofDecimal? (n < 0) ((Nat.toDigits 10 n.natAbs).map fun c => c.toNat - 48) 0

/-- The value of a scalar, if it can have the type that its tag names. Without a tag it is what it
looks like, and under a tag that only others understand it is a text. -/
def scalarValue? (tag : Tag) (text : List Char) (plain : Bool) : Option Value :=
  match tag with
  | .unsaid => some (if plain then resolvePlain text else .text (utf8Chars text))
  | .null =>
    match word? text with
    | some .null => some .null
    | _ => none
  | .bool =>
    match word? text with
    | some (.bool b) => some (.bool b)
    | _ => none
  | .int =>
    match numeric? text with
    | some (.int n) => some (.int n)
    | _ => none
  | .float =>
    match word? text <|> numeric? text with
    | some (.float x) => some (.float x)
    | some (.int n) => if n < Numeral.wordBound then (floatOfInt? n).map .float else none
    | _ => none
  | .timestamp => (Timestamp.parse? text).map .time
  | .binary => (Base64.decode? (utf8Chars text)).map .text
  | .text | .merge | .other => some (.text (utf8Chars text))

/-! ### Keys -/

/-- Whether a node says that fields of other mappings are merged. -/
def Node.isMerge : Node → Bool
  | .scalar tag text plain =>
    text = ['<', '<'] && ((tag = .unsaid && plain) || tag = .merge)
  | _ => false

/-- Whether a node is a text when it stands as a key. -/
def Node.isTextKey : Node → Bool
  | .scalar tag text plain
  | .alias _ (some (.scalar tag text plain)) =>
    match tag with
    | .unsaid => !plain || isText (resolvePlain text)
    | .text | .merge => true
    | _ => false
  | _ => false

/-- What is written at the place of a key. Two fields of one mapping may not be written alike. -/
def Node.writing : Node → Nat × List Char
  | .scalar _ text _ => (0, text)
  | .sequence _ => (1, [])
  | .mapping _ => (2, [])
  | .alias name _ => (3, name)

/-- Whether no two fields of a mapping are written alike. -/
def distinct (entries : List (Node × Node)) : Bool :=
  decide ((entries.map fun (key, _) => key.writing).Nodup)

/-! ### Effort -/

/-- How many nodes have been evaluated, and how many of them inside aliases. -/
structure Effort where
  steps : Nat := 1
  aliased : Nat := 0
  deriving DecidableEq, Repr

/-- Whether more of the effort comes from aliases than is allowed: in a small document almost
all of it may, in a large one a tenth. -/
def Effort.isExcessive (e : Effort) : Bool :=
  let part :=
    if e.steps ≤ 400000 then 99 * 3600000
    else if 4000000 ≤ e.steps then 10 * 3600000
    else 99 * 3600000 - 89 * (e.steps - 400000)
  100 < e.aliased && 1000 < e.steps && e.steps * part < e.aliased * 360000000

/-- Counts one more node, unless that makes the effort excessive. -/
def Effort.step? (e : Effort) (inAlias : Bool) : Option Effort :=
  let next := { steps := e.steps + 1, aliased := if inAlias then e.aliased + 1 else e.aliased }
  if Effort.isExcessive next then none else some next

/-! ### Values -/

/-- The value of a scalar as a key. Where keys have to be texts, a missing value is no key, and
other values stand for what is written. -/
def scalarKey? (texts : Bool) (tag : Tag) (text : List Char) (plain : Bool) :
    Option (Option Value) := do
  match ← scalarValue? tag text plain with
  | .null => some (if texts then none else some .null)
  | .text s => some (some (.text s))
  | value => some (some (if texts then .text (utf8Chars text) else value))

/-- The value of a node as a key; only scalars can be keys. -/
def Node.key? (texts inAlias : Bool) (e : Effort) : Node → Option (Option Value × Effort)
  | .scalar tag text plain => do
    let e ← e.step? inAlias
    some (← scalarKey? texts tag text plain, e)
  | .alias _ (some (.scalar tag text plain)) => do
    let e ← e.step? inAlias
    let e ← e.step? true
    some (← scalarKey? texts tag text plain, e)
  | _ => none

mutual

/-- The value of a node. -/
def Node.value? (inAlias : Bool) : Node → Effort → Option (Value × Effort)
  | .scalar tag text plain, e => do
    let e ← e.step? inAlias
    some (← scalarValue? tag text plain, e)
  | .sequence items, e => do
    let e ← e.step? inAlias
    let (values, e) ← itemValues? inAlias items e
    some (.list values, e)
  | .mapping entries, e => do
    let e ← e.step? inAlias
    let texts := entries.all fun (key, _) => key.isTextKey
    if !distinct entries then none
    let (fields, e) ← ownFields? texts inAlias false entries [] e
    let (fields, e) ← mergedFields? texts inAlias entries fields e
    some (.table fields, e)
  | .alias _ (some node), e => do
    let e ← e.step? inAlias
    node.value? true e
  | .alias _ none, _ => none

/-- The values of the items of a sequence. -/
def itemValues? (inAlias : Bool) : List Node → Effort → Option (List Value × Effort)
  | [], e => some ([], e)
  | node :: nodes, e => do
    let (value, e) ← node.value? inAlias e
    let (values, e) ← itemValues? inAlias nodes e
    some (value :: values, e)

/-- Adds the fields that a mapping has itself. When they are merged into another mapping, the
fields already there stay. -/
def ownFields? (texts inAlias merging : Bool) :
    List (Node × Node) → Fields → Effort → Option (Fields × Effort)
  | [], fields, e => some (fields, e)
  | (key, value) :: entries, fields, e =>
    if key.isMerge then ownFields? texts inAlias merging entries fields e
    else
      match key.key? texts inAlias e with
      | none => none
      | some (none, e) => ownFields? texts inAlias merging entries fields e
      | some (some key, e) =>
        if merging && fields.has key then ownFields? texts inAlias merging entries fields e
        else
          match value.value? inAlias e with
          | none => none
          | some (value, e) =>
            ownFields? texts inAlias merging entries (fields.set key value) e

/-- Adds the fields that a mapping merges from others. -/
def mergedFields? (texts inAlias : Bool) :
    List (Node × Node) → Fields → Effort → Option (Fields × Effort)
  | [], fields, e => some (fields, e)
  | (key, value) :: entries, fields, e =>
    if key.isMerge then do
      let (fields, e) ← mergeNode? texts inAlias true value fields e
      mergedFields? texts inAlias entries fields e
    else mergedFields? texts inAlias entries fields e

/-- Adds the fields of a mapping, of the mapping an alias stands for, or of a list of those. -/
def mergeNode? (texts inAlias listAllowed : Bool) :
    Node → Fields → Effort → Option (Fields × Effort)
  | .mapping entries, fields, e => do
    let e ← e.step? inAlias
    if !distinct entries then none
    let (fields, e) ← ownFields? texts inAlias true entries fields e
    mergedFields? texts inAlias entries fields e
  | .alias _ (some (.mapping entries)), fields, e => do
    let e ← e.step? inAlias
    let e ← e.step? true
    if !distinct entries then none
    let (fields, e) ← ownFields? texts true true entries fields e
    mergedFields? texts true entries fields e
  | .sequence items, fields, e =>
    if listAllowed then mergeNodes? texts inAlias items fields e else none
  | _, _, _ => none

/-- Adds the fields of several mappings. -/
def mergeNodes? (texts inAlias : Bool) : List Node → Fields → Effort → Option (Fields × Effort)
  | [], fields, e => some (fields, e)
  | node :: nodes, fields, e => do
    let (fields, e) ← mergeNode? texts inAlias false node fields e
    mergeNodes? texts inAlias nodes fields e

end

/-- The fields of the mapping that a document holds. A document may hold nothing, or nothing but
a missing value. -/
def documentFields? : Node → Option Fields
  | .scalar tag text plain =>
    match scalarValue? tag text plain with
    | some .null => some []
    | _ => none
  | .mapping entries => do
    let e ← Effort.step? {} false
    if !distinct entries then none
    let (fields, e) ← ownFields? true false false entries [] e
    let (fields, _) ← mergedFields? true false entries fields e
    some fields
  | _ => none

/-- The fields of the mapping that a file holds. -/
def fields? (s : Bytes) : Option Fields := do
  match ← document? (tokens (supply s)) with
  | none => some []
  | some node => documentFields? node

end DocHarvest.Yaml
