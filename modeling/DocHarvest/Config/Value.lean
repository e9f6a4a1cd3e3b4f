import DocHarvest.Config.Timestamp
import DocHarvest.Decimal.Double

/-!
# Values of Configuration Files

What a configuration file can hold, whatever its format, and how a value reads as text.
-/

namespace DocHarvest

/-- A value in a configuration file. -/
inductive Value
  | null
  | bool (b : Bool)
  | int (n : Int)
  | float (x : Double)
  | time (t : Timestamp)
  | text (s : Bytes)
  | list (items : List Value)
  | table (fields : List (Value × Value))
  deriving Repr

namespace Value

/-- A value as text. Lists and tables have no text of their own. -/
def asText : Value → Bytes
  | null => []
  | bool b => utf8 (if b then "true" else "false")
  | int n => decimal n
  | float x => x.text
  | time t => t.text
  | text s => s
  | list _ => []
  | table _ => []

/-- Whether a value is missing. -/
def isNull : Value → Bool
  | null => true
  | _ => false

/-- The fields of a table. -/
def fields? : Value → Option (List (Value × Value))
  | table fields => some fields
  | _ => none

end Value

/-- The fields of a table. -/
abbrev Fields := List (Value × Value)

namespace Fields

/-- Whether there is a field with the same key. -/
def has (fields : Fields) (key : Value) : Bool :=
  fields.any fun (k, _) => k.asText = key.asText

/-- Sets a field, in place of one with the same key. -/
def set (fields : Fields) (key value : Value) : Fields :=
  if fields.has key then
    fields.map fun (k, v) => if k.asText = key.asText then (key, value) else (k, v)
  else fields ++ [(key, value)]

end Fields

end DocHarvest
