import Inlay.Toml.Value
import Inlay.Toml.Scan

namespace Inlay.Toml

/-- A key with the span it was written over. -/
structure Key where
  name : String
  span : Span
  deriving Repr

/-- A value or table as read. -/
inductive Item where
  /-- A string, integer, float, boolean or datetime. -/
  | value (v : Value) (span : Span)
  /-- An array written in brackets. -/
  | array (items : List Item) (span : Span)
  /-- A table written in braces, or made inside one by a dotted key. -/
  | inline (entries : List (Key × Item)) (implicit dotted : Bool) (span : Option Span)
  /-- A table of the document: under a header, or made by a dotted key or a deeper header. -/
  | table (entries : List (Key × Item)) (implicit dotted : Bool) (span : Option Span)
  /-- The tables of repeated `[[…]]` headers. -/
  | tables (items : List Item) (span : Option Span)
  deriving Inhabited

/-- Entries of a table as read, in the order written. -/
abbrev Entries := List (Key × Item)

namespace Entries

/-- The item under the key named `name`. -/
def lookup (es : Entries) (name : String) : Option Item :=
  (es.find? (·.1.name == name)).map (·.2)

/-- The item under `key` replaced, keeping the key it was first given under, or appended when
there is none. -/
def put (es : Entries) (key : Key) (it : Item) : Entries :=
  if es.any (·.1.name == key.name) then
    es.map (fun e => if e.1.name == key.name then (e.1, it) else e)
  else es ++ [(key, it)]

/-- The entries without the key named `name`. -/
def remove (es : Entries) (name : String) : Entries :=
  es.filter (·.1.name != name)

end Entries

namespace Item

/-- The stretch of text an item was read from, when it has one. -/
def span? : Item → Option Span
  | .value _ s => some s
  | .array _ s => some s
  | .inline _ _ _ s => s
  | .table _ _ _ s => s
  | .tables _ s => s

/-- The name of an item's kind, as messages give it. -/
def kindName : Item → String
  | .value (.string _) _ => "string"
  | .value (.integer _) _ => "integer"
  | .value (.float _) _ => "float"
  | .value (.boolean _) _ => "boolean"
  | .value (.datetime _) _ => "datetime"
  | .value (.array _) _ => "array"
  | .value (.table _) _ => "inline table"
  | .array _ _ => "array"
  | .inline _ _ _ _ => "inline table"
  | .table _ _ _ _ => "table"
  | .tables _ _ => "array of tables"

mutual

/-- The value an item stands for; tables become entry lists in ascending key order. -/
def toValue : Item → Value
  | .value v _ => v
  | .array items _ => .array (toValues items)
  | .inline entries _ _ _ => .table (entriesToTable entries)
  | .table entries _ _ _ => .table (entriesToTable entries)
  | .tables items _ => .array (toValues items)

/-- The values of a list of items. -/
def toValues : List Item → List Value
  | [] => []
  | it :: rest => toValue it :: toValues rest

/-- The table of a list of entries. -/
def entriesToTable : List (Key × Item) → Table
  | [] => []
  | (k, it) :: rest => (entriesToTable rest).insert k.name (toValue it)

end

end Item

end Inlay.Toml
