import Inlay.Toml.Datetime

namespace Inlay.Toml

/-- A TOML value. Tables are entry lists in ascending key order. -/
inductive Value where
  | string (s : String)
  | integer (n : Int)
  | float (x : Float)
  | boolean (b : Bool)
  | datetime (d : Datetime)
  | array (items : List Value)
  | table (entries : List (String × Value))
  deriving Inhabited

/-- A table: entries in ascending key order, one per key. -/
abbrev Table := List (String × Value)

namespace Table

/-- The value stored under `key`. -/
def get? (t : Table) (key : String) : Option Value :=
  (t.find? (·.1 == key)).map (·.2)

/-- Stores `v` under `key`, replacing an entry of that key, keeping keys ascending. -/
def insert : Table → String → Value → Table
  | [], key, v => [(key, v)]
  | (k, w) :: rest, key, v =>
    if key < k then (key, v) :: (k, w) :: rest
    else if key = k then (key, v) :: rest
    else (k, w) :: insert rest key v

/-- The table without the entry of `key`. -/
def erase (t : Table) (key : String) : Table :=
  t.filter (·.1 != key)

/-- Takes the entry of `key` out: its value, if any, and the rest of the table. -/
def take (t : Table) (key : String) : Option Value × Table :=
  (t.get? key, t.erase key)

/-- The keys, ascending. -/
def keys (t : Table) : List String := t.map (·.1)

end Table

end Inlay.Toml
