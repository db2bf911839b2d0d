import Inlay.Source.Forest
import Inlay.Toml.Read

namespace Inlay

/-- What can be wrong with a node description. -/
inductive NodeFault where
  | typeNotString
  | typeMissing
  | modelNotString
  | childNotTable
  | childrenNotArray
  deriving DecidableEq, Repr

/-- The reason as it is reported. -/
def NodeFault.reason : NodeFault → String
  | .typeNotString => "'type' must be a string"
  | .typeMissing => "missing 'type'"
  | .modelNotString => "'model' must be a string"
  | .childNotTable => "children must be tables"
  | .childrenNotArray => "children must be an array of tables"

/-- A node document that could not be read, or does not describe a node. -/
inductive DocumentError where
  | unreadable (e : Toml.ReadError)
  | invalidNode (at_ : Path) (fault : NodeFault)
  deriving Inhabited

/-- The report of a document error. -/
def DocumentError.message : DocumentError → String
  | .unreadable e => "parse error: " ++ e.report
  | .invalidNode at_ fault => "invalid node at " ++ at_.render ++ ": " ++ fault.reason

namespace Source.Draft

mutual

/-- Describes the node of a table found at `at_`, with children under `key`. -/
def ofTable (key : String) (at_ : Path) (table : Toml.Table) : Except DocumentError Draft := do
  let (kind, rest) := table.take "type"
  let kind ← match kind with
    | some (.string s) => pure s
    | some _ => throw (.invalidNode at_ .typeNotString)
    | none => throw (.invalidNode at_ .typeMissing)
  let (model, rest) := rest.take "model"
  let model ← match model with
    | some (.string s) => pure (some s)
    | some _ => throw (.invalidNode at_ .modelNotString)
    | none => pure none
  if key = "type" ∨ key = "model" then
    return .mk kind model rest []
  let children ← childrenIn key at_ table
  return .mk kind model (rest.erase key) children
termination_by (sizeOf table, 1)

/-- The children listed under `key` among the entries of a table at `at_`. -/
def childrenIn (key : String) (at_ : Path) :
    List (String × Toml.Value) → Except DocumentError (List Draft)
  | [] => pure []
  | (k, v) :: rest =>
    if k = key then
      match v with
      | .array items => ofItems key at_ 0 items
      | _ => throw (.invalidNode at_ .childrenNotArray)
    else childrenIn key at_ rest
termination_by entries => (sizeOf entries, 0)

/-- Describes the children found under `key` at `at_`, counting from `index`. -/
def ofItems (key : String) (at_ : Path) (index : Nat) :
    List Toml.Value → Except DocumentError (List Draft)
  | [] => pure []
  | .table t :: rest => do
    let first ← ofTable key ((at_.child key).listChild index) t
    let others ← ofItems key at_ (index + 1) rest
    return first :: others
  | _ :: _ => throw (.invalidNode at_ .childNotTable)
termination_by items => (sizeOf items, 0)

end

/-- Reads a node document with children under `key`. -/
def ofDocument (text : String) (key : String) : Except DocumentError Draft :=
  match Toml.read text with
  | .ok table => ofTable key Path.root table
  | .error e => .error (.unreadable e)

end Source.Draft

end Inlay

namespace Inlay

namespace Source.Forest

/-- A forest of one tree read from a node document, addressed in `style`, with the id of its
root. -/
def ofDocument (text : String) (style : Style) : Except DocumentError (Forest × SourceId) := do
  let draft ← Draft.ofDocument text style.key
  let (id, f) := Forest.empty.plant draft
  let (_, f) := f.addTree ⟨style, none, some id, Slots.empty⟩
  return (f.adopt style id, id)

end Source.Forest

end Inlay
