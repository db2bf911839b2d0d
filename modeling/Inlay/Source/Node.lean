import Inlay.Path
import Inlay.Toml.Value

namespace Inlay

/-- How children are addressed below their parent: as keys (`/attachments/0`) or as list
elements (`/attachments[0]`). -/
inductive Layout where
  | keyed
  | list
  deriving DecidableEq, Repr, Inhabited

/-- The key under which children are listed, and their layout. -/
structure Style where
  key : String
  layout : Layout
  deriving DecidableEq, Repr, Inhabited

/-- The key `attachments` with keyed addresses. -/
def Style.standard : Style := ⟨"attachments", .keyed⟩

/-- The name of a source node in its forest. -/
structure SourceId where
  val : Nat
  deriving DecidableEq, Repr, Inhabited

namespace Source

/-- A configuration node of a source tree. -/
structure Node where
  kind : String
  model : Option String
  payload : Toml.Table
  children : List SourceId
  /-- The node whose children list holds this one, while it is in a tree. -/
  parent : Option SourceId
  style : Style
  /-- The index and path captured when the node left its tree. -/
  detached : Option (Nat × Path)
  deriving Inhabited

/-- A node of the given type, model, payload and children that belongs to no tree yet. -/
def Node.fresh (kind : String) (model : Option String) (payload : Toml.Table)
    (children : List SourceId) : Node :=
  ⟨kind, model, payload, children, none, Style.standard, none⟩

end Source

end Inlay
