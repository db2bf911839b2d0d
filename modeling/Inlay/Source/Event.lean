import Inlay.Source.Node

namespace Inlay

/-- What happened to a node. -/
inductive Change where
  | added
  | removed
  | changed
  deriving DecidableEq, Repr, Inhabited

namespace Change

/-- The event name: `added`, `removed`, `changed`. -/
def name : Change → String
  | .added => "added"
  | .removed => "removed"
  | .changed => "changed"

/-- The change as a title: `Added`, `Removed`, `Changed`. -/
def title : Change → String
  | .added => "Added"
  | .removed => "Removed"
  | .changed => "Changed"

end Change

namespace Source

/-- A structural change in a source tree, at an address of child indices. -/
inductive Event where
  | added (address : List Nat) (node : SourceId)
  | removed (address : List Nat)
  | changed (address : List Nat)
  deriving DecidableEq, Repr

namespace Event

/-- The kind of change. -/
def change : Event → Change
  | .added _ _ => .added
  | .removed _ => .removed
  | .changed _ => .changed

/-- The address of the changed node. -/
def address : Event → List Nat
  | .added a _ | .removed a | .changed a => a

/-- The event name directly followed by the address as a bracketed, comma-separated list. -/
def describe (e : Event) : String :=
  e.change.name ++ "[" ++ ", ".intercalate (e.address.map toString) ++ "]"

end Event

end Source

end Inlay
