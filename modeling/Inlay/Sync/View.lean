import Inlay.Sync.Position
import Inlay.Text.Outline
import Inlay.Text.Literal

namespace Inlay

namespace Inlaid

/-- What an inlaid node shows: type, index, path, whether removed, model name and whether it is
inlined, payload, and the children's dumps. -/
inductive Dump where
  | mk (kind : String) (index : Except Fault Nat) (path : Except Fault Path) (removed : Bool)
      (model : Option (String × Bool)) (payload : Toml.Table) (children : List Dump)
  deriving Inhabited

end Inlaid

namespace Sync.State

/-- The dump of one node with the given children's dumps. -/
def dumpWith (s : State) (id : InlaidId) (children : List Inlaid.Dump) : Inlaid.Dump :=
  let m := s.node id
  let src := s.forest.node m.source
  .mk src.kind (s.indexOf id) (s.pathOf id) m.placement.isFrozen
    (m.inlining.map fun i => (i.name, i.hidden.isSome)) src.payload children

/-- The dump of a subtree, down to `fuel` levels. -/
def dumpWithin (s : State) : Nat → InlaidId → Inlaid.Dump
  | 0, id => s.dumpWith id []
  | fuel + 1, id => s.dumpWith id ((s.node id).children.map (s.dumpWithin fuel))

/-- The dump of a subtree. -/
def dump (s : State) (id : InlaidId) : Inlaid.Dump := s.dumpWithin (s.nodes.size + 1) id

/-- The dump of one node without its children. -/
def summary (s : State) (id : InlaidId) : Inlaid.Dump := s.dumpWith id []

/-- The written path of a node, or its fault between angle brackets. -/
def pathText (s : State) (id : InlaidId) : String :=
  match s.pathOf id with
  | .ok p => p.render
  | .error e => "<" ++ e.message ++ ">"

/-- The outline line of a node; `inlined` marks an inlined root. -/
def outlineLabel (s : State) (id : InlaidId) (inlined : Bool) : String :=
  let m := s.node id
  let model := match m.inlining with
    | some i => if i.hidden.isSome then " [model " ++ i.name ++ "]"
      else " [model " ++ i.name ++ ", not inlined]"
    | none => ""
  (s.forest.node m.source).kind ++ " " ++ s.pathText id ++ model ++
    (if inlined then " (inlined)" else "") ++ (if m.placement.isFrozen then " (removed)" else "")

/-- The outline of a subtree, down to `fuel` levels. -/
def outlineWithin (s : State) : Nat → InlaidId → Bool → Outline
  | 0, id, inlined => .node (s.outlineLabel id inlined) []
  | fuel + 1, id, inlined =>
    let m := s.node id
    let hidden := m.inlining.bind (·.hidden)
    .node (s.outlineLabel id inlined)
      (m.children.map fun c => s.outlineWithin fuel c (hidden = some c))

/-- The outline of a subtree. -/
def outline (s : State) (id : InlaidId) : Outline := s.outlineWithin (s.nodes.size + 1) id false

/-- A one-line description: type, model and whether inlined (model nodes only), number of
children, whether removed. -/
def describe (s : State) (id : InlaidId) : String :=
  let m := s.node id
  let model := match m.inlining with
    | some i => ", model: " ++ Text.literal i.name ++ ", expanded: " ++ toString i.hidden.isSome
    | none => ""
  "DeepNode \x7b type_id: " ++ Text.literal (s.forest.node m.source).kind ++ model ++
    ", children: " ++ toString m.children.length ++ ", removed: " ++
    toString m.placement.isFrozen ++ " \x7d"

end Sync.State

end Inlay
