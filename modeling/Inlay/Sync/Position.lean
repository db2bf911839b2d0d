import Inlay.Sync.State

namespace Inlay.Sync.State

/-- The index of the inlined slot: the last child, if the model is inlined. -/
def modelChildIndex (s : State) (id : InlaidId) : Except Fault Nat :=
  let m := s.node id
  match m.inlining with
  | some i => if i.hidden.isSome then .ok (m.children.length - 1) else .error (.notExpanded i.name)
  | none => .error (.notExpanded (s.forest.node m.source).kind)

/-- The index of an inlaid node. -/
def indexOf (s : State) (id : InlaidId) : Except Fault Nat :=
  let m := s.node id
  match m.placement with
  | .primary | .modelChild _ => .ok (s.forest.childIndex m.source)
  | .modelRoot owner => s.modelChildIndex owner
  | .frozen index _ => .ok index

mutual

/-- The path of an inlaid node, with `fuel` steps to climb. -/
def pathWithin (s : State) : Nat → InlaidId → Except Fault Path
  | 0, _ => .ok Path.root
  | fuel + 1, id =>
    let m := s.node id
    match m.placement with
    | .primary => .ok (s.forest.path m.source)
    | .modelRoot owner => s.modelPathWithin fuel owner
    | .modelChild owner =>
      match s.modelPathWithin fuel owner with
      | .ok base => .ok (base.join (s.forest.path m.source))
      | .error e => .error e
    | .frozen _ path => .ok path

/-- The path of the inlined slot of a model node, with `fuel` steps to climb. -/
def modelPathWithin (s : State) : Nat → InlaidId → Except Fault Path
  | 0, _ => .ok Path.root
  | fuel + 1, id =>
    match s.modelChildIndex id with
    | .error e => .error e
    | .ok index =>
      if index = 0 then
        match s.pathWithin fuel id with
        | .ok p => .ok ((p.child s.slotKey).child "0")
        | .error e => .error e
      else
        match s.pathWithin fuel ((s.node id).children.headD default) with
        | .ok sibling =>
          if sibling.isListElement then .ok (sibling.parent.listChild index)
          else .ok (sibling.parent.child (toString index))
        | .error e => .error e

end

/-- Enough fuel for any path query: twice the number of nodes, and two. -/
def pathFuel (s : State) : Nat := 2 * s.nodes.size + 2

/-- The path of an inlaid node. -/
def pathOf (s : State) (id : InlaidId) : Except Fault Path := s.pathWithin s.pathFuel id

/-- The path of the inlined slot of a model node. -/
def modelPath (s : State) (id : InlaidId) : Except Fault Path :=
  s.modelPathWithin s.pathFuel id

/-- The placement a node takes when removed: its current index and path, captured; a removed
node keeps what it has. -/
def removedPlacement (s : State) (id : InlaidId) : Except Fault Placement :=
  let m := s.node id
  match m.placement with
  | .frozen _ _ => .ok m.placement
  | _ =>
    match s.indexOf id with
    | .error e => .error e
    | .ok index =>
      match s.pathOf id with
      | .ok path => .ok (.frozen index path)
      | .error e => .error e

/-- Whether the node or one of its ancestors still there is a model node of that name, with
`fuel` steps to climb. -/
def usesModelWithin (s : State) (alive : InlaidId → Bool) (name : String) :
    Nat → InlaidId → Bool
  | 0, _ => false
  | fuel + 1, id =>
    let m := s.node id
    if (m.inlining.map (·.name)) = some name then true
    else
      match m.parent with
      | some p => alive p && s.usesModelWithin alive name fuel p
      | none => false

/-- Whether the node or one of its ancestors for which `alive` holds is a model node of that
name. -/
def usesModel (s : State) (alive : InlaidId → Bool) (id : InlaidId) (name : String) : Bool :=
  s.usesModelWithin alive name (s.nodes.size + 1) id

/-- The nodes of the subtree below `id`, down to `fuel` levels. -/
def subtreeWithin (s : State) : Nat → InlaidId → List InlaidId
  | 0, id => [id]
  | fuel + 1, id => id :: ((s.node id).children.flatMap (s.subtreeWithin fuel))

/-- The nodes of the subtree below `id`. -/
def subtree (s : State) (id : InlaidId) : List InlaidId := s.subtreeWithin (s.nodes.size + 1) id

/-- The nodes that can still be reached from the given holders: the holders and everything
below them. A node that none of them reaches is gone, and a parent that is gone is no longer
anyone's parent. -/
def reachable (s : State) (holders : List InlaidId) : List InlaidId :=
  holders.flatMap s.subtree

/-- The parent of a node, if it can still be reached from the holders. -/
def parentAmong (s : State) (holders : List InlaidId) (id : InlaidId) : Option InlaidId :=
  match (s.node id).parent with
  | some p => if p ∈ s.reachable holders then some p else none
  | none => none

end Inlay.Sync.State
