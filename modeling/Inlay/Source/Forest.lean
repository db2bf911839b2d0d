import Inlay.Fault
import Inlay.Slots
import Inlay.Source.Event

namespace Inlay

/-- The name of a source tree in its forest. -/
structure TreeId where
  val : Nat
  deriving DecidableEq, Repr, Inhabited

/-- The name of a subscriber of source trees. -/
structure SubscriberId where
  val : Nat
  deriving DecidableEq, Repr, Inhabited

namespace Source

/-- A source tree: its style, the model it serves if any, its root and its subscribers. -/
structure Tree where
  style : Style
  serving : Option String
  root : Option SourceId
  subscribers : Slots SubscriberId

instance : Inhabited Tree := ⟨⟨Style.standard, none, none, Slots.empty⟩⟩

/-- A node description, not yet in a forest: type, model, payload and children. -/
inductive Draft where
  | mk (kind : String) (model : Option String) (payload : Toml.Table) (children : List Draft)
  deriving Inhabited

/-- What a source node shows: type, index, path, model, whether it left its tree, payload and
children. -/
inductive Dump where
  | mk (kind : String) (index : Nat) (path : Path) (model : Option String) (detached : Bool)
      (payload : Toml.Table) (children : List Dump)
  deriving Inhabited

/-- All source nodes and trees of a session. -/
structure Forest where
  nodes : Array Node
  trees : Array Tree
  deriving Inhabited

namespace Forest

/-- The forest with no node and no tree. -/
def empty : Forest := ⟨#[], #[]⟩

/-- The node of an id. -/
def node (f : Forest) (id : SourceId) : Node := f.nodes.getD id.val default

/-- The tree of an id. -/
def tree (f : Forest) (t : TreeId) : Tree := f.trees.getD t.val default

/-- Changes one node. -/
def modifyNode (f : Forest) (id : SourceId) (g : Node → Node) : Forest :=
  { f with nodes := f.nodes.modify id.val g }

/-- Changes one tree. -/
def modifyTree (f : Forest) (t : TreeId) (g : Tree → Tree) : Forest :=
  { f with trees := f.trees.modify t.val g }

/-- Adds a node under a new id. -/
def addNode (f : Forest) (n : Node) : SourceId × Forest :=
  (⟨f.nodes.size⟩, { f with nodes := f.nodes.push n })

/-- Adds a tree under a new id. -/
def addTree (f : Forest) (t : Tree) : TreeId × Forest :=
  (⟨f.trees.size⟩, { f with trees := f.trees.push t })

/-- Adds the nodes of a description, the children before their parent. None of them is linked
to a parent: until a tree takes them, each has index `0` and the root path. -/
def plant (f : Forest) : Draft → SourceId × Forest
  | .mk kind model payload children =>
    let (ids, f) := plantAll f children
    f.addNode (Node.fresh kind model payload ids)
where
  /-- Adds the nodes of several descriptions, in order. -/
  plantAll (f : Forest) : List Draft → List SourceId × Forest
    | [] => ([], f)
    | d :: ds =>
      let (id, f) := plant f d
      let (ids, f) := plantAll f ds
      (id :: ids, f)

/-- The position of a node among its parent's children. -/
def childIndex (f : Forest) (id : SourceId) : Nat :=
  let n := f.node id
  match n.detached with
  | some (index, _) => index
  | none =>
    match n.parent with
    | some p => (f.node p).children.idxOf id
    | none => 0

/-- The path of a node, following at most `fuel` parents. -/
def pathWithin (f : Forest) : Nat → SourceId → Path
  | 0, _ => Path.root
  | fuel + 1, id =>
    let n := f.node id
    match n.detached with
    | some (_, path) => path
    | none =>
      match n.parent with
      | none => Path.root
      | some p =>
        let base := (f.pathWithin fuel p).child n.style.key
        match n.style.layout with
        | .keyed => base.child (toString (f.childIndex id))
        | .list => base.listChild (f.childIndex id)

/-- The path of a node. A chain of parents is never longer than the number of nodes. -/
def path (f : Forest) (id : SourceId) : Path := f.pathWithin (f.nodes.size + 1) id

/-- Gives the nodes below `id` its style and links each child to its parent. -/
def adoptWithin (f : Forest) (style : Style) : Nat → SourceId → Forest
  | 0, _ => f
  | fuel + 1, id =>
    let f := f.modifyNode id fun n => { n with style := style }
    (f.node id).children.foldl
      (fun f c => (f.modifyNode c fun n => { n with parent := some id }).adoptWithin style fuel c) f

/-- Links the subtree below `id` and gives it the style. -/
def adopt (f : Forest) (style : Style) (id : SourceId) : Forest :=
  f.adoptWithin style (f.nodes.size + 1) id

/-- Records, top down, the index and path every node of the subtree has now. -/
def freezeWithin (f : Forest) : Nat → SourceId → Forest
  | 0, _ => f
  | fuel + 1, id =>
    let position := (f.childIndex id, f.path id)
    let f := f.modifyNode id fun n => { n with detached := some position }
    (f.node id).children.foldl (fun f c => f.freezeWithin fuel c) f

/-- Records the index and path of every node of the subtree below `id`. -/
def freeze (f : Forest) (id : SourceId) : Forest := f.freezeWithin (f.nodes.size + 1) id

/-- The node at an address of a tree: from the root, the child of each index in turn. -/
def resolve (f : Forest) (t : TreeId) (address : List Nat) : Except Fault SourceId :=
  match (f.tree t).root with
  | none => .error (.rootMissing "lookup")
  | some root =>
    address.foldlM (fun id i =>
      let children := (f.node id).children
      match children[i]? with
      | some c => .ok c
      | none => .error (.indexOutOfBounds i children.length)) root

/-- Makes `id` the root of a tree that has none. -/
def placeRoot (f : Forest) (t : TreeId) (id : SourceId) : Except Fault Forest :=
  match (f.tree t).root with
  | some _ => .error .rootAlreadyExists
  | none =>
    let f := f.adopt (f.tree t).style id
    .ok (f.modifyTree t fun tr => { tr with root := some id })

/-- Takes the root out of a tree, recording its position. -/
def takeRoot (f : Forest) (t : TreeId) : Except Fault (SourceId × Forest) :=
  match (f.tree t).root with
  | none => .error (.rootMissing "removed")
  | some root =>
    let f := f.modifyTree t fun tr => { tr with root := none }
    .ok (root, f.freeze root)

/-- Inserts `id` as child `index` of the node at `parent`, at most after the last child. -/
def insertChild (f : Forest) (t : TreeId) (parent : List Nat) (index : Nat) (id : SourceId) :
    Except Fault Forest := do
  let p ← f.resolve t parent
  let count := (f.node p).children.length
  if index > count then throw (.indexOutOfBounds index count)
  let f := f.modifyNode id fun n => { n with parent := some p }
  let f := f.adopt (f.tree t).style id
  return f.modifyNode p fun n => { n with children := n.children.insertIdx index id }

/-- Takes the node at a nonempty address out of its parent, recording the position it had. -/
def detachChild (f : Forest) (t : TreeId) (address : List Nat) :
    Except Fault (SourceId × Forest) := do
  match address.getLast? with
  | none => throw .emptyPath
  | some index =>
    let p ← f.resolve t address.dropLast
    let children := (f.node p).children
    match children[index]? with
    | none => throw (.indexOutOfBounds index children.length)
    | some c =>
      let f := f.freeze c
      let f := f.modifyNode p fun n => { n with children := n.children.eraseIdx index }
      return (c, f.modifyNode c fun n => { n with parent := none })

/-- Replaces the payload of the node at an address. -/
def replacePayload (f : Forest) (t : TreeId) (address : List Nat) (payload : Toml.Table) :
    Except Fault Forest := do
  let id ← f.resolve t address
  return f.modifyNode id fun n => { n with payload := payload }

/-- What the subtree below `id` shows, down to `fuel` levels. -/
def dumpWithin (f : Forest) : Nat → SourceId → Dump
  | 0, id => let n := f.node id
    .mk n.kind (f.childIndex id) (f.path id) n.model n.detached.isSome n.payload []
  | fuel + 1, id =>
    let n := f.node id
    .mk n.kind (f.childIndex id) (f.path id) n.model n.detached.isSome n.payload
      (n.children.map (f.dumpWithin fuel))

/-- What the subtree below `id` shows. -/
def dump (f : Forest) (id : SourceId) : Dump := f.dumpWithin (f.nodes.size + 1) id

end Forest

end Source

end Inlay
