import Inlay.Source.Forest

namespace Inlay

/-- The name of an inlaid node in its session. -/
structure InlaidId where
  val : Nat
  deriving DecidableEq, Repr, Inhabited

/-- The name of a listener in its session. -/
structure ListenerId where
  val : Nat
  deriving DecidableEq, Repr, Inhabited

/-- Where an inlaid node takes its index and path from. -/
inductive Placement where
  /-- The source node's own index and path. -/
  | primary
  /-- The inlined slot of the owning model node. -/
  | modelRoot (owner : InlaidId)
  /-- The source node's own index; its path inside the model below the owner's model path. -/
  | modelChild (owner : InlaidId)
  /-- The index and path captured when the node was removed. -/
  | frozen (index : Nat) (path : Path)
  deriving DecidableEq, Repr, Inhabited

namespace Placement

/-- The placement of the children of a node so placed; a removed node takes no children. -/
def forChildren : Placement → Except Fault Placement
  | .primary => .ok .primary
  | .modelRoot owner | .modelChild owner => .ok (.modelChild owner)
  | .frozen _ _ => .error .detachedNode

/-- Whether the node has been removed. -/
def isFrozen : Placement → Bool
  | .frozen _ _ => true
  | _ => false

end Placement

/-- The inlining of a model node: the model name, the inlined root and the feed. -/
structure Inlining where
  name : String
  hidden : Option InlaidId
  feed : Option SubscriberId
  deriving Repr, Inhabited

namespace Inlaid

/-- A node of the inlaid tree. -/
structure Node where
  source : SourceId
  /-- The node whose children hold this one; it may since have been dropped. -/
  parent : Option InlaidId
  /-- The children, the inlined model root last. -/
  children : List InlaidId
  placement : Placement
  /-- Present for model nodes. -/
  inlining : Option Inlining
  deriving Repr, Inhabited

end Inlaid

/-- The slot a feed fills: the tracker's root, or the inlined slot of a model node. -/
inductive Mount where
  | tracker
  | owner (node : InlaidId)
  deriving DecidableEq, Repr, Inhabited

/-- A subscription to a source tree that copies it into a mount. -/
structure Feed where
  mount : Mount
  tree : TreeId
  /-- Whether the tree is asked which model it serves. -/
  announcesModel : Bool
  /-- Cleared when the feed stops: later events are ignored. -/
  active : Bool
  subscription : Option Handle
  deriving Repr, Inhabited

/-- How model names find their trees: through the library, or always the same tree (telling
which model it serves, or not). -/
inductive Resolver where
  | library
  | same (tree : TreeId)
  | plain (tree : TreeId)
  deriving DecidableEq, Repr, Inhabited

/-- One notification kept by a recorder: the change, the path as written then, the node. -/
structure Record where
  change : Change
  path : String
  node : InlaidId
  deriving Repr, Inhabited

/-- A listener of the inlaid tree. -/
inductive Listener where
  /-- Writes notices into the journal under `label`; with `leaveOnAdd` it unregisters itself
  right after its first `added`, through `handle`. -/
  | journal (label : String) (leaveOnAdd : Bool) (handle : Option Handle) (left : Bool)
  /-- Keeps every notification. -/
  | recorder (records : List Record)
  /-- Does nothing. -/
  | silent
  deriving Repr, Inhabited

/-- What a journal listener wrote. -/
inductive Notice where
  /-- A notification: the change, and the node's type, index, path and (for `changed`) payload
  at that moment. -/
  | heard (label : String) (change : Change) (kind : String) (index : Except Fault Nat)
      (path : Except Fault Path) (payload : Option Toml.Table)
  /-- The listener unregistered itself, with the result of doing so. -/
  | left (label : String) (result : Except Fault Bool)
  deriving Inhabited

/-- The tracker: the tree it follows, the key for inlined slots, the listeners, the root and
the feed of the tree while tracking. It is absent once dropped. -/
structure Tracker where
  source : TreeId
  key : String
  listeners : Slots ListenerId
  root : Option InlaidId
  feed : Option SubscriberId
  present : Bool
  deriving Inhabited

namespace Sync

/-- The whole session: source forest, model library, resolver, inlaid nodes, feeds, tracker,
listeners and the journal of notices. -/
structure State where
  forest : Source.Forest
  library : List (String × TreeId)
  resolver : Resolver
  nodes : Array Inlaid.Node
  feeds : Array Feed
  tracker : Tracker
  listeners : Array Listener
  journal : Array Notice
  deriving Inhabited

/-- Operations on a session: a fault stops them and keeps the changes made so far. -/
abbrev Run := ExceptT Fault (StateM State)

namespace State

/-- The inlaid node of an id. -/
def node (s : State) (id : InlaidId) : Inlaid.Node := s.nodes.getD id.val default

/-- The feed of an id. -/
def feed (s : State) (f : SubscriberId) : Feed := s.feeds.getD f.val default

/-- The listener of an id. -/
def listener (s : State) (l : ListenerId) : Listener := s.listeners.getD l.val default

/-- The key of inlined slots: the tracker's, or `attachments` once the tracker is gone. -/
def slotKey (s : State) : String := if s.tracker.present then s.tracker.key else "attachments"

/-- The tree that serves a model name, and whether that tree is asked which model it serves. -/
def resolve (s : State) (name : String) : Option (TreeId × Bool) :=
  match s.resolver with
  | .library => (s.library.lookup name).map (·, true)
  | .same t => some (t, true)
  | .plain t => some (t, false)

/-- The number of children that stand for source children: all but the inlined root. -/
def literalCount (s : State) (id : InlaidId) : Nat :=
  let m := s.node id
  let hidden := match m.inlining with
    | some i => i.hidden.isSome
    | none => false
  m.children.length - (if hidden then 1 else 0)

end State

section Access

/-- Changes one inlaid node. -/
def modifyNode (id : InlaidId) (g : Inlaid.Node → Inlaid.Node) : Run Unit :=
  modify fun s => { s with nodes := s.nodes.modify id.val g }

/-- Changes the inlining of a model node. -/
def modifyInlining (id : InlaidId) (g : Inlining → Inlining) : Run Unit :=
  modifyNode id fun m => { m with inlining := m.inlining.map g }

/-- Adds an inlaid node under a new id. -/
def addNode (m : Inlaid.Node) : Run InlaidId :=
  modifyGet fun s => (⟨s.nodes.size⟩, { s with nodes := s.nodes.push m })

/-- Changes one feed. -/
def modifyFeed (f : SubscriberId) (g : Feed → Feed) : Run Unit :=
  modify fun s => { s with feeds := s.feeds.modify f.val g }

/-- Adds a feed under a new id. -/
def addFeed (f : Feed) : Run SubscriberId :=
  modifyGet fun s => (⟨s.feeds.size⟩, { s with feeds := s.feeds.push f })

/-- Changes the forest. -/
def modifyForest (g : Source.Forest → Source.Forest) : Run Unit :=
  modify fun s => { s with forest := g s.forest }

/-- Changes the tracker. -/
def modifyTracker (g : Tracker → Tracker) : Run Unit :=
  modify fun s => { s with tracker := g s.tracker }

/-- Changes one listener. -/
def modifyListener (l : ListenerId) (g : Listener → Listener) : Run Unit :=
  modify fun s => { s with listeners := s.listeners.modify l.val g }

/-- Adds a listener under a new id. -/
def addListenerObject (l : Listener) : Run ListenerId :=
  modifyGet fun s => (⟨s.listeners.size⟩, { s with listeners := s.listeners.push l })

/-- Writes a notice into the journal. -/
def note (n : Notice) : Run Unit :=
  modify fun s => { s with journal := s.journal.push n }

/-- Takes the result of a check, failing with its fault. -/
def ofExcept {α : Type} (r : Except Fault α) : Run α :=
  match r with
  | .ok a => pure a
  | .error e => throw e

end Access

end Sync

end Inlay
