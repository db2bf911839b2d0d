import Inlay.Source.Document
import Inlay.Settings

namespace Inlay.Session

/-- A node to create: a description (type, model, payload, children) or a node document. -/
inductive NodeSpec where
  | node (kind : String) (model : Option String) (payload : Toml.Table) (children : List NodeSpec)
  | document (text : String)
  deriving Inhabited

/-- Settings of one tree: fields that override the session's, or the standard settings alone. -/
structure TreeSettings where
  key : Option String
  layout : Option Layout
  /-- Take the standard settings and ignore all others. -/
  standard : Bool
  deriving Inhabited

/-- A tree to create. -/
inductive TreeSpec where
  | empty
  | rooted (root : Option NodeSpec) (settings : TreeSettings) (serving : Option String)
  | document (text : String) (settings : TreeSettings) (serving : Option String)
  deriving Inhabited

/-- Where model names lead: the library, or one labelled tree for every name (saying which
model it serves, or not). -/
inductive ResolverSpec where
  | library
  | same (label : String)
  | plain (label : String)
  deriving Inhabited

/-- How a listener reacts. -/
inductive ListenerKind where
  /-- Its notices go into the journal; with `leaveOnAdd` it leaves after its first `added`. -/
  | journal (leaveOnAdd : Bool)
  | recorder
  | silent
  deriving Inhabited

/-- A raw event to hand to a tree's subscribers. -/
inductive EventSpec where
  | added (address : List Nat) (node : NodeSpec)
  | removed (address : List Nat)
  | changed (address : List Nat)
  deriving Inhabited

/-- One step of a script. Listener, node and tree labels name what earlier steps made. -/
inductive Step where
  | listen (label : String) (kind : ListenerKind)
  | recorded (listener : String) (clear : Bool)
  | describe (node : String)
  | hasModel (name : String)
  | unlisten (listener : String)
  | dropTracker
  | setRoot (tree : String) (node : NodeSpec)
  | clearRoot (tree : String)
  | addChild (tree : String) (parent : List Nat) (index : Nat) (node : NodeSpec)
  | removeChild (tree : String) (address : List Nat)
  | setPayload (tree : String) (address : List Nat) (payload : Toml.Table)
  | emit (tree : String) (event : EventSpec)
  | sourceNode (tree : String) (address : List Nat)
  | insertModel (name : String) (tree : TreeSpec)
  | removeModel (name : String)
  | hold (label : String) (start : Option String) (up : Nat) (down : List Nat)
  | inspect (node : String)
  | nodeAdd (node : String) (address : List Nat) (child : NodeSpec)
  | nodeRemove (node : String) (address : List Nat)
  | nodeChanged (node : String) (address : List Nat)
  | modelChildIndex (node : String)
  | modelPath (node : String)
  | usesModel (node : String) (name : String)
  | render (node : Option String)
  /-- A step that could not be understood. -/
  | malformed (reason : String)
  deriving Inhabited

/-- Settings given as fields, or as a TOML text to read. -/
inductive SettingsSpec where
  | given (settings : Settings)
  | document (text : String)
  deriving Inhabited

/-- A whole script. -/
structure Script where
  settings : SettingsSpec
  source : TreeSpec
  /-- Model trees, entered into the library in ascending name order. -/
  models : List (String × TreeSpec)
  trees : List (String × TreeSpec)
  resolver : ResolverSpec
  /-- Give the tracker the standard key instead of the session's. -/
  standardTracker : Bool
  steps : List Step
  deriving Inhabited

mutual

/-- The description of a node, with node documents read with children under `key`. -/
def NodeSpec.toDraft (key : String) : NodeSpec → Except DocumentError Source.Draft
  | .node kind model payload children => do
    return .mk kind model payload (← NodeSpec.toDrafts key children)
  | .document text => Source.Draft.ofDocument text key

/-- The descriptions of several nodes. -/
def NodeSpec.toDrafts (key : String) : List NodeSpec → Except DocumentError (List Source.Draft)
  | [] => pure []
  | n :: ns => do
    let d ← NodeSpec.toDraft key n
    return d :: (← NodeSpec.toDrafts key ns)

end

/-- The settings of a tree, given the session's. -/
def TreeSettings.resolve (t : TreeSettings) (session : Settings) : Settings :=
  if t.standard then Settings.standard
  else ⟨t.key.getD session.key, t.layout.getD session.layout⟩

end Inlay.Session
