import Inlay.Session.Script
import Inlay.Settings.Read
import Inlay.Sync.Edit
import Inlay.Sync.View

namespace Inlay.Session

/-- A label map: entries in order of first use; setting a label replaces its entry. -/
def relabelled {α : Type} : List (String × α) → String → α → List (String × α)
  | [], label, a => [(label, a)]
  | (l, b) :: rest, label, a =>
    if l = label then (label, a) :: rest else (l, b) :: relabelled rest label a

/-- What a step answers when it succeeds. -/
inductive Reply where
  | nothing
  | flag (b : Bool)
  | count (n : Nat)
  | text (s : String)
  | source (d : Source.Dump)
  | sourceMaybe (d : Option Source.Dump)
  | inlaid (d : Inlaid.Dump)
  | inspected (d : Inlaid.Dump) (childCount : Nat) (parent : Option Inlaid.Dump)
      (sourceIsModel : Bool)
  /-- A recorder's notifications: change titles with paths, and change titles with types. -/
  | recorded (changes : List (String × String)) (nodes : List String)
  | presence (contains : Bool) (subscribers : Option Nat)
  deriving Inhabited

/-- Why a step or a script failed. -/
inductive Failure where
  | fault (f : Fault)
  | document (e : DocumentError)
  | settings (e : SettingsError)
  | noTracker
  | noNode
  | unknownLabel (what : String) (label : String)
  | notRecorder (label : String)
  | malformed (reason : String)
  deriving Inhabited

/-- The state after a step. -/
structure Snapshot where
  tracking : Bool
  listeners : Nat
  root : Option Inlaid.Dump
  subscribers : List (String × Nat)
  models : List String
  deriving Inhabited

/-- The answer of one step. -/
structure Outcome where
  result : Except Failure Reply
  notices : List Notice
  snapshot : Snapshot
  deriving Inhabited

/-- The state of a running session. -/
structure State where
  sync : Sync.State
  settings : Settings
  trees : List (String × TreeId)
  held : List (String × InlaidId)
  listeners : List (String × (Handle × ListenerId))
  deriving Inhabited

/-- Steps of a session: a failure stops the step and keeps its changes. -/
abbrev Act := ExceptT Failure (StateM State)

/-- Runs an operation on the trees and the inlaid tree. -/
def sync {α : Type} (r : Sync.Run α) : Act α := do
  let s ← get
  let (result, state) := (r.run).run s.sync
  set { s with sync := state }
  match result with
  | .ok a => pure a
  | .error e => throw (.fault e)

/-- Fails with `f` for an error. -/
def orFail {α ε : Type} (f : ε → Failure) : Except ε α → Act α
  | .ok a => pure a
  | .error e => throw (f e)

/-- The tree of a label. -/
def treeNamed (label : String) : Act TreeId := do
  match (← get).trees.lookup label with
  | some t => pure t
  | none => throw (.unknownLabel "tree" label)

/-- The held node of a label. -/
def heldNode (label : String) : Act InlaidId := do
  match (← get).held.lookup label with
  | some n => pure n
  | none => throw (.unknownLabel "node" label)

/-- Fails unless the tracker is still there. -/
def requireTracker : Act Unit := do
  if !(← get).sync.tracker.present then throw .noTracker

/-- Adds the nodes of a node spec to the forest; node documents list children under the
session's key. -/
def plantSpec (spec : NodeSpec) : Act SourceId := do
  let s ← get
  let draft ← orFail .document (spec.toDraft s.settings.key)
  let (id, forest) := s.sync.forest.plant draft
  set { s with sync := { s.sync with forest := forest } }
  return id

/-- Creates a tree from its spec; its root, if any, is adopted without telling anyone. -/
def createTree (spec : TreeSpec) : Act TreeId := do
  let session := (← get).settings
  let (settings, serving, root) ← match spec with
    | .empty => pure (session, none, none)
    | .rooted root choice serving => do
      let root ← match root with
        | some r => some <$> plantSpec r
        | none => pure none
      pure (choice.resolve session, serving, root)
    | .document text choice serving => do
      let settings := choice.resolve session
      let draft ← orFail .document (Source.Draft.ofDocument text settings.key)
      let s ← get
      let (id, forest) := s.sync.forest.plant draft
      set { s with sync := { s.sync with forest := forest } }
      pure (settings, serving, some id)
  let s ← get
  let forest := s.sync.forest
  let (t, forest) := forest.addTree ⟨settings.style, serving, none, Slots.empty⟩
  let forest := match root with
    | some r => (forest.adopt settings.style r).modifyTree t fun tr => { tr with root := some r }
    | none => forest
  set { s with sync := { s.sync with forest := forest } }
  return t

/-- The label for a tree that gives up `name`: `name~N` for the least `N ≥ 1` not in use. -/
def freeLabel (trees : List (String × TreeId)) (name : String) : String :=
  let taken := fun k => (trees.lookup (name ++ "~" ++ toString k)).isSome
  match (List.range (trees.length + 1)).find? (fun k => !taken (k + 1)) with
  | some k => name ++ "~" ++ toString (k + 1)
  | none => name ++ "~" ++ toString (trees.length + 1)

/-- Enters a tree into the library under `name`, replacing any tree there; the tree now serves
`name`. -/
def enterModel (name : String) (t : TreeId) : Act Unit := do
  let s ← get
  let forest := s.sync.forest.modifyTree t fun tr => { tr with serving := some name }
  let library := (s.sync.library.filter (·.1 != name) ++ [(name, t)]).mergeSort
    (fun a b => decide (a.1 ≤ b.1))
  set { s with sync := { s.sync with forest := forest, library := library } }

/-- Labels a tree `name`; a tree that had the label keeps a free `name~N` instead. -/
def labelTree (name : String) (t : TreeId) : Act Unit := do
  let s ← get
  let trees := match s.trees.lookup name with
    | some old => relabelled s.trees name t ++ [(freeLabel s.trees name, old)]
    | none => relabelled s.trees name t
  set { s with trees := trees }

/-- The nodes that keep inlaid nodes from going away: the tracker's root, the held nodes and the
nodes kept by recorders that are labelled or still registered. -/
def State.holders (s : State) : List InlaidId :=
  let present := s.sync.tracker.present
  let root := if present then s.sync.tracker.root.toList else []
  let registered := if present then s.sync.tracker.listeners.values else []
  let recorded := (s.listeners.map (·.2.2) ++ registered).flatMap fun lid =>
    match s.sync.listener lid with
    | .recorder records => records.map (·.node)
    | _ => []
  root ++ s.held.map (·.2) ++ recorded

/-- The parent of a node while something still reaches it. -/
def State.parentOf (s : State) (id : InlaidId) : Option InlaidId :=
  s.sync.parentAmong s.holders id

/-- Climbs `n` parents. -/
def climb (s : State) : Nat → InlaidId → Option InlaidId
  | 0, id => some id
  | n + 1, id =>
    match s.parentOf id with
    | some p => climb s n p
    | none => none

/-- Descends through the children of the given indices, inlined roots included. -/
def descend (s : State) (id : InlaidId) (down : List Nat) : Option InlaidId :=
  down.foldlM (fun n i => (s.sync.node n).children[i]?) id

/-- The text of an outline of a node. -/
def drawn (s : State) (id : InlaidId) : String := (s.sync.outline id).draw

/-- Runs one step. -/
def runStep : Step → Act Reply
  | .listen label kind => do
    requireTracker
    let listener := match kind with
      | .journal leave => Listener.journal label leave none false
      | .recorder => .recorder []
      | .silent => .silent
    let named ← sync (Sync.addListenerNamed listener)
    modify fun s => { s with listeners := relabelled s.listeners label named }
    return .nothing
  | .recorded label clear => do
    let s ← get
    let some (_, lid) := s.listeners.lookup label | throw (.unknownLabel "listener" label)
    match s.sync.listener lid with
    | .recorder records =>
      let kindOf := fun (r : Record) => (s.sync.forest.node (s.sync.node r.node).source).kind
      let reply := Reply.recorded (records.map fun r => (r.change.title, r.path))
        (records.map fun r => r.change.title ++ " " ++ kindOf r)
      if clear then sync (Sync.modifyListener lid fun _ => .recorder [])
      return reply
    | _ => throw (.notRecorder label)
  | .describe node => do
    let n ← heldNode node
    return .text ((← get).sync.describe n)
  | .hasModel name => do
    let s ← get
    let tree := s.sync.library.lookup name
    return .presence tree.isSome (tree.map fun t => (s.sync.forest.tree t).subscribers.count)
  | .unlisten label => do
    requireTracker
    let some (h, _) := (← get).listeners.lookup label | throw (.unknownLabel "listener" label)
    return .flag (← sync (Sync.removeListener h))
  | .dropTracker => do
    requireTracker
    sync Sync.dropTracker
    return .nothing
  | .setRoot tree node => do
    let t ← treeNamed tree
    let src ← plantSpec node
    let root ← sync (Sync.setRoot t src)
    return .source ((← get).sync.forest.dump root)
  | .clearRoot tree => do
    let t ← treeNamed tree
    let root ← sync (Sync.clearRoot t)
    return .source ((← get).sync.forest.dump root)
  | .addChild tree parent index node => do
    let t ← treeNamed tree
    let src ← plantSpec node
    let child ← sync (Sync.addSourceChild t parent index src)
    return .source ((← get).sync.forest.dump child)
  | .removeChild tree address => do
    let t ← treeNamed tree
    let child ← sync (Sync.removeSourceChild t address)
    return .source ((← get).sync.forest.dump child)
  | .setPayload tree address payload => do
    let t ← treeNamed tree
    sync (Sync.setPayload t address payload)
    return .nothing
  | .emit tree event => do
    let t ← treeNamed tree
    let e ← match event with
      | .added address node => do pure (Source.Event.added address (← plantSpec node))
      | .removed address => pure (.removed address)
      | .changed address => pure (.changed address)
    sync (Sync.deliver t e)
    return .nothing
  | .sourceNode tree address => do
    let t ← treeNamed tree
    let forest := (← get).sync.forest
    return .sourceMaybe (match forest.resolve t address with
      | .ok id => some (forest.dump id)
      | .error _ => none)
  | .insertModel name spec => do
    let t ← createTree spec
    enterModel name t
    labelTree name t
    return .nothing
  | .removeModel name => do
    let s ← get
    let present := (s.sync.library.lookup name).isSome
    set { s with sync := { s.sync with library := s.sync.library.filter (·.1 != name) } }
    return .flag present
  | .hold label start up down => do
    let first ← match start with
      | some l => heldNode l
      | none => do
        requireTracker
        match (← get).sync.tracker.root with
        | some r => pure r
        | none => throw .noNode
    let s ← get
    let some top := climb s up first | throw .noNode
    let some node := descend s top down | throw .noNode
    set { s with held := relabelled s.held label node }
    return .inlaid (s.sync.summary node)
  | .inspect node => do
    let n ← heldNode node
    let s ← get
    let m := s.sync.node n
    return .inspected (s.sync.dump n) m.children.length ((s.parentOf n).map s.sync.summary)
      (s.sync.forest.node m.source).model.isSome
  | .nodeAdd node address child => do
    let n ← heldNode node
    let src ← plantSpec child
    let c ← sync (Sync.addChildAt n address src)
    return .inlaid ((← get).sync.summary c)
  | .nodeRemove node address => do
    let n ← heldNode node
    let c ← sync (Sync.removeChildAt n address)
    return .inlaid ((← get).sync.summary c)
  | .nodeChanged node address => do
    let n ← heldNode node
    let c ← sync (Sync.childChangedAt n address)
    return .inlaid ((← get).sync.summary c)
  | .modelChildIndex node => do
    let n ← heldNode node
    return .count (← orFail .fault ((← get).sync.modelChildIndex n))
  | .modelPath node => do
    let n ← heldNode node
    return .text (← orFail .fault ((← get).sync.modelPath n)).render
  | .usesModel node name => do
    let n ← heldNode node
    let s ← get
    let reached := s.sync.reachable s.holders
    return .flag (s.sync.usesModel (fun p => decide (p ∈ reached)) n name)
  | .render node => do
    match node with
    | some l => do
      let n ← heldNode l
      return .text (drawn (← get) n)
    | none => do
      requireTracker
      let s ← get
      return .text (match s.sync.tracker.root with
        | some r => drawn s r
        | none => "Empty tree\n")
  | .malformed reason => throw (.malformed reason)

/-- The state after a step. -/
def State.snapshot (s : State) : Snapshot :=
  let t := s.sync.tracker
  { tracking := t.present && t.feed.isSome
    listeners := if t.present then t.listeners.count else 0
    root := if t.present then t.root.map s.sync.dump else none
    subscribers := s.trees.map fun (label, tree) =>
      (label, (s.sync.forest.tree tree).subscribers.count)
    models := s.sync.library.map (·.1) }

/-- Runs one step from a clean journal and answers it. -/
def State.step (s : State) (st : Step) : Outcome × State :=
  let s := { s with sync := { s.sync with journal := #[] } }
  let (result, s) := (runStep st).run s
  (⟨result, s.sync.journal.toList, s.snapshot⟩, s)

/-- Runs the steps in order. -/
def State.steps (s : State) : List Step → List Outcome
  | [] => []
  | st :: rest =>
    let (o, s) := s.step st
    o :: s.steps rest

/-- Creates the labelled trees of a script and the tracker. -/
def prepare (script : Script) : Act Unit := do
  let source ← createTree script.source
  labelTree "source" source
  for (name, spec) in script.models do
    let t ← createTree spec
    enterModel name t
    labelTree name t
  for (label, spec) in script.trees do
    let t ← createTree spec
    labelTree label t
  let resolver ← match script.resolver with
    | .library => pure Resolver.library
    | .same label => Resolver.same <$> treeNamed label
    | .plain label => Resolver.plain <$> treeNamed label
  let s ← get
  let key := if script.standardTracker then Settings.standard.key else s.settings.key
  set { s with sync := { s.sync with
    resolver := resolver,
    tracker := ⟨source, key, Slots.empty, none, none, true⟩ } }

/-- The settings a script asks for. -/
def SettingsSpec.resolve : SettingsSpec → Except SettingsError Settings
  | .given settings => .ok settings
  | .document text => Settings.fromToml text

/-- A session with the given settings and nothing in it yet. -/
def State.fresh (settings : Settings) : State :=
  ⟨{ forest := Source.Forest.empty, library := [], resolver := .library, nodes := #[],
     feeds := #[], tracker := default, listeners := #[], journal := #[] },
   settings, [], [], []⟩

/-- Sets a script up: the session its steps start from, or the failure of its setup. -/
def Script.begin (script : Script) : Except Failure State :=
  match script.settings.resolve with
  | .error e => .error (.settings e)
  | .ok settings =>
    let sortedModels := script.models.mergeSort fun a b => decide (a.1 ≤ b.1)
    match (prepare { script with models := sortedModels }).run (State.fresh settings) with
    | (.error e, _) => .error e
    | (.ok (), s) => .ok s

/-- Runs a script: the answers of its steps, or the failure of its setup. -/
def Script.run (script : Script) : Except Failure (List Outcome) :=
  script.begin.map fun s => s.steps script.steps

end Inlay.Session
