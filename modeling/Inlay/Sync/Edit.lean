import Inlay.Sync.Notify

namespace Inlay.Sync

/-- Follows all but the last index of a nonempty address, through children that stand for
source children, and returns the node reached with the last index. -/
def navigate (id : InlaidId) (address : List Nat) : Run (InlaidId × Nat) := do
  match address.getLast? with
  | none => throw .emptyPath
  | some last =>
    let mut current := id
    for i in address.dropLast do
      let s ← get
      if i ≥ s.literalCount current then
        throw (.indexOutOfBounds i (s.node current).children.length)
      current := (s.node current).children.getD i default
    return (current, last)

/-- The child at `index` that stands for a source child. -/
def literalChild (parent : InlaidId) (index : Nat) : Run InlaidId := do
  let s ← get
  if index ≥ s.literalCount parent then
    throw (.indexOutOfBounds index (s.node parent).children.length)
  return (s.node parent).children.getD index default

/-- Copies a source node in as the child `index` of `parent` and tells the listeners. -/
def addChild (parent : InlaidId) (index : Nat) (src : SourceId) : Run InlaidId := do
  let s ← get
  if index > s.literalCount parent then
    throw (.indexOutOfBounds index (s.node parent).children.length)
  let placement ← ofExcept (s.node parent).placement.forChildren
  let child ← nodeOf placement (some parent) src
  modifyNode parent fun m => { m with children := m.children.insertIdx index child }
  notify .added child
  return child

/-- Freezes and takes out the child `index` of `parent` and tells the listeners. -/
def removeChild (parent : InlaidId) (index : Nat) : Run InlaidId := do
  let child ← literalChild parent index
  remove child
  modifyNode parent fun m => { m with children := m.children.eraseIdx index }
  notify .removed child
  return child

/-- Tells the listeners that the child `index` of `parent` changed. -/
def childChanged (parent : InlaidId) (index : Nat) : Run InlaidId := do
  let child ← literalChild parent index
  notify .changed child
  return child

/-- Adds an inlaid copy of `src` at an address relative to `id`. -/
def addChildAt (id : InlaidId) (address : List Nat) (src : SourceId) : Run InlaidId := do
  let (parent, index) ← navigate id address
  addChild parent index src

/-- Removes the node at an address relative to `id`. -/
def removeChildAt (id : InlaidId) (address : List Nat) : Run InlaidId := do
  let (parent, index) ← navigate id address
  removeChild parent index

/-- Reports a change of the node at an address relative to `id`. -/
def childChangedAt (id : InlaidId) (address : List Nat) : Run InlaidId := do
  let (parent, index) ← navigate id address
  childChanged parent index

/-- The root of a feed's mount: the tracker's root, or the inlined root of the owner. -/
def State.mountRoot (s : State) (feed : Feed) : Option InlaidId :=
  match feed.mount with
  | .tracker => s.tracker.root
  | .owner o => (s.node o).inlining.bind (·.hidden)

/-- How a feed follows one event of its tree; a stopped feed, or one whose tracker is gone,
ignores it. -/
def onEvent (f : SubscriberId) (e : Source.Event) : Run Unit := do
  let s ← get
  let feed := s.feed f
  if !feed.active || !s.tracker.present then return
  let root := s.mountRoot feed
  match e with
  | .added [] node =>
    if root.isSome then throw .rootAlreadyExists
    if let some r ← fillMount f (some node) then
      notify .added r
  | .added address node =>
    let some r := root | throw (.rootMissing "added")
    discard <| addChildAt r address node
  | .removed address =>
    let some r := root | throw (.rootMissing "removed")
    if address.isEmpty then
      remove r
      discard <| fillMount f none
      notify .removed r
    else
      discard <| removeChildAt r address
  | .changed address =>
    let some r := root | throw (.rootMissing "changed")
    if address.isEmpty then
      notify .changed r
    else
      discard <| childChangedAt r address

/-- Delivers an event to the subscribers of a tree registered now, in slot order, stopping at
the first fault. -/
def deliver (t : TreeId) (e : Source.Event) : Run Unit := do
  for f in ((← get).forest.tree t).subscribers.values do
    onEvent f e

/-- Replaces the forest by a changed one. -/
def setForest (forest : Source.Forest) : Run Unit := modifyForest fun _ => forest

/-- Makes a node the root of a tree that has none, then tells the subscribers. -/
def setRoot (t : TreeId) (src : SourceId) : Run SourceId := do
  setForest (← ofExcept ((← get).forest.placeRoot t src))
  deliver t (.added [] src)
  return src

/-- Takes the root out of a tree, then tells the subscribers. -/
def clearRoot (t : TreeId) : Run SourceId := do
  let (root, forest) ← ofExcept ((← get).forest.takeRoot t)
  setForest forest
  deliver t (.removed [])
  return root

/-- Inserts a node as child `index` of the node at `parent`, then tells the subscribers. -/
def addSourceChild (t : TreeId) (parent : List Nat) (index : Nat) (src : SourceId) :
    Run SourceId := do
  setForest (← ofExcept ((← get).forest.insertChild t parent index src))
  deliver t (.added (parent ++ [index]) src)
  return src

/-- Takes the node at an address out of a tree, then tells the subscribers. -/
def removeSourceChild (t : TreeId) (address : List Nat) : Run SourceId := do
  let (child, forest) ← ofExcept ((← get).forest.detachChild t address)
  setForest forest
  deliver t (.removed address)
  return child

/-- Replaces the payload of the node at an address, then tells the subscribers. -/
def setPayload (t : TreeId) (address : List Nat) (payload : Toml.Table) : Run Unit := do
  setForest (← ofExcept ((← get).forest.replacePayload t address payload))
  deliver t (.changed address)

end Inlay.Sync
