import Inlay.Sync.Position

namespace Inlay.Sync

/-- Stops a feed: later events are ignored, and its subscription, if any, ends. -/
def stopFeed (f : SubscriberId) : Run Unit := do
  let feed := (← get).feed f
  modifyFeed f fun x => { x with active := false, subscription := none }
  match feed.subscription with
  | some h =>
    modifyForest fun forest => forest.modifyTree feed.tree fun t =>
      match t.subscribers.remove h with
      | some (_, subscribers) => { t with subscribers := subscribers }
      | none => t
  | none => pure ()

/-- Takes the feed out of a model node. -/
def takeFeed (id : InlaidId) : Run (Option SubscriberId) := do
  match ((← get).node id).inlining with
  | some i =>
    modifyInlining id fun i => { i with feed := none }
    return i.feed
  | none => return none

/-- Stops every feed of the subtree, top down, leaving positions as they are. -/
def stopFeedsWithin : Nat → InlaidId → Run Unit
  | 0, _ => pure ()
  | fuel + 1, id => do
    if let some f ← takeFeed id then stopFeed f
    for c in ((← get).node id).children do
      stopFeedsWithin fuel c

/-- Stops every feed of the subtree below `id`. -/
def stopFeeds (id : InlaidId) : Run Unit := do
  stopFeedsWithin ((← get).nodes.size + 1) id

/-- Drops the inlined root of a model node from its children, when it is the last one. -/
def detachHidden (id : InlaidId) : Run Unit :=
  modifyNode id fun m =>
    match m.inlining with
    | some i =>
      match i.hidden with
      | some h =>
        { m with
          inlining := some { i with hidden := none }
          children := if m.children.getLast? = some h then m.children.dropLast else m.children }
      | none => m
    | none => m

/-- Freezes the subtree at its current positions, top down, and stops its feeds. -/
def removeWithin : Nat → InlaidId → Run Unit
  | 0, _ => pure ()
  | fuel + 1, id => do
    let frozen ← ofExcept ((← get).removedPlacement id)
    modifyNode id fun m => { m with placement := frozen }
    for c in ((← get).node id).children do
      removeWithin fuel c
    if let some f ← takeFeed id then
      stopFeed f
      modifyInlining id fun i => { i with hidden := none }

/-- Freezes the subtree below `id` and stops its feeds. -/
def remove (id : InlaidId) : Run Unit := do
  removeWithin ((← get).nodes.size + 1) id

/-- A tree may fill the inlined slot of a model node unless it says it serves another model. -/
def State.checkServed (s : State) (feed : Feed) (owner : InlaidId) : Except Fault Unit :=
  let served := if feed.announcesModel then (s.forest.tree feed.tree).serving else none
  match (s.node owner).inlining.map (·.name), served with
  | some expected, some actual =>
    if expected = actual then .ok () else .error (.modelMismatch expected actual)
  | _, _ => .ok ()

/-- Subscribes a feed to its tree and answers the tree's current root. -/
def subscribe (f : SubscriberId) : Run (Option SourceId) := do
  let s ← get
  let feed := s.feed f
  let tree := s.forest.tree feed.tree
  let (h, subscribers) := tree.subscribers.insert f
  modifyForest fun forest => forest.modifyTree feed.tree fun t =>
    { t with subscribers := subscribers }
  modifyFeed f fun x => { x with subscription := some h }
  return tree.root

mutual

/-- Copies a source node and its subtree with the given placement and parent. -/
def create : Nat → Placement → Option InlaidId → SourceId → Run InlaidId
  | 0, placement, parent, src => addNode ⟨src, parent, [], placement, none⟩
  | fuel + 1, placement, parent, src => do
    let n := (← get).forest.node src
    let childPlacement ← ofExcept placement.forChildren
    let id ← addNode { source := src, parent, children := [], placement,
                         inlining := n.model.map fun name => ⟨name, none, none⟩ }
    try
      for c in n.children do
        let child ← create fuel childPlacement (some id) c
        modifyNode id fun m => { m with children := m.children ++ [child] }
      if let some name := n.model then
        expand fuel id name
    catch e =>
      stopFeeds id
      throw e
    return id

/-- Inlines the model `name` into the model node `id`, unless an ancestor uses that name, the
tracker is gone or the model is unknown. -/
def expand : Nat → InlaidId → String → Run Unit
  | 0, _, _ => pure ()
  | fuel + 1, id, name => do
    let s ← get
    let used := match (s.node id).parent with
      | some p => s.usesModel (fun _ => true) p name
      | none => false
    if used || !s.tracker.present then return
    match s.resolve name with
    | none => return
    | some (tree, announces) =>
      let f ← addFeed { mount := .owner id, tree, announcesModel := announces, active := true,
                        subscription := none }
      try
        start fuel f
      catch e =>
        stopFeed f
        throw e
      modifyInlining id fun i => { i with feed := some f }

/-- Subscribes a feed to its tree and copies the tree's current root into its mount. -/
def start : Nat → SubscriberId → Run Unit
  | 0, f => discard <| subscribe f
  | fuel + 1, f => do
    let root ← subscribe f
    if (← get).tracker.present then
      discard <| fill fuel f root

/-- Copies `source` into the mount of a feed, or empties the mount for none. -/
def fill : Nat → SubscriberId → Option SourceId → Run (Option InlaidId)
  | 0, _, _ => pure none
  | fuel + 1, f, source => do
    let s ← get
    let feed := s.feed f
    match feed.mount with
    | .tracker =>
      let root ← match source with
        | some src => some <$> create fuel .primary none src
        | none => pure none
      modifyTracker fun t => { t with root := root }
      return root
    | .owner owner =>
      match source with
      | some src =>
        ofExcept (s.checkServed feed owner)
        let hidden ← create fuel (.modelRoot owner) (some owner) src
        modifyNode owner fun m =>
          { m with children := m.children ++ [hidden],
                   inlining := m.inlining.map fun i => { i with hidden := some hidden } }
        return some hidden
      | none =>
        detachHidden owner
        return none

end

/-- Enough fuel to build any inlaid tree of the forest: each of at most `n` nested inlinings adds at
most `n` levels of source nodes and four steps. -/
def State.buildFuel (s : State) : Nat := (s.forest.nodes.size + 4) * (s.forest.nodes.size + 4)

/-- Copies a source node and its subtree. -/
def nodeOf (placement : Placement) (parent : Option InlaidId) (src : SourceId) :
    Run InlaidId := do
  create (← get).buildFuel placement parent src

/-- Subscribes a feed and fills its mount. -/
def startFeed (f : SubscriberId) : Run Unit := do
  start (← get).buildFuel f

/-- Fills or empties the mount of a feed. -/
def fillMount (f : SubscriberId) (source : Option SourceId) : Run (Option InlaidId) := do
  fill (← get).buildFuel f source

end Inlay.Sync
