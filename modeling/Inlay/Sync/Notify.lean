import Inlay.Sync.Build

namespace Inlay.Sync

/-- Stops tracking: the root is taken out and frozen, and the tracker's feed stops. -/
def stopTracking : Run Unit := do
  let root := (← get).tracker.root
  modifyTracker fun t => { t with root := none }
  let frozen ← tryCatch
    (do
      if let some r := root then remove r
      pure none)
    (fun e => pure (some e))
  if let some f := (← get).tracker.feed then
    modifyTracker fun t => { t with feed := none }
    stopFeed f
  if let some e := frozen then
    if let some r := root then stopFeeds r
    throw e

/-- Unregisters the listener of a handle; the last one stops tracking. False for a handle that
names no registered listener. -/
def removeListener (h : Handle) : Run Bool := do
  match (← get).tracker.listeners.remove h with
  | none => return false
  | some (_, listeners) =>
    modifyTracker fun t => { t with listeners := listeners }
    if listeners.count = 0 then stopTracking
    return true

/-- Subscribes the tracker's feed and builds the inlaid tree of the source tree's root. On a fault
the feed stops and any root built is dropped with its feeds stopped. -/
def startTracking : Run Unit := do
  let f ← addFeed { mount := .tracker, tree := (← get).tracker.source, announcesModel := true,
                    active := true, subscription := none }
  try
    startFeed f
  catch e =>
    stopFeed f
    if let some r := (← get).tracker.root then
      modifyTracker fun t => { t with root := none }
      stopFeeds r
    throw e
  modifyTracker fun t => { t with feed := some f }

/-- Registers a listener; the first one starts tracking, and if that fails the listener is
unregistered again. Answers the handle and the listener's id. -/
def addListenerNamed (l : Listener) : Run (Handle × ListenerId) := do
  let lid ← addListenerObject l
  let (h, listeners) := (← get).tracker.listeners.insert lid
  modifyTracker fun t => { t with listeners := listeners }
  if listeners.count = 1 then
    try
      startTracking
    catch e =>
      modifyTracker fun t =>
        { t with listeners := match t.listeners.remove h with
                              | some (_, rest) => rest
                              | none => t.listeners }
      throw e
  modifyListener lid fun
    | .journal label leave _ left => .journal label leave (some h) left
    | other => other
  return (h, lid)

/-- Registers a listener and answers its handle. -/
def addListener (l : Listener) : Run Handle := do
  return (← addListenerNamed l).1

/-- Drops the tracker: it stops tracking if it was, and is gone from then on. -/
def dropTracker : Run Unit := do
  if (← get).tracker.feed.isSome then
    tryCatch stopTracking (fun _ => pure ())
  modifyTracker fun t => { t with present := false }

/-- What one listener does on hearing of a change of a node. -/
def hear (lid : ListenerId) (change : Change) (node : InlaidId) : Run Unit := do
  let s ← get
  match s.listener lid with
  | .journal label leave handle left =>
    let src := s.forest.node (s.node node).source
    note (.heard label change src.kind (s.indexOf node) (s.pathOf node)
      (if change = .changed then some src.payload else none))
    if leave && change = .added && !left then
      modifyListener lid fun _ => .journal label leave handle true
      let result ← tryCatch
        (match handle with
          | some h => Except.ok <$> removeListener h
          | none => pure (.ok false))
        (fun e => pure (.error e))
      note (.left label result)
  | .recorder records =>
    let path := match s.pathOf node with
      | .ok p => p.render
      | .error e => "<" ++ e.message ++ ">"
    modifyListener lid fun _ => .recorder (records ++ [⟨change, path, node⟩])
  | .silent => pure ()

/-- Tells every listener registered now, in slot order, of a change; nothing once the tracker
is gone. -/
def notify (change : Change) (node : InlaidId) : Run Unit := do
  let s ← get
  if s.tracker.present then
    for lid in s.tracker.listeners.values do
      hear lid change node

end Inlay.Sync
