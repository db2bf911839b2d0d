import Inlay.Toml.Item
import Inlay.Toml.Write

namespace Inlay.Toml

/-- Why a document's keys do not fit together. -/
inductive AssemblyFault where
  /-- A key given twice, with the table it was given in when that is known. -/
  | duplicateKey (key : String) (table : Option (List String))
  /-- A dotted key reaching into a value of the named kind. -/
  | extendsValue (path : List String) (kind : String)
  deriving Repr

namespace AssemblyFault

/-- The text of the fault. -/
def message : AssemblyFault → String
  | .duplicateKey key none => "duplicate key `" ++ key ++ "`"
  | .duplicateKey key (some []) => "duplicate key `" ++ key ++ "` in document root"
  | .duplicateKey key (some table) =>
    "duplicate key `" ++ key ++ "` in table `" ++ ".".intercalate table ++ "`"
  | .extendsValue path kind =>
    "dotted key `" ++ ".".intercalate path ++ "` attempted to extend non-table type (" ++ kind ++
      ")"

end AssemblyFault

/-- The outcome of a step of assembly. -/
abbrev Assembled (α : Type) := Except AssemblyFault α

/-- Runs `k` on the table at the end of a key path and puts the result back. `done` are the keys
already descended, `here` whether the table reached so far was made by dotted keys. Missing
tables are made implicit, and dotted when `dotted`; with `dotted`, a table defined by a header
may not be entered. -/
def descend {α : Type} (dotted : Bool) (k : Bool → Entries → Assembled (Entries × α)) :
    List String → List Key → Bool → Entries → Assembled (Entries × α)
  | _, [], here, es => k here es
  | done, key :: rest, _, es =>
    let path := done ++ [key.name]
    match es.lookup key.name with
    | none => do
      let (inner, a) ← descend dotted k path rest dotted []
      return (es.put key (.table inner true dotted none), a)
    | some (.table inner implicit dot span) =>
      if dotted && !implicit then .error (.duplicateKey key.name none)
      else do
        let (inner', a) ← descend dotted k path rest dot inner
        return (es.put key (.table inner' implicit dot span), a)
    | some (.tables items span) =>
      match items.getLast? with
      | some (.table inner implicit dot tableSpan) => do
        let (inner', a) ← descend dotted k path rest dot inner
        let items' := items.dropLast ++ [.table inner' implicit dot tableSpan]
        return (es.put key (.tables items' span), a)
      | _ => .error (.extendsValue path "array of tables")
    | some other => .error (.extendsValue path other.kindName)

/-- The span from the first of some tables to the last. -/
def spanOfTables (items : List Item) : Option Span :=
  match items.head?.bind Item.span?, items.getLast?.bind Item.span? with
  | some first, some last => some ⟨first.startLeft, last.stopLeft⟩
  | _, _ => none

/-- The state of assembly: the document so far, and the table under the last header, which is
not yet part of it. -/
structure Assembly where
  root : Entries
  current : Entries
  currentSpan : Option Span
  /-- The keys of the last header; none before the first. -/
  path : List Key
  isArray : Bool
  deriving Inhabited

namespace Assembly

/-- Nothing read yet. -/
def start : Assembly := ⟨[], [], some ⟨0, 0⟩, [], false⟩

/-- A line `path.key = v` under the current header. -/
def onKeyval (a : Assembly) (path : List Key) (key : Key) (v : Item) :
    Assembled Assembly := do
  let span := match a.currentSpan, v.span? with
    | some s, some vs => some ⟨s.startLeft, vs.stopLeft⟩
    | s, _ => s
  let (current, ()) ← descend true (fun dot es =>
      if dot == path.isEmpty then .error (.duplicateKey key.name none)
      else match es.lookup key.name with
        | none => .ok (es ++ [(key, v)], ())
        | some _ => .error (.duplicateKey key.name (some (a.path.map (·.name))))) [] path false
      a.current
  return { a with current, currentSpan := span }

/-- The current table joined to the document. -/
def finish (a : Assembly) : Assembled Assembly := do
  let cleared := { a with current := [], currentSpan := none, path := [] }
  match a.path.getLast? with
  | none => return { cleared with root := a.current }
  | some key =>
    let parent := a.path.dropLast
    let table := Item.table a.current false false a.currentSpan
    let taken := AssemblyFault.duplicateKey (keyText key.name) (some (parent.map (·.name)))
    let (root, ()) ← descend false (fun _ es =>
        match es.lookup key.name, a.isArray with
        | none, true => .ok (es.put key (.tables [table] (spanOfTables [table])), ())
        | some (.tables items _), true =>
          .ok (es.put key (.tables (items ++ [table]) (spanOfTables (items ++ [table]))), ())
        | none, false => .ok (es.put key table, ())
        | some (.table _ true _ _), false => .ok (es.put key table, ())
        | _, _ => .error taken) [] parent false a.root
    return { cleared with root }

/-- A header `[path]` read over `span`. -/
def onTableHeader (a : Assembly) (path : List Key) (span : Span) : Assembled Assembly := do
  let a ← a.finish
  match path.getLast? with
  | none => return a
  | some key =>
    let parent := path.dropLast
    let (root, taken) ← descend false (fun _ es =>
        match es.lookup key.name with
        | none => .ok (es, [])
        | some (.table inner true false _) => .ok (es.remove key.name, inner)
        | some _ => .error (.duplicateKey (keyText key.name) (some (parent.map (·.name)))))
      [] parent false a.root
    return { a with root, current := taken, currentSpan := some span, path, isArray := false }

/-- A header `[[path]]` read over `span`. -/
def onArrayHeader (a : Assembly) (path : List Key) (span : Span) : Assembled Assembly := do
  let a ← a.finish
  match path.getLast? with
  | none => return a
  | some key =>
    let parent := path.dropLast
    let (root, ()) ← descend false (fun _ es =>
        match es.lookup key.name with
        | none => .ok (es.put key (.tables [] none), ())
        | some (.tables _ _) => .ok (es, ())
        | some _ => .error (.duplicateKey (keyText key.name) (some (parent.map (·.name)))))
      [] parent false a.root
    return { a with root, current := [], currentSpan := some span, path, isArray := true }

end Assembly

/-- Descends an inline table along a dotted key: missing tables are made implicit and dotted,
and only such tables may be entered. -/
def descendInline {α : Type} (k : Bool → Entries → Assembled (Entries × α)) :
    List String → List Key → Bool → Entries → Assembled (Entries × α)
  | _, [], here, es => k here es
  | done, key :: rest, _, es =>
    let path := done ++ [key.name]
    match es.lookup key.name with
    | none => do
      let (inner, a) ← descendInline k path rest true []
      return (es.put key (.inline inner true true none), a)
    | some (.inline inner implicit dot span) =>
      if !implicit then .error (.duplicateKey key.name none)
      else do
        let (inner', a) ← descendInline k path rest dot inner
        return (es.put key (.inline inner' implicit dot span), a)
    | some other => .error (.extendsValue path other.kindName)

/-- The entries of an inline table from its `path.key = v` pairs, in order. -/
def inlineEntries : Entries → List (List Key × Key × Item) → Assembled Entries
  | es, [] => .ok es
  | es, (path, key, v) :: more => do
    let (es', ()) ← descendInline (fun dot inner =>
        if dot == path.isEmpty then .error (.duplicateKey key.name none)
        else match inner.lookup key.name with
          | none => .ok (inner ++ [(key, v)], ())
          | some _ => .error (.duplicateKey key.name none)) [] path false es
    inlineEntries es' more

end Inlay.Toml
