import Inlay.Settings.Read
import Inlay.Text.Case

namespace Inlay.Settings

/-- A configuration value while layers are merged. -/
inductive Layered where
  /-- Text, which strings and datetimes become. -/
  | text (s : String)
  /-- A boolean, integer or float, kept as the text it turns into. -/
  | scalar (s : String)
  /-- A list, with the file it came from when known. -/
  | list (origin : Option String)
  /-- A table, with the file it came from when known. -/
  | table (entries : List (String × Layered)) (origin : Option String)
  deriving Inhabited

/-- Entries of a configuration table. -/
abbrev LayeredEntries := List (String × Layered)

namespace Layered

/-- The value under `key`. -/
def lookup (es : LayeredEntries) (key : String) : Option Layered :=
  (es.find? (·.1 == key)).map (·.2)

/-- `v` under `key`, in place of what was there or at the end. -/
def put (es : LayeredEntries) (key : String) (v : Layered) : LayeredEntries :=
  if es.any (·.1 == key) then es.map (fun e => if e.1 == key then (key, v) else e)
  else es ++ [(key, v)]

mutual

/-- Sets `key`, in lower case, to `v`: a table merges into what is there, anything else replaces
it. -/
def setIn : LayeredEntries → String → Layered → LayeredEntries
  | es, key, .table incoming _ =>
    let key := Text.lowercase key
    put es key (mergeAll ((lookup es key).getD (.table [] none)) incoming)
  | es, key, v => put es (Text.lowercase key) v

/-- Merges entries into a value, which becomes a table on the first entry unless it is one. -/
def mergeAll : Layered → LayeredEntries → Layered
  | target, [] => target
  | .table es origin, (k, w) :: rest => mergeAll (.table (setIn es k w) origin) rest
  | _, (k, w) :: rest => mergeAll (.table (setIn [] k w) none) rest

end

/-- A step of a key path. -/
inductive Step where
  | name (s : String)
  | index (i : Int)
  deriving DecidableEq, Repr

/-- A character of a name in a key path. -/
def isPathNameChar (c : Char) : Bool :=
  c.isAlphanum || c = ' ' || c = '_' || c = '-'

/-- Reads the steps after the first name: `.name` and `[integer]`, with blanks allowed around
the integer. At most `fuel` steps. -/
def pathSteps : Nat → List Char → Option (List Step)
  | _, [] => some []
  | 0, _ => none
  | fuel + 1, '.' :: rest =>
    let name := rest.takeWhile isPathNameChar
    if name.isEmpty then none
    else (Step.name (String.ofList name) :: ·) <$> pathSteps fuel (rest.drop name.length)
  | fuel + 1, '[' :: rest =>
    let inner := rest.dropWhile (· = ' ')
    let (negative, digitsFrom) : Bool × List Char := match inner with
      | '-' :: ds => (true, ds)
      | ds => (false, ds)
    let digits := digitsFrom.takeWhile Char.isDigit
    let after := (digitsFrom.drop digits.length).dropWhile (· = ' ')
    match digits.isEmpty, after with
    | false, ']' :: more =>
      let n : Int := Toml.decimalDigitsValue digits
      (Step.index (if negative then -n else n) :: ·) <$> pathSteps fuel more
    | _, _ => none
  | _ + 1, _ => none

/-- A key read as a path; a key that is no path is a single name. -/
def pathOf (key : String) : List Step :=
  let cs := key.toList
  let first := cs.takeWhile isPathNameChar
  if first.isEmpty then [.name key]
  else match pathSteps cs.length (cs.drop first.length) with
    | some steps => .name (String.ofList first) :: steps
    | none => [.name key]

/-- Sets a value at a path: tables are made where a name needs one, lists where an index does.
The contents of lists are never read, so a list only keeps its origin. -/
def setPath : LayeredEntries → List Step → Layered → LayeredEntries
  | es, [.name k], v => setIn es k v
  | es, .name k :: .index _ :: _, _ =>
    match lookup es k with
    | some (.list origin) => put es k (.list origin)
    | _ => put es k (.list none)
  | es, .name k :: rest, v =>
    match lookup es k with
    | some (.table inner origin) => put es k (.table (setPath inner rest v) origin)
    | _ => put es k (.table (setPath [] rest v) none)
  | es, _, _ => es

mutual

/-- A TOML value as a configuration value from the file `origin`. -/
def ofValue (origin : Option String) : Toml.Value → Layered
  | .string s => .text s
  | .datetime d => .text d.render
  | .integer n => .scalar (toString n)
  | .float x => .scalar (Text.plainFloatText x)
  | .boolean b => .scalar (if b then "true" else "false")
  | .array _ => .list origin
  | .table es => .table (ofEntries origin es) origin

/-- TOML entries as configuration entries. -/
def ofEntries (origin : Option String) : List (String × Toml.Value) → LayeredEntries
  | [] => []
  | (k, v) :: rest => (k, ofValue origin v) :: ofEntries origin rest

end

end Layered

/-- A settings file of a layer: absent, required but missing, or present with its text. -/
inductive FileLayer where
  | absent
  | missing (name : String)
  | present (name text : String)
  deriving DecidableEq, Repr

/-- The top-level entries a file layer brings. -/
def FileLayer.entries : FileLayer → Except SettingsError LayeredEntries
  | .absent => .ok []
  | .missing name => .error (.fileMissing name)
  | .present name text =>
    match Toml.read text with
    | .ok table => .ok (Layered.ofEntries (some name) table)
    | .error e => .error (.fileUnreadable e.report name)

/-- The entries the environment brings. -/
def environmentEntries (env : List (String × String)) : LayeredEntries :=
  env.filterMap fun (name, value) =>
    let lower := Text.lowercase name
    let pfx := "modeltree__"
    if pfx.isPrefixOf lower then
      some ((String.ofList (lower.toList.drop pfx.length)).replace "__" ".", .text value)
    else none

/-- The defaults, as the first layer. -/
def defaultEntries : LayeredEntries :=
  [("attachments_key", .text standard.key), ("path_layout", .text "keyed")]

/-- Entries merged, each key read in lower case as a path. -/
def mergeEntries (base : LayeredEntries) (layer : LayeredEntries) :
    LayeredEntries :=
  layer.foldl (fun acc (k, v) => Layered.setPath acc (Layered.pathOf (Text.lowercase k)) v) base

/-- The layout of a name in any case. -/
def layoutInAnyCase (name : String) : Except SettingsError Layout :=
  let lower := Text.lowercase name
  if lower = "keyed" then .ok .keyed
  else if lower = "list" then .ok .list
  else .error (.unknownLayout name)

/-- The settings of merged layers. -/
def ofLayered (es : LayeredEntries) : Except SettingsError Settings := do
  let key ← match Layered.lookup es "attachments_key" with
    | some (.text s) => pure s
    | some (.scalar s) => pure s
    | some (.list origin) => throw (.notText "sequence" "attachments_key" origin)
    | some (.table _ origin) => throw (.notText "map" "attachments_key" origin)
    | none => pure standard.key
  let layout ← match Layered.lookup es "path_layout" with
    | some (.text s) => layoutInAnyCase s
    | some (.table [(name, _)] _) => layoutInAnyCase name
    | none => pure standard.layout
    | some _ => throw .layoutShape
  validate ⟨key, layout⟩

/-- Settings from the defaults, a global file, a local file and the environment, in that order
of precedence. -/
def load (global localFile : FileLayer) (env : List (String × String)) :
    Except SettingsError Settings := do
  let globalEntries ← global.entries
  let localEntries ← localFile.entries
  let merged := [globalEntries, localEntries, environmentEntries env].foldl mergeEntries
    defaultEntries
  ofLayered merged

end Inlay.Settings
