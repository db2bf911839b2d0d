import Inlay.Settings
import Inlay.Toml.Read
import Inlay.Text.Float
import Inlay.Text.Literal

namespace Inlay.Settings

open Toml

/-- A value that does not fit a setting: the message and the stretch of text it marks. -/
structure Refusal where
  message : String
  span : Option Span
  deriving Repr

/-- The report of a refusal in the text it was read from. -/
def Refusal.reportIn (r : Refusal) (text : String) : String :=
  match r.span with
  | some s =>
    let (start, stop) := s.bytesIn text
    reportAt text start stop r.message
  | none => r.message ++ "\n"

/-- What a value that should have been a string is, as messages name it. -/
def foundInstead : Item → String
  | .value (.string s) _ => "string " ++ Text.literal s
  | .value (.integer n) _ => "integer `" ++ toString n ++ "`"
  | .value (.float x) _ => "floating point `" ++ Text.pointedFloatText x ++ "`"
  | .value (.boolean b) _ => "boolean `" ++ (if b then "true" else "false") ++ "`"
  | .value (.array _) _ => "sequence"
  | .array _ _ => "sequence"
  | .tables _ _ => "sequence"
  | _ => "map"

/-- The key setting: a string. -/
def keyOf : Item → Except Refusal String
  | .value (.string s) _ => .ok s
  | other =>
    .error ⟨"invalid type: " ++ foundInstead other ++ ", expected a string", other.span?⟩

/-- The layout of a name. -/
def layoutNamed (name : String) : Except String Layout :=
  if name = "keyed" then .ok .keyed
  else if name = "list" then .ok .list
  else .error ("unknown variant `" ++ name ++ "`, expected `keyed` or `list`")

/-- The layout of a table of one key, whose value must be empty. A refusal of the name marks the
key; a refusal of the value marks the value, or the table when the value has no text of its own.
-/
def layoutOfEntries (es : Entries) (span : Option Span) : Except Refusal Layout :=
  match es with
  | [] => .error ⟨"wanted exactly 1 element, found 0 elements", span⟩
  | [(key, inner)] =>
    match layoutNamed key.name with
    | .error m => .error ⟨m, some key.span⟩
    | .ok layout =>
      let refuse (m : String) (s : Option Span) : Except Refusal Layout :=
        .error ⟨m, s.or span⟩
      match inner with
      | .tables items s => if items.isEmpty then .ok layout else refuse "expected empty array" s
      | .array items s =>
        if items.isEmpty then .ok layout else refuse "expected empty table" (some s)
      | .table inner _ _ s =>
        if inner.isEmpty then .ok layout else refuse "expected empty table" s
      | .inline inner _ _ s =>
        if inner.isEmpty then .ok layout else refuse "expected empty table" s
      | other => refuse ("expected table, found " ++ other.kindName) other.span?
  | _ => .error ⟨"wanted exactly 1 element, more than 1 element", span⟩

/-- The layout setting: a name, or a table of one name. -/
def layoutOf : Item → Except Refusal Layout
  | .value (.string s) span => (layoutNamed s).mapError fun m => ⟨m, some span⟩
  | .inline es _ _ span => layoutOfEntries es span
  | .table es _ _ span => layoutOfEntries es span
  | other => .error ⟨"wanted string or table", other.span?⟩

/-- A refusal of the value under `key` marks the value, or the key when the value has no text of
its own. -/
def Refusal.under (r : Refusal) (key : Key) (it : Item) : Refusal :=
  { r with span := r.span.or (it.span?.or (some key.span)) }

/-- The settings of a document's entries, taken in the order written. -/
def ofEntries (es : Entries) : Except Refusal Settings :=
  es.foldlM (fun s (k, it) =>
    (if k.name = "attachments_key" then (fun key => { s with key }) <$> keyOf it
    else if k.name = "path_layout" then (fun layout => { s with layout }) <$> layoutOf it
    else .ok s).mapError (·.under k it)) standard

/-- The settings a TOML text gives, unchecked; missing keys keep their defaults. -/
def decodeToml (text : String) : Except SettingsError Settings := do
  let es ← (readItems text).mapError fun e => .unreadable e.report
  (ofEntries es).mapError fun r => .unreadable (r.reportIn text)

/-- Reads settings from a text with a reader of settings texts, then checks them. -/
def fromTomlWith (decode : String → Except SettingsError Settings) (text : String) :
    Except SettingsError Settings := do
  let s ← decode text
  s.validate

/-- Reads settings from a TOML text; missing keys keep their defaults. -/
def fromToml (text : String) : Except SettingsError Settings :=
  fromTomlWith decodeToml text

end Inlay.Settings
