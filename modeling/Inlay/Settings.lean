import Inlay.Source.Node
import Inlay.Text.Blank

namespace Inlay

/-- The settings of a session. -/
structure Settings where
  key : String
  layout : Layout
  deriving DecidableEq, Repr, Inhabited

namespace Settings

/-- `attachments`, keyed. -/
def standard : Settings := ⟨"attachments", .keyed⟩

/-- The style that trees take from the settings. -/
def style (s : Settings) : Style := ⟨s.key, s.layout⟩

end Settings

/-- Why settings could not be had. -/
inductive SettingsError where
  /-- The key is blank. -/
  | blankKey
  /-- A settings text could not be read as settings; the report says where and why. -/
  | unreadable (report : String)
  /-- A settings file is no TOML document; the report says where and why. -/
  | fileUnreadable (report file : String)
  /-- A settings file that must exist does not. -/
  | fileMissing (file : String)
  /-- A key is not text but what `found` names; `origin` is the file it came from, when known. -/
  | notText (found key : String) (origin : Option String)
  /-- A layout name that is neither `keyed` nor `list`, in any case. -/
  | unknownLayout (name : String)
  /-- A layout that is neither a name nor a table of one key. -/
  | layoutShape
  deriving DecidableEq, Repr, Inhabited

/-- The report of a settings error. -/
def SettingsError.message : SettingsError → String
  | .blankKey => "attachments_key must not be empty"
  | .unreadable report => "parse settings: " ++ report
  | .fileUnreadable report file => report ++ " in " ++ file
  | .fileMissing file => "configuration file \"" ++ file ++ "\" not found"
  | .notText found key origin =>
    "invalid type: " ++ found ++ ", expected a string for key `" ++ key ++ "`" ++
      (match origin with
        | some o => " in " ++ o
        | none => "")
  | .unknownLayout name => "enum PathLayout does not have variant constructor " ++ name
  | .layoutShape =>
    "value of enum PathLayout should be represented by either string or table with exactly one key"

namespace Settings

/-- Settings are valid when their key is not blank. -/
def validate (s : Settings) : Except SettingsError Settings :=
  if Text.isBlankText s.key then .error .blankKey else .ok s

end Settings

end Inlay
