import Inlay.Settings
import Inlay.Toml.Write

namespace Inlay.Settings

/-- The name of a layout in settings. -/
def layoutName : Layout → String
  | .keyed => "keyed"
  | .list => "list"

/-- The settings as a TOML document: the key, then the layout. -/
def toToml (s : Settings) : String :=
  "attachments_key = " ++ Toml.stringText s.key ++ "\n" ++
    "path_layout = " ++ Toml.stringText (layoutName s.layout) ++ "\n"

/-- A settings file with every setting commented out at its default. -/
def template : String :=
  "# modeltree configuration
#
# Locations (by precedence, lowest to highest):
#   Global: ~/.config/modeltree/modeltree.toml
#   Local:  file passed to Settings::load
#   Env:    MODELTREE__* environment variables (e.g. MODELTREE__ATTACHMENTS_KEY)

# Key holding the child nodes of a configuration node. A model node without
# children of its own addresses its inlined model at <path>/<key>/0.
# attachments_key = \"attachments\"

# Addressing of in-memory source trees: \"keyed\" (/attachments/0)
# or \"list\" (/attachments[0])
# path_layout = \"keyed\"
"

end Inlay.Settings
