import Inlay.Toml.Grammar
import Inlay.Toml.Report

namespace Inlay.Toml

/-- A document that could not be read: the report, with the place in the text. -/
structure ReadError where
  report : String
  deriving Repr, Inhabited

/-- Reads a document into its entries as read, keeping spans and the order of writing. -/
def readItems (text : String) : Except ReadError Entries :=
  match document text.toList with
  | .error m => .error ⟨m.reportIn text⟩
  | .ok (a, _) =>
    match a.finish with
    | .error f => .error ⟨f.message ++ "\n"⟩
    | .ok done => .ok done.root

/-- Reads a document into its table. -/
def read (text : String) : Except ReadError Table :=
  (readItems text).map Item.entriesToTable

end Inlay.Toml
