namespace Inlay

/-- Why an operation on a source tree or on an inlaid tree failed. -/
inductive Fault where
  /-- A child position past the end; `count` is the number of children there. -/
  | indexOutOfBounds (index count : Nat)
  /-- An address with no step where a child was meant. -/
  | emptyPath
  /-- A root announced or set where one already is. -/
  | rootAlreadyExists
  /-- A root needed for `occasion` (an event name, or `lookup`) where there is none. -/
  | rootMissing (occasion : String)
  /-- A node without an inlined model asked for it; `name` is its model name, or its type. -/
  | notExpanded (name : String)
  /-- A child added below a removed node. -/
  | detachedNode
  /-- A tree that serves another model than the one a model node names. -/
  | modelMismatch (expected actual : String)
  deriving DecidableEq, Repr

namespace Fault

/-- The report of a fault. -/
def message : Fault → String
  | .indexOutOfBounds index count =>
    "child index out of bounds: " ++ toString index ++ " (children: " ++ toString count ++ ")"
  | .emptyPath => "child path is empty"
  | .rootAlreadyExists => "root being added while one already exists"
  | .rootMissing occasion => occasion ++ " event received, but there is no root"
  | .notExpanded name => "model '" ++ name ++ "' does not store an inlined model child"
  | .detachedNode => "children cannot be added to a removed node"
  | .modelMismatch expected actual =>
    "model provider for '" ++ expected ++ "' reported model '" ++ actual ++ "'"

end Fault

end Inlay
