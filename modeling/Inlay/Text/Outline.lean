namespace Inlay

/-- A labelled tree. -/
inductive Outline where
  | node (label : String) (children : List Outline)
  deriving Inhabited

namespace Outline

/-- The lines of the children of a node, each after `indent`. -/
def drawChildren (indent : String) : List Outline → String
  | [] => ""
  | [.node label children] =>
    indent ++ "└── " ++ label ++ "\n" ++ drawChildren (indent ++ "    ") children
  | .node label children :: rest =>
    indent ++ "├── " ++ label ++ "\n" ++ drawChildren (indent ++ "│   ") children ++
      drawChildren indent rest

/-- The text of an outline. -/
def draw : Outline → String
  | .node label children => label ++ "\n" ++ drawChildren "" children

end Outline

end Inlay
