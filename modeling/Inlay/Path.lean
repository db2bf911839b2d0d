namespace Inlay

/-- One step of a configuration path: a named key of a mapping, or a position in a list. -/
inductive Segment where
  | key (name : String)
  | index (position : Nat)
  deriving DecidableEq, Repr, Inhabited

/-- An absolute configuration path, as the list of its segments from the root. -/
structure Path where
  segments : List Segment
  deriving DecidableEq, Repr, Inhabited

namespace Segment

/-- A key is written after a slash, a list position between brackets. -/
def render : Segment → String
  | .key name => "/" ++ name
  | .index position => "[" ++ toString position ++ "]"

end Segment

namespace Path

/-- The root path, with no segment. -/
def root : Path := ⟨[]⟩

/-- Number of segments. -/
def length (p : Path) : Nat := p.segments.length

/-- Whether the path has no segment, that is, addresses the root. -/
def isRoot (p : Path) : Bool := p.segments.isEmpty

/-- The path of a named child below `p`. -/
def child (p : Path) (name : String) : Path := ⟨p.segments ++ [.key name]⟩

/-- The path of a list element below `p`. -/
def listChild (p : Path) (position : Nat) : Path := ⟨p.segments ++ [.index position]⟩

/-- The path with its last segment dropped; the root is its own parent. -/
def parent (p : Path) : Path := ⟨p.segments.dropLast⟩

/-- All segments of `q` appended below `p`. -/
def join (p q : Path) : Path := ⟨p.segments ++ q.segments⟩

/-- Whether the last segment is a list position. -/
def isListElement (p : Path) : Bool :=
  match p.segments.getLast? with
  | some (.index _) => true
  | _ => false

/-- The written form: `/` for the root, else the segments' written forms in order. -/
def render (p : Path) : String :=
  match p.segments with
  | [] => "/"
  | segments => String.join (segments.map Segment.render)

@[simp] theorem segments_child (p : Path) (name : String) :
    (p.child name).segments = p.segments ++ [.key name] := rfl

@[simp] theorem segments_listChild (p : Path) (position : Nat) :
    (p.listChild position).segments = p.segments ++ [.index position] := rfl

@[simp] theorem segments_join (p q : Path) : (p.join q).segments = p.segments ++ q.segments := rfl

@[simp] theorem segments_parent (p : Path) : p.parent.segments = p.segments.dropLast := rfl

/-- The root is its own parent. -/
theorem parent_root : root.parent = root := rfl

/-- Going to a named child and back up returns the path. -/
theorem parent_child (p : Path) (name : String) : (p.child name).parent = p := by
  cases p
  simp [child, parent]

/-- Going to a list element and back up returns the path. -/
theorem parent_listChild (p : Path) (position : Nat) : (p.listChild position).parent = p := by
  cases p
  simp [listChild, parent]

/-- Joining the root below a path changes nothing. -/
theorem join_root (p : Path) : p.join root = p := by
  cases p
  simp [join, root]

theorem isListElement_listChild (p : Path) (position : Nat) :
    (p.listChild position).isListElement = true := by
  simp [isListElement, listChild]

theorem isListElement_child (p : Path) (name : String) : (p.child name).isListElement = false := by
  simp [isListElement, child]

end Path

end Inlay
