import Inlay.Path

namespace Inlay

/-- What can be wrong with the written form of a path. -/
inductive PathFault where
  | missingLeadingSlash
  | strayClose
  | unclosedBracket
  | indexNotANumber
  | textAfterBracket
  deriving DecidableEq, Repr

/-- The reason as it is reported. -/
def PathFault.reason : PathFault → String
  | .missingLeadingSlash => "must start with '/'"
  | .strayClose => "unexpected ']'"
  | .unclosedBracket => "unclosed '['"
  | .indexNotANumber => "list index is not a number"
  | .textAfterBracket => "unexpected text after ']'"

/-- A path text that could not be read, with the reason. -/
structure PathError where
  input : String
  fault : PathFault
  deriving DecidableEq, Repr

/-- The report names the text and the reason. -/
def PathError.message (e : PathError) : String :=
  "invalid config path '" ++ e.input ++ "': " ++ e.fault.reason

namespace Path

/-- The largest list position: positions are machine words of 64 bits. -/
def maxPosition : Nat := Nat.pow 2 64 - 1

/-- The value of a nonempty run of decimal digits. -/
def digitsValue (cs : List Char) : Option Nat :=
  if cs ≠ [] ∧ cs.all Char.isDigit then
    some (cs.foldl (fun acc c => acc * 10 + (c.toNat - '0'.toNat)) 0)
  else none

/-- A list position in decimal: an optional `+`, digits, and no more than `maxPosition`. -/
def readPosition (cs : List Char) : Option Nat :=
  let digits := match cs with
    | '+' :: rest => rest
    | _ => cs
  match digitsValue digits with
  | some n => if n ≤ maxPosition then some n else none
  | none => none

/-- Reads the bracket groups that follow a key. `pending` holds the text read since the last
`[` (reversed), or is `none` between groups. A group's position is read when its `]` is met, so a
bad position is reported before anything that follows it. -/
def readGroups : Option (List Char) → List Char → Except PathFault (List Nat)
  | none, [] => .ok []
  | none, '[' :: cs => readGroups (some []) cs
  | none, _ :: _ => .error .textAfterBracket
  | some _, [] => .error .unclosedBracket
  | some acc, c :: cs =>
    if c = ']' then
      match readPosition acc.reverse with
      | none => .error .indexNotANumber
      | some n => (readGroups none cs).map (n :: ·)
    else readGroups (some (c :: acc)) cs

/-- The segments of one part between slashes: its key, if not empty, then its positions. -/
def readPart (part : List Char) : Except PathFault (List Segment) := do
  let key := part.takeWhile (· ≠ '[')
  if key.contains ']' then throw .strayClose
  let positions ← readGroups none (part.dropWhile (· ≠ '['))
  let head := if key.isEmpty then [] else [Segment.key (String.ofList key)]
  return head ++ positions.map Segment.index

/-- The segments of all parts, in order; the first bad part decides the fault. -/
def readParts : List (List Char) → Except PathFault (List Segment)
  | [] => .ok []
  | part :: parts => do
    let first ← readPart part
    let rest ← readParts parts
    return first ++ rest

/-- Reads the written form of a path. -/
def parse (text : String) : Except PathError Path :=
  let fail := fun (fault : PathFault) => Except.error (PathError.mk text fault)
  match text.toList with
  | '/' :: rest =>
    match readParts ((rest.splitOn '/').filter (· ≠ [])) with
    | .ok segments => .ok ⟨segments⟩
    | .error fault => fail fault
  | _ => fail .missingLeadingSlash

/-- Whether reading the written form of `p` gives `p` back. It fails for a path that starts
with a list position, whose written form does not start with `/`. -/
def readsBack (p : Path) : Bool :=
  match parse p.render with
  | .ok q => q == p
  | .error _ => false

end Path

end Inlay
