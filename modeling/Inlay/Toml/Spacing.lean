import Inlay.Toml.Scan

namespace Inlay.Toml

open Reader

/-- A space or a tab. -/
def isBlank (c : Char) : Bool := c = ' ' || c = '\t'

/-- A character that may stand inside a comment. -/
def isCommentChar (c : Char) : Bool := c = '\t' || (' ' ≤ c && c ≤ '~') || c.val ≥ 0x80

/-- A run of blanks, possibly empty. -/
def blanks : Reader Unit := do
  let _ ← takeWhile isBlank 0 none

/-- A comment, without the line ending after it. -/
def comment : Reader Unit := do
  literal "#"
  let _ ← takeWhile isCommentChar 0 none

/-- A line feed, or a carriage return and a line feed. Any other character is taken before the
miss: the miss stands after a character of one byte, and at the start of a longer one, since a
miss never stands inside a character. -/
def newline : Reader Unit := fun cs =>
  match cs with
  | '\n' :: rest => .ok ((), rest)
  | '\r' :: rest =>
    match rest with
    | '\n' :: after => .ok ((), after)
    | _ => .error (missAt rest)
  | c :: rest =>
    if c.val < 0x80 then .error (missAt rest) else .error (missAt cs)
  | [] => .error (missAt cs)

/-- A newline or the end of the input. -/
def lineEnding : Reader Unit := firstOf [newline, atEnd]

/-- The rest of a line after a value or a header: blanks, an optional comment, a line ending. -/
def lineTrailing : Reader Unit := do
  blanks
  let _ ← optional comment
  lineEnding

/-- Blanks and newlines, possibly none. -/
def blankLines : Reader Unit := do
  let _ ← many (firstOf [newline, do let _ ← takeWhile isBlank 1 none])

/-- A newline, then blanks and newlines. -/
def newlineThenBlankLines : Reader Unit := do
  newline
  blankLines

/-- At most `fuel` rounds of blanks followed by a comment with its newline, or by a newline. -/
def blankCommentLinesWithin : Nat → Reader Unit
  | 0 => pure ()
  | fuel + 1 => fun cs =>
    let after := cs.dropWhile isBlank
    let step : Option (Reader Unit) := match after with
      | '#' :: _ => some (do comment; newline)
      | '\n' :: _ => some newline
      | '\r' :: _ => some newline
      | _ => none
    match step with
    | none => .ok ((), after)
    | some r =>
      match r after with
      | .ok ((), rest) =>
        if rest.length < cs.length then blankCommentLinesWithin fuel rest else .ok ((), rest)
      | .error m => .error m

/-- Blanks, comments and newlines, as between the items of an array. -/
def blankCommentLines : Reader Unit := fun cs => blankCommentLinesWithin (cs.length + 1) cs

end Inlay.Toml
