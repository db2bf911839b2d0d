import Inlay.Toml.Quoted

namespace Inlay.Toml

/-- The forms a string can be written in. -/
inductive StringForm where
  | basic
  | literal
  | multiBasic
  | multiLiteral
  deriving DecidableEq, Repr

/-- Whether a character can only be written as an escape: a control character other than tab and
newline, or delete. -/
def isEscapeOnly (c : Char) : Bool := c.val ≤ 0x1f && c ≠ '\t' && c ≠ '\n' || c.val = 0x7f

/-- The longest run of `q` in a list of characters. -/
def longestRun (q : Char) (cs : List Char) : Nat :=
  (cs.foldl (fun (best, run) c =>
    if c = q then (max best (run + 1), run + 1) else (best, 0)) (0, 0)).1

/-- What decides the form of a string. -/
structure StringTraits where
  /-- The longest run of single quotes. -/
  singles : Nat
  /-- The longest run of double quotes. -/
  doubles : Nat
  /-- Whether some character can only be written as an escape. -/
  codes : Bool
  backslash : Bool
  newline : Bool
  deriving DecidableEq, Repr

/-- The traits of a string. -/
def StringTraits.of (s : String) : StringTraits :=
  let cs := s.toList
  ⟨longestRun '\'' cs, longestRun '"' cs, cs.any isEscapeOnly, cs.contains '\\',
    cs.contains '\n'⟩

/-- The form a string is written in. -/
def stringForm (s : String) : StringForm :=
  let t := StringTraits.of s
  if !t.codes && !t.backslash && t.doubles = 0 && !t.newline then .basic
  else if !t.codes && t.singles = 0 && !t.newline then .literal
  else if !t.codes && !t.backslash && t.doubles ≤ 2 then .multiBasic
  else if !t.codes && t.singles ≤ 2 then .multiLiteral
  else if t.newline then .multiBasic
  else .basic

/-- A character other than a double quote in a basic string, escaped where it must be. -/
def basicEscape (multiLine : Bool) (c : Char) : String :=
  match c with
  | '\x08' => "\\b"
  | '\t' => "\\t"
  | '\n' => if multiLine then "\n" else "\\n"
  | '\x0c' => "\\f"
  | '\r' => "\\r"
  | '\\' => "\\\\"
  | c =>
    if c.val ≤ 0x1f || c.val = 0x7f then
      let h := Nat.toDigits 16 c.toNat
      "\\u" ++ String.ofList ((List.replicate (4 - h.length) '0' ++ h).map Char.toUpper)
    else c.toString

/-- The body of a basic string. A double quote is escaped when it would make a run longer than
the form allows: none on one line, two on several; an escape ends the run. -/
def basicBody (multiLine : Bool) (cs : List Char) : String :=
  let most := if multiLine then 2 else 0
  (cs.foldl (fun (out, run) c =>
    if c = '"' then
      if most < run + 1 then (out ++ "\\\"", 0) else (out.push '"', run + 1)
    else (out ++ basicEscape multiLine c, 0)) ("", 0)).1

/-- A string as TOML writes it. -/
def stringText (s : String) : String :=
  let lead := if s.contains '\n' then "\n" else ""
  match stringForm s with
  | .basic => "\"" ++ basicBody false s.toList ++ "\""
  | .literal => "'" ++ s ++ "'"
  | .multiBasic => "\"\"\"" ++ lead ++ basicBody true s.toList ++ "\"\"\""
  | .multiLiteral => "'''" ++ lead ++ s ++ "'''"

/-- A key as TOML writes it: bare when it can be; literal when a basic string would need an
escape for a backslash or a double quote and a literal string can hold it; else basic. -/
def keyText (k : String) : String :=
  let cs := k.toList
  let codes := cs.any fun c => c.val ≤ 0x1f && c ≠ '\t' || c.val = 0x7f
  if !cs.isEmpty && cs.all isBareKeyChar then k
  else if !codes && (cs.contains '\\' || cs.contains '"') && !cs.contains '\'' then
    "'" ++ k ++ "'"
  else "\"" ++ basicBody false cs ++ "\""

end Inlay.Toml
