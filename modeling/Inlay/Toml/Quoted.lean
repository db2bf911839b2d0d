import Inlay.Toml.Spacing
import Inlay.Toml.Item

namespace Inlay.Toml

open Reader

/-- A character that stands for itself in a basic string. -/
def isBasicPlain (c : Char) : Bool :=
  c = ' ' || c = '\t' || c = '!' || ('#' ≤ c && c ≤ '[') || (']' ≤ c && c ≤ '~') ||
    c.val ≥ 0x80

/-- A character of a literal string. -/
def isLiteralChar (c : Char) : Bool :=
  c = '\t' || (' ' ≤ c && c ≤ '&') || ('(' ≤ c && c ≤ '~') || c.val ≥ 0x80

/-- A character of a bare key. -/
def isBareKeyChar (c : Char) : Bool :=
  ('A' ≤ c && c ≤ 'Z') || ('a' ≤ c && c ≤ 'z') || ('0' ≤ c && c ≤ '9') || c = '-' ||
    c = '_'

/-- A hexadecimal digit. -/
def isHexDigit (c : Char) : Bool :=
  ('0' ≤ c && c ≤ '9') || ('a' ≤ c && c ≤ 'f') || ('A' ≤ c && c ≤ 'F')

/-- The value of a hexadecimal digit. -/
def hexValue (c : Char) : Nat :=
  if '0' ≤ c && c ≤ '9' then c.toNat - '0'.toNat
  else if 'a' ≤ c && c ≤ 'f' then c.toNat - 'a'.toNat + 10
  else c.toNat - 'A'.toNat + 10

/-- The number written by hexadecimal digits. -/
def hexDigitsValue (ds : List Char) : Nat :=
  ds.foldl (fun acc d => 16 * acc + hexValue d) 0

/-- Exactly `n` hexadecimal digits naming a scalar value. -/
def hexEscape (n : Nat) : Reader Char :=
  tryMap (check (takeWhile isHexDigit 0 (some n)) (fun ds => ds.length == n)) fun ds =>
    let v := hexDigitsValue ds
    if v < 0xD800 || (0xE000 ≤ v && v < 0x110000) then .ok (Char.ofNat v)
    else .error "value is out of range"

/-- What may follow a backslash in a basic string. -/
def escapeExpectations : List String :=
  ["`b`", "`f`", "`n`", "`r`", "`t`", "`u`", "`U`", "`\\`", "`\"`"]

/-- The character after a backslash. An unknown one is a committed miss after it when it is a
single byte, and at its start otherwise. -/
def escapeCode : Reader Char := fun cs =>
  match cs with
  | [] => .error (missAt cs)
  | c :: rest =>
    match c with
    | 'b' => .ok ('\x08', rest)
    | 'f' => .ok ('\x0c', rest)
    | 'n' => .ok ('\n', rest)
    | 'r' => .ok ('\r', rest)
    | 't' => .ok ('\t', rest)
    | '\\' => .ok ('\\', rest)
    | '"' => .ok ('"', rest)
    | 'u' => labelled "unicode 4-digit hex code" (commit (hexEscape 4)) rest
    | 'U' => labelled "unicode 8-digit hex code" (commit (hexEscape 8)) rest
    | _ =>
      let at_ := if c.val < 0x80 then missAt rest else missAt cs
      .error { at_ with
        committed := true
        hints := .label "escape sequence" :: escapeExpectations.map .expected }

/-- A backslash and the character it stands for. -/
def escaped : Reader Char := do
  literal "\\"
  escapeCode

/-- A run of plain characters or one escape of a basic string. -/
def basicPiece : Reader String :=
  firstOf [(fun cs => String.ofList cs) <$> takeWhile isBasicPlain 1 none,
    (fun c => c.toString) <$> escaped]

/-- A basic string. -/
def basicString : Reader String := do
  literal "\""
  let pieces ← many basicPiece
  labelled "basic string" (commit (literal "\""))
  return String.join pieces

/-- A line-ending backslash with the blanks and newlines it removes. -/
def escapedLineEnd : Reader Unit := do
  let _ ← sepBy1 (do literal "\\"; blanks; newlineThenBlankLines) (pure ())

/-- A piece of a multi-line basic string. -/
def multiBasicPiece : Reader String :=
  firstOf [(fun cs => String.ofList cs) <$> takeWhile isBasicPlain 1 none,
    (fun _ => "") <$> escapedLineEnd,
    (fun c => c.toString) <$> escaped,
    (fun _ => "\n") <$> newline]

/-- One or two quotes `q` followed by what `follow` accepts, which is left unread. -/
def quoteRun (q : Char) (follow : Reader Unit) : Reader String := fun cs =>
  let attempt (n : Nat) : Except Miss (String × List Char) :=
    match literal (String.ofList (List.replicate n q)) cs with
    | .ok ((), rest) =>
      match follow rest with
      | .ok _ => .ok (String.ofList (List.replicate n q), rest)
      | .error m => .error m
    | .error m => .error m
  match attempt 2 with
  | .ok v => .ok v
  | .error m => if m.committed then .error m else attempt 1

/-- Any character but `c`, left unread. -/
def notChar (c : Char) : Reader Unit := do
  let _ ← satisfy (· ≠ c)

/-- The quotes and pieces of a multi-line basic string after its first pieces. At most `fuel`
rounds; quotes followed by something that is no piece end the body, unread or not. -/
def multiBasicTail : Nat → String → Reader String
  | 0, acc => pure acc
  | fuel + 1, acc => do
    match ← optional (quoteRun '"' (notChar '"')) with
    | none => return acc
    | some quotes =>
      match ← optional multiBasicPiece with
      | none => return acc
      | some piece =>
        let more ← many multiBasicPiece
        multiBasicTail fuel (acc ++ quotes ++ piece ++ String.join more)

/-- The body of a multi-line basic string. -/
def multiBasicBody : Reader String := do
  let first ← many multiBasicPiece
  let body ← fun cs => multiBasicTail (cs.length + 1) (String.join first) cs
  match ← optional (quoteRun '"' (literal "\"\"\"")) with
  | some quotes => return body ++ quotes
  | none => return body

/-- A multi-line basic string. -/
def multiBasicString : Reader String :=
  labelled "multiline basic string" do
    literal "\"\"\""
    let _ ← optional newline
    let body ← commit multiBasicBody
    commit (literal "\"\"\"")
    return body

/-- A literal string. -/
def literalString : Reader String :=
  labelled "literal string" do
    literal "'"
    let body ← commit (takeWhile isLiteralChar 0 none)
    commit (literal "'")
    return String.ofList body

/-- A piece of a multi-line literal string. -/
def multiLiteralPiece : Reader Unit :=
  firstOf [do let _ ← satisfy isLiteralChar, newline]

/-- Replaces every carriage return followed by a line feed by the line feed. -/
def dropCarriageReturns : List Char → List Char
  | '\r' :: '\n' :: rest => '\n' :: dropCarriageReturns rest
  | c :: rest => c :: dropCarriageReturns rest
  | [] => []

/-- The body of a multi-line literal string, as written. -/
def multiLiteralBody : Reader (List Char) :=
  consumed do
    let _ ← many multiLiteralPiece
    let _ ← many (do
      let _ ← quoteRun '\'' (notChar '\'')
      let _ ← sepBy1 multiLiteralPiece (pure ()))
    let _ ← optional (quoteRun '\'' (literal "'''"))

/-- A multi-line literal string. -/
def multiLiteralString : Reader String :=
  labelled "multiline literal string" do
    literal "'''"
    let _ ← optional newline
    let body ← commit multiLiteralBody
    commit (literal "'''")
    return String.ofList (dropCarriageReturns body)

/-- Any of the four strings. -/
def string : Reader String :=
  firstOf [multiBasicString, basicString, multiLiteralString, literalString]

/-- A bare key. -/
def bareKey : Reader String :=
  (fun cs => String.ofList cs) <$> takeWhile isBareKeyChar 1 none

/-- One key: a basic string, a literal string or a bare key. -/
def simpleKey : Reader String := do
  match ← peek? with
  | some '"' => basicString
  | some '\'' => literalString
  | _ => bareKey

/-- The most keys a dotted key may join. -/
def keyDepthLimit : Nat := 80

/-- Keys joined by dots, each with blanks around it. -/
def dottedKey : Reader (List Key) :=
  tryMap (labelled "key" (sepBy1 (do
      blanks
      let (name, span) ← spanned simpleKey
      blanks
      pure (Key.mk name span)) (literal ".")))
    fun ks => if keyDepthLimit ≤ ks.length then .error "recursion limit exceeded" else .ok ks

end Inlay.Toml
