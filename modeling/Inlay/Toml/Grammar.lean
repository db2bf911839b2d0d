import Inlay.Toml.Number
import Inlay.Toml.Assembly

namespace Inlay.Toml

open Reader

/-- How deep arrays and inline tables may nest below a key. -/
def nestingLimit : Nat := 79

/-- A string, number, boolean or datetime with its span. -/
def scalar (r : Reader Value) : Reader Item := do
  let (v, span) ← spanned r
  return .value v span

/-- What a miss at a value that is none of the known kinds reports. -/
def asString (r : Reader Item) : Reader Item :=
  expecting "`'`" (expecting "`\"`" (labelled "string" r))

/-- The miss of arrays and inline tables nested too deep. -/
def tooDeep {α : Type} : Reader α := abort "recursion limit exceeded"

/-- The items of an array between its brackets, with blanks, comments and newlines around them
and an optional trailing comma. -/
def arrayItems (elem : Reader Item) : Reader (List Item) := do
  let items ← optional do
    let items ← sepBy1 (do blankCommentLines; let v ← elem; blankCommentLines; pure v)
      (literal ",")
    let _ ← optional (literal ",")
    pure items
  blankCommentLines
  return items.getD []

/-- An array. -/
def arrayOf (elem : Reader Item) : Reader (List Item) := do
  literal "["
  let items ← commit (arrayItems elem)
  expecting "`]`" (labelled "array" (commit (literal "]")))
  return items

/-- A `path.key = value` pair of an inline table. -/
def inlinePair (elem : Reader Item) : Reader (List Key × Key × Item) := do
  let path ← dottedKey
  commit do
    expecting "`=`" (expecting "`.`" (literal "="))
    blanks
    let v ← elem
    blanks
    match path.getLast? with
    | some key => return (path.dropLast, key, v)
    | none => fail

/-- The pairs of an inline table between its braces, assembled into entries. -/
def inlineBody (elem : Reader Item) : Reader Entries :=
  tryMap (do
      let pairs ← sepBy (inlinePair elem) (literal ",")
      blanks
      return pairs)
    fun pairs => (inlineEntries [] pairs).mapError (·.message)

/-- An inline table. -/
def inlineTableOf (elem : Reader Item) : Reader Entries := do
  literal "\x7b"
  let entries ← commit (inlineBody elem)
  expecting "`\x7d`" (labelled "inline table" (commit (literal "\x7d")))
  return entries

/-- A value, with `deeper` the reader of values inside its arrays and inline tables; without
one, an array or inline table is refused before its bracket. -/
def valueWith (deeper : Option (Reader Item)) : Reader Item := do
  match ← peek? with
  | some '"' | some '\'' => scalar (Value.string <$> string)
  | some '[' =>
    match deeper with
    | none => tooDeep
    | some elem =>
      let (items, span) ← spanned (arrayOf elem)
      return .array items span
  | some '\x7b' =>
    match deeper with
    | none => tooDeep
    | some elem =>
      let (entries, span) ← spanned (inlineTableOf elem)
      return .inline entries false false (some span)
  | some 't' => asString (scalar ((fun _ => Value.boolean true) <$> commit (literal "true")))
  | some 'f' => asString (scalar ((fun _ => Value.boolean false) <$> commit (literal "false")))
  | some 'i' => asString (scalar ((fun _ => Value.float Float.infinity) <$> literal "inf"))
  | some 'n' => asString (scalar ((fun _ => Value.float Float.notANumber) <$> literal "nan"))
  | some '_' => expecting "leading digit" (scalar (Value.integer <$> integer))
  | some '.' => expecting "leading digit" (scalar (Value.float <$> float))
  | some c =>
    if c = '+' || c = '-' || c.isDigit then
      scalar (firstOf [Value.datetime <$> datetime, Value.float <$> float,
        Value.integer <$> integer])
    else asString fail
  | none => fail

/-- A value that may hold `depth` more levels of arrays and inline tables. -/
def value : Nat → Reader Item
  | 0 => valueWith none
  | depth + 1 => valueWith (some (value depth))

/-- A key/value line, added to the table under the current header. -/
def keyvalLine (a : Assembly) : Reader Assembly :=
  tryMap (do
      let path ← dottedKey
      commit do
        expecting "`=`" (expecting "`.`" (literal "="))
        blanks
        let v ← value nestingLimit
        expecting "`#`" (expecting "newline" lineTrailing)
        return (path, v))
    fun (path, v) =>
      match path.getLast? with
      | some key => (a.onKeyval path.dropLast key v).mapError (·.message)
      | none => .ok a

/-- A header between `opening` and `closing`, with the rest of its line. -/
def headerLine (opening closing : String) (onHeader : List Key → Span → Assembled Assembly) :
    Reader Assembly :=
  tryMap (do
      let (path, span) ← spanned do
        literal opening
        let path ← commit dottedKey
        expecting ("`" ++ closing ++ "`") (expecting "`.`" (commit (literal closing)))
        return path
      expecting "`#`" (expecting "newline" (commit lineTrailing))
      return (path, span))
    fun (path, span) => (onHeader path span).mapError (·.message)

/-- A table header `[…]` or an array-of-tables header `[[…]]`. -/
def tableHeader (a : Assembly) : Reader Assembly :=
  labelled "table header" do
    let two ← peekTwo
    if two.length < 2 then fail
    else if two = ['[', '['] then headerLine "[[" "]]" a.onArrayHeader
    else headerLine "[" "]" a.onTableHeader

/-- One line of a document, chosen by its first character, and the blanks after it. -/
def documentLine (a : Assembly) : Reader Assembly := do
  let a' ← match ← peek? with
    | some '#' => do commit (do comment; lineEnding); pure a
    | some '[' => commit (tableHeader a)
    | some '\n' | some '\r' => do newline; pure a
    | some _ => commit (keyvalLine a)
    | none => fail
  blanks
  return a'

/-- At most `fuel` lines of a document. -/
def documentLinesWithin : Nat → Assembly → Reader Assembly
  | 0, a => pure a
  | fuel + 1, a => fun cs =>
    match documentLine a cs with
    | .ok (a', rest) =>
      if rest.length < cs.length then documentLinesWithin fuel a' rest else .ok (a', rest)
    | .error m => if m.committed then .error m else .ok (a, cs)

/-- A whole document: an optional byte order mark, then lines up to the end. -/
def document : Reader Assembly := do
  let _ ← optional (literal "\uFEFF")
  blanks
  let a ← fun cs => documentLinesWithin (cs.length + 1) Assembly.start cs
  atEnd
  return a

end Inlay.Toml
