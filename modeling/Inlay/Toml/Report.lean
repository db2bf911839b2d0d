import Inlay.Toml.Scan
import Inlay.Toml.Item

namespace Inlay.Toml

/-- Whether a byte continues a character begun before it. -/
def isContinuationByte (b : UInt8) : Bool := b &&& 0xC0 == 0x80

/-- The line and column, both counted from zero, of a byte offset. -/
def locate (bytes : List UInt8) (index : Nat) : Nat × Nat :=
  if bytes.isEmpty then (0, index)
  else
    let safe := min index (bytes.length - 1)
    let lineStart := match (bytes.take safe).reverse.findIdx? (· == 10) with
      | some k => safe - k
      | none => 0
    let line := ((bytes.take lineStart).filter (· == 10)).length
    let slice := (bytes.drop lineStart).take (safe - lineStart + 1)
    let endsWhole := match bytes[safe + 1]? with
      | some b => !isContinuationByte b
      | none => true
    let column :=
      if endsWhole then (slice.filter (fun b => !isContinuationByte b)).length - 1
      else safe - lineStart
    (line, column + (index - safe))

/-- `n` spaces. -/
def spaces (n : Nat) : String := String.ofList (List.replicate n ' ')

/-- The report of a problem over the bytes from `start` to `stop` of `text`. -/
def reportAt (text : String) (start stop : Nat) (message : String) : String :=
  let (line, column) := locate text.toUTF8.toList start
  let number := toString (line + 1)
  let gutter := number.length
  let content := ((text.splitOn "\n")[line]?).getD ""
  let highlight := min (stop - start) (content.utf8ByteSize - column)
  "TOML parse error at line " ++ number ++ ", column " ++ toString (column + 1) ++ "\n" ++
    spaces (gutter + 1) ++ "|\n" ++
    number ++ " | " ++ content ++ "\n" ++
    spaces (gutter + 1) ++ "|" ++ spaces (column + 1) ++ "^" ++
    String.ofList (List.replicate (highlight - 1) '^') ++ "\n" ++
    message ++ "\n"

/-- The byte offset at which `left` characters of `text` remain. -/
def byteOffset (text : String) (left : Nat) : Nat :=
  let cs := text.toList
  ((cs.take (cs.length - left)).map Char.utf8Size).foldl (· + ·) 0

/-- The bytes a span covers in `text`. -/
def Span.bytesIn (s : Span) (text : String) : Nat × Nat :=
  (byteOffset text s.startLeft, byteOffset text s.stopLeft)

/-- The report of a miss in `text`: the bytes of the character it stands at are marked, none at
the end of the text. -/
def Miss.reportIn (m : Miss) (text : String) : String :=
  let cs := text.toList
  let offset := byteOffset text m.left
  let width := match cs[cs.length - m.left]? with
    | some c => c.utf8Size
    | none => 0
  reportAt text offset (offset + width) m.report

end Inlay.Toml
