import Inlay.Text.Printable

namespace Inlay.Text

/-- `n` in lower case hexadecimal, without leading zeros. -/
def hex (n : Nat) : String := String.ofList (Nat.toDigits 16 n)

/-- The written form of one character inside a literal. -/
def escapeChar (c : Char) : String :=
  if c = '"' then "\\\""
  else if c = '\\' then "\\\\"
  else if c = '\n' then "\\n"
  else if c = '\r' then "\\r"
  else if c = '\t' then "\\t"
  else if c.toNat = 0 then "\\0"
  else if isGraphemeExtending c || !isPrintable c then "\\u" ++ "\x7b" ++ hex c.toNat ++ "\x7d"
  else c.toString

/-- A text as a double-quoted literal. -/
def literal (s : String) : String := "\"" ++ String.join (s.toList.map escapeChar) ++ "\""

end Inlay.Text
