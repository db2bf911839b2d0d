namespace Inlay.Text

/-- Whether a character is white space in the Unicode sense. -/
def isWhiteSpace (c : Char) : Bool :=
  let n := c.val
  (0x09 ≤ n && n ≤ 0x0D) || n = 0x20 || n = 0x85 || n = 0xA0 || n = 0x1680 ||
    (0x2000 ≤ n && n ≤ 0x200A) || n = 0x2028 || n = 0x2029 || n = 0x202F || n = 0x205F ||
    n = 0x3000

/-- Whether a text is empty once white space is trimmed from both ends: whether it holds
nothing but white space. -/
def isBlankText (s : String) : Bool := s.toList.all isWhiteSpace

end Inlay.Text
