import Inlay.Toml.Quoted
import Inlay.Toml.Datetime.Read

namespace Inlay.Toml

open Reader

/-- Positive infinity. -/
def Float.infinity : Float := 1.0 / 0.0

/-- A quiet NaN. -/
def Float.notANumber : Float := 0.0 / 0.0

/-- The smallest 64-bit signed integer. -/
def int64Min : Int := -(Int.pow 2 63)

/-- The largest 64-bit signed integer. -/
def int64Max : Int := Int.pow 2 63 - 1

/-- The number written by digits of a base. -/
def radixValue (base : Nat) (ds : List Char) : Nat :=
  ds.foldl (fun acc d => base * acc + hexValue d) 0

/-- A decimal integer as written (sign, digits, underscores) read as a 64-bit signed value. -/
def readDecimal (text : List Char) : Except String Int :=
  let plain := text.filter (· ≠ '_')
  let (negative, digits) : Bool × List Char := match plain with
    | '-' :: ds => (true, ds)
    | '+' :: ds => (false, ds)
    | ds => (false, ds)
  let n : Int := radixValue 10 digits
  if negative then
    if -n < int64Min then .error "number too small to fit in target type" else .ok (-n)
  else if int64Max < n then .error "number too large to fit in target type" else .ok n

/-- Digits of a base with underscores read as a 64-bit signed value. -/
def readRadix (base : Nat) (text : List Char) : Except String Int :=
  let n : Int := radixValue base (text.filter (· ≠ '_'))
  if int64Max < n then .error "number too large to fit in target type" else .ok n

/-- The number of decimal digits of `n` (one for zero). -/
def decimalWidth (n : Nat) : Nat := (Nat.toDigits 10 n).length

/-- The double nearest to `m · 10^e`. Far beyond the range of doubles the answer is known
without computing the power. -/
def nearestDouble (m : Nat) (e : Int) : Float :=
  if m = 0 then 0.0
  else if 310 < (decimalWidth m : Int) + e then Float.infinity
  else if (decimalWidth m : Int) + e < -330 then 0.0
  else if e < 0 then Float.ofScientific m true e.natAbs
  else Float.ofScientific m false e.natAbs

/-- A float as written (sign, digits, point, exponent, underscores) read as the nearest
double. -/
def readFloat (text : List Char) : Float :=
  let plain := text.filter (· ≠ '_')
  let (negative, body) : Bool × List Char := match plain with
    | '-' :: cs => (true, cs)
    | '+' :: cs => (false, cs)
    | cs => (false, cs)
  let mantissa := body.takeWhile (fun c => c ≠ 'e' && c ≠ 'E')
  let exponentPart := (body.dropWhile (fun c => c ≠ 'e' && c ≠ 'E')).drop 1
  let whole := mantissa.takeWhile (· ≠ '.')
  let fraction := (mantissa.dropWhile (· ≠ '.')).drop 1
  let exponent : Int := match exponentPart with
    | '-' :: ds => -(decimalDigitsValue ds : Int)
    | '+' :: ds => decimalDigitsValue ds
    | ds => decimalDigitsValue ds
  let x := nearestDouble (decimalDigitsValue (whole ++ fraction)) (exponent - fraction.length)
  if negative then -x else x

/-- Digits of a class, each underscore followed by a digit. -/
def underscoredDigits (isDigit : Char → Bool) : Reader Unit := do
  let _ ← many (firstOf [
    do let _ ← satisfy isDigit,
    do
      let _ ← satisfy (· = '_')
      expecting "digit" (commit (do let _ ← satisfy isDigit))])

/-- A decimal integer as written: optional sign, then `0` or digits not starting with `0`. -/
def decimalText : Reader (List Char) :=
  labelled "integer" (consumed do
    let _ ← optional (satisfy (fun c => c = '+' || c = '-'))
    firstOf [
      do
        let _ ← satisfy (fun c => '1' ≤ c && c ≤ '9')
        underscoredDigits Char.isDigit,
      do let _ ← satisfy Char.isDigit])

/-- Digits of a base after their prefix; committed once the prefix is read. -/
def radixText (pfx : String) (isDigit : Char → Bool) (what : String) : Reader (List Char) :=
  labelled what do
    literal pfx
    consumed (commit do
      let _ ← satisfy isDigit
      underscoredDigits isDigit)

/-- An integer of any base. -/
def integer : Reader Int := do
  match ← peekTwo with
  | ['0', 'x'] => commit (tryMap (radixText "0x" isHexDigit "hexadecimal integer") (readRadix 16))
  | ['0', 'o'] =>
    commit (tryMap (radixText "0o" (fun c => '0' ≤ c && c ≤ '7') "octal integer") (readRadix 8))
  | ['0', 'b'] =>
    commit (tryMap (radixText "0b" (fun c => c = '0' || c = '1') "binary integer") (readRadix 2))
  | _ => tryMapCommitted decimalText fun t => (readDecimal t).mapError some

/-- A digit, then digits with underscores. -/
def leadingDigits : Reader Unit := do
  let _ ← satisfy Char.isDigit
  underscoredDigits Char.isDigit

/-- A point and digits. -/
def fraction : Reader Unit := do
  literal "."
  expecting "digit" (commit leadingDigits)

/-- `e` or `E`, an optional sign and digits. -/
def exponent : Reader Unit := do
  let _ ← satisfy (fun c => c = 'e' || c = 'E')
  let _ ← optional (satisfy (fun c => c = '+' || c = '-'))
  commit leadingDigits

/-- A float in digits as written. -/
def floatText : Reader (List Char) :=
  consumed do
    let _ ← decimalText
    firstOf [exponent, do fraction; let _ ← optional exponent]

/-- An optionally signed `inf` or `nan`. -/
def specialFloat : Reader Float := do
  let sign ← optional (satisfy (fun c => c = '+' || c = '-'))
  let x ← firstOf [(fun _ => Float.infinity) <$> literal "inf",
    (fun _ => Float.notANumber) <$> literal "nan"]
  return if sign = some '-' then -x else x

/-- A float. -/
def float : Reader Float :=
  labelled "floating-point number" (firstOf [
    tryMapCommitted floatText (fun t =>
      let x := readFloat t
      if x == Float.infinity then .error none else .ok x),
    specialFloat])

end Inlay.Toml
