import Inlay.Decimal.Shortest

namespace Inlay.Decimal

/-- How decimals are written. -/
structure Layout where
  /-- The least scientific exponent written positionally; `none` for no bound. -/
  positionalFrom : Option Int
  /-- The least scientific exponent written exponentially again; `none` for no bound. -/
  positionalBelow : Option Int
  /-- Whether an integral value written positionally ends in `.0`. -/
  pointZero : Bool
  /-- Whether zero carries its sign. -/
  signedZero : Bool
  nanText : String
  infinityText : String

/-- The digits of a natural number. -/
def digitsOf (n : Nat) : List Char := Nat.toDigits 10 n

/-- Positional notation of `0.digits · 10 ^ (s + 1)`. -/
def positional (digits : List Char) (s : Int) (pointZero : Bool) : String :=
  if 0 ≤ s then
    let whole := s.toNat + 1
    let intPart := digits.take whole ++ List.replicate (whole - digits.length) '0'
    let frac := digits.drop whole
    if frac.isEmpty then String.ofList intPart ++ (if pointZero then ".0" else "")
    else String.ofList intPart ++ "." ++ String.ofList frac
  else
    "0." ++ String.ofList (List.replicate ((-s).toNat - 1) '0') ++ String.ofList digits

/-- Exponential notation of `d₁.d₂… · 10 ^ s`. -/
def exponential (digits : List Char) (s : Int) : String :=
  let mantissa := match digits with
    | [] => "0"
    | [d] => d.toString
    | d :: rest => d.toString ++ "." ++ String.ofList rest
  mantissa ++ "e" ++ toString s

/-- Writes a reading in the layout. -/
def Layout.render (l : Layout) : Reading → String
  | .nan => l.nanText
  | .infinity negative => (if negative then "-" else "") ++ l.infinityText
  | .finite ⟨negative, d, k⟩ =>
    let sign := if negative && (d ≠ 0 || l.signedZero) then "-" else ""
    if d = 0 then sign ++ (if l.pointZero then "0.0" else "0")
    else
      let digits := digitsOf d
      let s := k + digits.length - 1
      let lowOk := match l.positionalFrom with
        | some lo => decide (lo ≤ s)
        | none => true
      let highOk := match l.positionalBelow with
        | some hi => decide (s < hi)
        | none => true
      if lowOk && highOk then sign ++ positional digits s l.pointZero
      else sign ++ exponential digits s

end Inlay.Decimal
