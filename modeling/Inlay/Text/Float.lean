import Inlay.Decimal.Layout

namespace Inlay.Text

/-- Floats in answers: positional for scientific exponents from -4 to 15, `.0` on integral
values. -/
def answerFloatLayout : Decimal.Layout := ⟨some (-4), some 16, true, true, "NaN", "inf"⟩

/-- Floats turned into text: always positional, no `.0`. -/
def plainFloatLayout : Decimal.Layout := ⟨none, none, false, true, "NaN", "inf"⟩

/-- A float as answers write it: `1.0`, `0.1`, `1e-5`, `1e16`, `-0.0`, `inf`, `NaN`. -/
def floatText (x : Float) : String := answerFloatLayout.render (Decimal.read x)

/-- A float turned into text: `1`, `0.1`, `0.00001`, `10000000000000000`, `-0`. -/
def plainFloatText (x : Float) : String := plainFloatLayout.render (Decimal.read x)

/-- A float in a message: its plain text, with `.0` when a finite value has no point. -/
def pointedFloatText (x : Float) : String :=
  let t := plainFloatText x
  match Decimal.read x with
  | .finite _ => if t.contains '.' then t else t ++ ".0"
  | _ => t

end Inlay.Text
