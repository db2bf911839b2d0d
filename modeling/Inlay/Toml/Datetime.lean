namespace Inlay.Toml

/-- A calendar date. -/
structure Date where
  year : Nat
  month : Nat
  day : Nat
  deriving DecidableEq, Repr

/-- A time of day, with nanoseconds. -/
structure Time where
  hour : Nat
  minute : Nat
  second : Nat
  nanosecond : Nat
  deriving DecidableEq, Repr

/-- The offset of a time from UTC: `Z`, or a number of minutes. -/
inductive Offset where
  | utc
  | minutes (m : Int)
  deriving DecidableEq, Repr

/-- A date, a time and an offset, each of which may be absent. -/
structure Datetime where
  date : Option Date
  time : Option Time
  offset : Option Offset
  deriving DecidableEq, Repr

/-- `n` in decimal, with leading zeros up to `width` digits. -/
def padded (width n : Nat) : String :=
  let digits := toString n
  String.ofList (List.replicate (width - digits.length) '0') ++ digits

/-- Trailing zeros of a digit string dropped. -/
def dropTrailingZeros (s : String) : String :=
  String.ofList (s.toList.reverse.dropWhile (· = '0')).reverse

namespace Date

/-- `yyyy-mm-dd`. -/
def render (d : Date) : String :=
  padded 4 d.year ++ "-" ++ padded 2 d.month ++ "-" ++ padded 2 d.day

end Date

namespace Time

/-- `hh:mm:ss`, and the fraction of the second when it is not zero. -/
def render (t : Time) : String :=
  let base := padded 2 t.hour ++ ":" ++ padded 2 t.minute ++ ":" ++ padded 2 t.second
  if t.nanosecond = 0 then base
  else base ++ "." ++ dropTrailingZeros (padded 9 t.nanosecond)

end Time

namespace Offset

/-- `Z`, or the sign, hours and minutes. -/
def render : Offset → String
  | .utc => "Z"
  | .minutes m =>
    let sign := if m < 0 then "-" else "+"
    let total := m.natAbs
    sign ++ padded 2 (total / 60) ++ ":" ++ padded 2 (total % 60)

end Offset

namespace Datetime

/-- The date, `T` and the time when both are present, and the offset. -/
def render (d : Datetime) : String :=
  let date := match d.date with
    | some day => day.render
    | none => ""
  let time := match d.time with
    | some t => (if d.date.isSome then "T" else "") ++ t.render
    | none => ""
  let offset := match d.offset with
    | some o => o.render
    | none => ""
  date ++ time ++ offset

end Datetime

end Inlay.Toml
