import Inlay.Toml.Datetime
import Inlay.Toml.Scan

namespace Inlay.Toml

open Reader

/-- The number written by decimal digits. -/
def decimalDigitsValue (ds : List Char) : Nat :=
  ds.foldl (fun acc d => 10 * acc + (d.toNat - '0'.toNat)) 0

/-- Two digits whose number lies between `lo` and `hi`. -/
def twoDigits (lo hi : Nat) : Reader Nat :=
  tryMap (takeWhile Char.isDigit 2 (some 2)) fun ds =>
    let v := decimalDigitsValue ds
    if lo ≤ v && v ≤ hi then .ok v else .error "value is out of range"

/-- Whether a year has a 29th of February. -/
def isLeapYear (y : Nat) : Bool := y % 4 == 0 && (y % 100 != 0 || y % 400 == 0)

/-- The number of days of a month. -/
def daysInMonth (year month : Nat) : Nat :=
  if month = 2 then (if isLeapYear year then 29 else 28)
  else if month = 4 || month = 6 || month = 9 || month = 11 then 30
  else 31

/-- A date: `yyyy-mm-dd`. After the first dash every miss is committed. -/
def fullDate : Reader Date := do
  let year := decimalDigitsValue (← takeWhile Char.isDigit 4 (some 4))
  literal "-"
  let month ← commit (twoDigits 1 12)
  commit (literal "-")
  let day ← tryMapCommitted (commit (twoDigits 1 31)) fun d =>
    if d ≤ daysInMonth year month then .ok d else .error (some "value is out of range")
  return ⟨year, month, day⟩

/-- The fraction of a second, as nanoseconds: the first nine digits after the point. -/
def secondFraction : Reader Nat := do
  literal "."
  let ds ← takeWhile Char.isDigit 1 none
  let kept := ds.take 9
  return decimalDigitsValue kept * Nat.pow 10 (9 - kept.length)

/-- A time: `hh:mm:ss` with an optional fraction. After the first colon every miss is
committed. -/
def partialTime : Reader Time := do
  let hour ← twoDigits 0 23
  literal ":"
  commit do
    let minute ← twoDigits 0 59
    literal ":"
    let second ← twoDigits 0 60
    let nanos ← optional secondFraction
    return ⟨hour, minute, second, nanos.getD 0⟩

/-- An offset: `Z`, `z`, or a sign with hours and minutes. -/
def timeOffset : Reader Offset :=
  labelled "time offset" (firstOf [
    (fun _ => Offset.utc) <$> satisfy (fun c => c = 'Z' || c = 'z'),
    do
      let sign ← satisfy (fun c => c = '+' || c = '-')
      commit do
        let h ← twoDigits 0 23
        literal ":"
        let m ← twoDigits 0 59
        let total : Int := (h * 60 + m : Nat)
        return Offset.minutes (if sign = '-' then -total else total)])

/-- A date with an optional time and offset, or a time alone. -/
def datetime : Reader Datetime :=
  firstOf [
    labelled "date-time" do
      let date ← fullDate
      let rest ← optional do
        let _ ← satisfy (fun c => c = 'T' || c = 't' || c = ' ')
        let t ← partialTime
        let o ← optional timeOffset
        return (t, o)
      match rest with
      | some (t, o) => return ⟨some date, some t, o⟩
      | none => return ⟨some date, none, none⟩,
    labelled "time" ((fun t => (⟨none, some t, none⟩ : Datetime)) <$> partialTime)]

end Inlay.Toml
