namespace Inlay.Decimal

/-- A decimal `digits · 10 ^ exponent` with a sign; `digits` has no trailing zero unless it is
zero. -/
structure Scientific where
  negative : Bool
  digits : Nat
  exponent : Int
  deriving DecidableEq, Repr

/-- What a double reads as. -/
inductive Reading where
  | nan
  | infinity (negative : Bool)
  | finite (s : Scientific)
  deriving DecidableEq, Repr

/-- The number of decimal digits of `n` (one for zero). -/
def digitCount (n : Nat) : Nat := (Nat.toDigits 10 n).length

/-- `m · 2 ^ q` as a fraction. -/
def binaryRatio (m : Nat) (q : Int) : Nat × Nat :=
  if 0 ≤ q then (m * Nat.pow 2 q.toNat, 1) else (m, Nat.pow 2 (-q).toNat)

/-- `d · 10 ^ k` as a fraction. -/
def decimalRatio (d : Nat) (k : Int) : Nat × Nat :=
  if 0 ≤ k then (d * Nat.pow 10 k.toNat, 1) else (d, Nat.pow 10 (-k).toNat)

/-- How `a / b` compares with `c / d`, for positive denominators. -/
def compareRatio (a b c d : Nat) : Ordering := compare (a * d) (c * b)

/-- The exponent `E` with `10 ^ E ≤ num / den < 10 ^ (E + 1)`, for a positive fraction. -/
def log10Floor (num den : Nat) : Int :=
  if den ≤ num then (digitCount (num / den) : Int) - 1
  else
    let j := digitCount (den / num) - 1
    if den ≤ num * Nat.pow 10 j then -(j : Int) else -((j : Int) + 1)

/-- Drops trailing zeros of `d`, raising the exponent, for at most `fuel` digits. -/
def trimZeros : Nat → Nat → Int → Nat × Int
  | 0, d, k => (d, k)
  | fuel + 1, d, k => if d ≠ 0 ∧ d % 10 = 0 then trimZeros fuel (d / 10) (k + 1) else (d, k)

/-- The shortest decimal `d · 10 ^ k` that reads back as `m · 2 ^ q` (with `m > 0`). The
interval reaches half way to the neighbours; `narrowBelow` says that the lower neighbour is only
half as far (the value is a power of two above the least exponent). -/
def shortestOf (m : Nat) (q : Int) (narrowBelow : Bool) : Nat × Int :=
  let (vn, vd) := binaryRatio m q
  let e := log10Floor vn vd
  let inclusive := m % 2 = 0
  let (ln, ld) := binaryRatio (4 * m - (if narrowBelow then 1 else 2)) (q - 2)
  let (hn, hd) := binaryRatio (4 * m + 2) (q - 2)
  let inside := fun (d : Nat) (k : Int) =>
    let (cn, cd) := decimalRatio d k
    let aboveLow := match compareRatio cn cd ln ld with
      | .gt => true
      | .eq => inclusive
      | .lt => false
    let belowHigh := match compareRatio cn cd hn hd with
      | .lt => true
      | .eq => inclusive
      | .gt => false
    aboveLow && belowHigh
  let attempt := fun (n : Nat) =>
    let k := e - n + 1
    let tn := vn * (if k < 0 then Nat.pow 10 (-k).toNat else 1)
    let td := vd * (if 0 ≤ k then Nat.pow 10 k.toNat else 1)
    let lo := tn / td
    let hi := lo + 1
    match inside lo k, inside hi k with
    | true, true =>
      match compare (2 * tn) ((lo + hi) * td) with
      | .lt => some (lo, k)
      | .gt => some (hi, k)
      | .eq => some (if lo % 2 = 0 then lo else hi, k)
    | true, false => some (lo, k)
    | false, true => some (hi, k)
    | false, false => none
  let (d, k) := ((List.range 17).findSome? fun i => attempt (i + 1)).getD (m, q)
  trimZeros 20 d k

/-- The reading of a double: not a number, an infinity, or its shortest decimal. -/
def read (x : Float) : Reading :=
  let bits := x.toBits.toNat
  let negative := bits / Nat.pow 2 63 = 1
  let biased := (bits / Nat.pow 2 52) % Nat.pow 2 11
  let fraction := bits % Nat.pow 2 52
  if biased = 2047 then
    if fraction = 0 then .infinity negative else .nan
  else if biased = 0 then
    if fraction = 0 then .finite ⟨negative, 0, 0⟩
    else
      let (d, k) := shortestOf fraction (-1074) false
      .finite ⟨negative, d, k⟩
  else
    let (d, k) := shortestOf (fraction + Nat.pow 2 52) ((biased : Int) - 1075) (fraction = 0 ∧ biased > 1)
    .finite ⟨negative, d, k⟩

end Inlay.Decimal
