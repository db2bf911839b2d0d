namespace Inlay.Text

/-- A class of code points: inclusive ranges, in ascending order. -/
structure CodeRanges where
  ranges : List (Nat × Nat)

namespace CodeRanges

/-- Whether a code point lies in one of the ranges. -/
def contains (rs : CodeRanges) (n : Nat) : Bool :=
  rs.ranges.any fun (lo, hi) => lo ≤ n && n ≤ hi

/-- Whether a character's code point lies in one of the ranges. -/
def has (rs : CodeRanges) (c : Char) : Bool := rs.contains c.toNat

theorem contains_iff (rs : CodeRanges) (n : Nat) :
    rs.contains n = true ↔ ∃ r ∈ rs.ranges, r.1 ≤ n ∧ n ≤ r.2 := by
  simp [contains]

end CodeRanges

end Inlay.Text
