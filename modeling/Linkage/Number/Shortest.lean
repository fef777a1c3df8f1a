import Linkage.Number.Binary64

/-!
# Shortest decimal text

A fraction is printed with the fewest decimal digits that still read back as
the same number, and of those with the nearest to its exact value, a tie going
up. The digits are placed positionally whatever the magnitude: no exponent is
ever written and a whole number has no point.

The numbers that read back as `m * 2^e` are those between its two midpoints
with the neighbouring numbers, ends included exactly if `m` is even. Working in
quarters of a unit of `m` makes both midpoints whole numbers, also below a
power of two, where the gap underneath is half as wide.

## Main results

* `Midpoints.contains_value`: a number lies between its own midpoints.
-/

namespace Linkage

namespace Binary64

/-- A number and the midpoints with its neighbours, over a common
denominator. -/
structure Midpoints where
  low : Nat
  value : Nat
  high : Nat
  den : Nat
  closed : Bool

/-- The midpoints around `m * 2^e`. -/
def midpoints (m : Nat) (e : Int) : Midpoints :=
  let narrow := m = twoTo 52 ∧ e > minExponent
  let unit := if e < 2 then 1 else twoTo (e - 2).toNat
  { low := (4 * m - if narrow then 1 else 2) * unit
    value := 4 * m * unit
    high := (4 * m + 2) * unit
    den := if e < 2 then twoTo (2 - e).toNat else 1
    closed := m % 2 = 0 }

/-- Whether `num` over the common denominator reads back as the number. -/
def Midpoints.contains (p : Midpoints) (num : Nat) : Bool :=
  (p.low < num || (p.closed && p.low == num)) &&
    (num < p.high || (p.closed && num == p.high))

theorem Midpoints.contains_value {m : Nat} (hm : 0 < m) (e : Int) :
    (midpoints m e).contains (midpoints m e).value = true := by
  have hunit : 0 < (if e < 2 then 1 else twoTo (e - 2).toNat) := by
    split
    · exact Nat.one_pos
    · exact twoTo_pos _
  have hlow : (midpoints m e).low < (midpoints m e).value := by
    simp only [midpoints]
    refine Nat.mul_lt_mul_of_pos_right ?_ hunit
    split <;> omega
  have hhigh : (midpoints m e).value < (midpoints m e).high := by
    simp only [midpoints]
    exact Nat.mul_lt_mul_of_pos_right (by omega) hunit
  simp [contains, hlow, hhigh]

/-- All four numbers multiplied by `c`, to look at the number on a finer
grid. -/
def Midpoints.scale (p : Midpoints) (c : Nat) : Midpoints :=
  { p with low := p.low * c, value := p.value * c, high := p.high * c }

/-- How many digits `num / den` has before the point; for a number below one,
minus the count of zeros that follow the point. -/
def decimalPosition (num den : Nat) : Int :=
  if den ≤ num then (Nat.toDigits 10 (num / den)).length
  else
    let above := (den + num - 1) / num - 1
    1 - ((Nat.toDigits 10 above).length : Int)

/-- The coefficient on the grid of multiples of `10^k` that reads back as the
number, if one does; of two the nearer, of two equally near the larger. -/
def onGrid? (p : Midpoints) (k : Int) : Option Nat :=
  let q := if k < 0 then p.scale (tenTo (-k).toNat) else p
  let step := if k < 0 then p.den else p.den * tenTo k.toNat
  let below := q.value / step
  let above := below + 1
  let lowHit := q.contains (below * step)
  let highHit := q.contains (above * step)
  if lowHit && highHit then
    some (if q.value - below * step < above * step - q.value then
      below else above)
  else if lowHit then some below
  else if highHit then some above
  else none

/-- Drop the zeros at the end of a coefficient, counting them into the
exponent. -/
def dropZeros : Nat → Nat → Int → Nat × Int
  | 0, c, k => (c, k)
  | fuel + 1, c, k =>
      if c % 10 = 0 then dropZeros fuel (c / 10) (k + 1) else (c, k)

/-- No number needs more digits than this. -/
def mostDigits : Nat := 17

/-- Coefficient and exponent of the shortest decimal of `m * 2^e`. -/
def shortest (m : Nat) (e : Int) : Nat × Int :=
  let p := midpoints m e
  let position := decimalPosition p.value p.den
  let found := (List.range mostDigits).findSome? fun n =>
    let k := position - (n + 1 : Nat)
    (onGrid? p k).map fun c => (c, k)
  match found with
  | some (c, k) => dropZeros (mostDigits + 1) c k
  | none => (m, e)

/-- The decimal `coefficient * 10^k` written without an exponent. -/
def positional (coefficient : Nat) (k : Int) : List Char :=
  let digits := Nat.toDigits 10 coefficient
  if 0 ≤ k then digits ++ List.replicate k.toNat '0'
  else
    let whole := (digits.length : Int) + k
    if 0 < whole then digits.take whole.toNat ++ '.' :: digits.drop whole.toNat
    else '0' :: '.' :: List.replicate (-whole).toNat '0' ++ digits

/-- The text of a number: the shortest digits that read back, never an exponent,
and a sign also on a negative zero. -/
def display : Binary64 → String
  | .nan => "NaN"
  | .infinity negative => if negative then "-inf" else "inf"
  | .finite negative m e =>
      let digits :=
        if m = 0 then ['0'] else let d := shortest m e; positional d.1 d.2
      String.ofList (if negative then '-' :: digits else digits)

end Binary64

end Linkage
