import Linkage.Number.Powers

/-!
# Binary floating point, exactly

Parameters may be written as fractions, which are held in the 64-bit binary
format: sign, a significand below `2^53` and a power of two. Every operation
here works on the exact rational value and rounds once to the nearest
representable number, ties to the even significand, so no result depends on a
machine unit and all of them can be computed by a proof.

## Main results

* `roundQuotient_exact`: a whole quotient is rounded to itself.
* `roundQuotient_le`, `le_roundQuotient`: rounding moves a quotient to one of
  its two neighbours.
-/

namespace Linkage

/-- A number of the 64-bit binary format. A finite one is
`±significand * 2^exponent`. -/
inductive Binary64
  | finite (negative : Bool) (significand : Nat) (exponent : Int)
  | infinity (negative : Bool)
  | nan
  deriving DecidableEq, Repr, Inhabited

namespace Binary64

/-- The exponent of the smallest numbers. -/
def minExponent : Int := -1074

/-- The exponent of the largest numbers. -/
def maxExponent : Int := 971

/-- Significands are below this bound. -/
def significandBound : Nat := twoTo 53

/-- Zero with a sign. -/
def zero (negative : Bool) : Binary64 := .finite negative 0 minExponent

/-- The integer nearest to `num / den`, ties to the even one. -/
def roundQuotient (num den : Nat) : Nat :=
  let q := num / den
  let r := num % den
  if 2 * r < den then q
  else if den < 2 * r then q + 1
  else if q % 2 = 0 then q else q + 1

theorem roundQuotient_exact {num den : Nat} (hden : 0 < den)
    (h : num % den = 0) :
    roundQuotient num den = num / den := by
  simp [roundQuotient, h, hden]

theorem le_roundQuotient (num den : Nat) :
    num / den ≤ roundQuotient num den := by
  unfold roundQuotient; dsimp only; split <;> (try split) <;>
    (try split) <;> omega

theorem roundQuotient_le (num den : Nat) :
    roundQuotient num den ≤ num / den + 1 := by
  unfold roundQuotient; dsimp only; split <;> (try split) <;>
    (try split) <;> omega

/-- Numerator and denominator of `num / den / 2^e`. -/
def unscale (num den : Nat) (e : Int) : Nat × Nat :=
  if e < 0 then (num * twoTo (-e).toNat, den) else (num, den * twoTo e.toNat)

/-- The exponent at which `num / den` has a significand of 53 bits, or the
smallest exponent if that one is too small. -/
def exponentOf (num den : Nat) : Int :=
  let e : Int := (num.log2 : Int) - den.log2 - 53
  let scaled := unscale num den e
  let e := if scaled.1 / scaled.2 < significandBound then e else e + 1
  max e minExponent

/-- The number nearest to `± num / den`. -/
def ofRatio (negative : Bool) (num den : Nat) : Binary64 :=
  if num = 0 then zero negative
  else
    let e := exponentOf num den
    let scaled := unscale num den e
    let m := roundQuotient scaled.1 scaled.2
    let carried := m = significandBound
    let m' := if carried then m / 2 else m
    let e' := if carried then e + 1 else e
    if e' > maxExponent then .infinity negative else .finite negative m' e'

/-- The number nearest to a whole number. -/
def ofNat (negative : Bool) (n : Nat) : Binary64 := ofRatio negative n 1

/-- Numerator and denominator of `m * 2^e`. -/
def ratio (m : Nat) (e : Int) : Nat × Nat :=
  if e < 0 then (m, twoTo (-e).toNat) else (m * twoTo e.toNat, 1)

/-- Product of two numbers, rounded once. -/
def mul : Binary64 → Binary64 → Binary64
  | .finite s m e, .finite t n f =>
      let r := ratio (m * n) (e + f)
      ofRatio (s != t) r.1 r.2
  | .nan, _ | _, .nan => .nan
  | .infinity s, .finite t n _ | .finite t n _, .infinity s =>
      if n = 0 then .nan else .infinity (s != t)
  | .infinity s, .infinity t => .infinity (s != t)

/-- Quotient of two numbers, rounded once. -/
def div : Binary64 → Binary64 → Binary64
  | .finite s m e, .finite t n f =>
      if n = 0 then (if m = 0 then .nan else .infinity (s != t))
      else
        let a := ratio m e
        let b := ratio n f
        ofRatio (s != t) (a.1 * b.2) (a.2 * b.1)
  | .nan, _ | _, .nan => .nan
  | .infinity s, .finite t _ _ => .infinity (s != t)
  | .finite s _ _, .infinity t => zero (s != t)
  | .infinity _, .infinity _ => .nan

/-- The number nearest to `10^k`. -/
def tenPower (k : Nat) : Binary64 := ofNat false (tenTo k)

/-- Whether a number is neither infinite nor undefined. -/
def isFinite : Binary64 → Bool
  | .finite .. => true
  | _ => false

/-- The opposite number. -/
def neg : Binary64 → Binary64
  | .finite s m e => .finite (!s) m e
  | .infinity s => .infinity (!s)
  | .nan => .nan

/-- Above this count of digits before the point a decimal is beyond the largest
number. -/
def digitsAtOverflow : Int := 310

/-- Below this position of the first digit a decimal is nearest to zero. -/
def digitsAtUnderflow : Int := -330

/-- The number nearest to `± coefficient * 10^exponent`. Exponents far outside
the range of the format are answered without computing the power. -/
def ofDecimal (negative : Bool) (coefficient : Nat) (exponent : Int) :
    Binary64 :=
  if coefficient = 0 then zero negative
  else
    let position := ((Nat.toDigits 10 coefficient).length : Int) + exponent
    if position > digitsAtOverflow then .infinity negative
    else if position < digitsAtUnderflow then zero negative
    else if exponent < 0 then
      ofRatio negative coefficient (tenTo (-exponent).toNat)
    else ofRatio negative (coefficient * tenTo exponent.toNat) 1

end Binary64

end Linkage
