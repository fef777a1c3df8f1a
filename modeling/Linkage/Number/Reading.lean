import Linkage.Number.Digits
import Linkage.Number.Binary64

/-!
# Reading fractions

A parameter read as a fraction is an optional sign followed by decimal digits,
at most one point and an optional exponent, with at least one digit before or
after the point; or one of the words `inf`, `infinity` and `nan` in any case.
The result is the number nearest to the exact decimal value, so large values
become infinite and small ones zero.
-/

namespace Linkage

namespace Binary64

/-- A character with an ASCII capital turned into the small letter. -/
def lowerAscii (c : Char) : Char :=
  if 'A' ≤ c ∧ c ≤ 'Z' then Char.ofNat (c.toNat + 32) else c

/-- The value of an exponent part: an optional sign and at least one digit. -/
def readExponent? : List Char → Option Int
  | '-' :: digits => (Digits.read? 10 digits).map fun n => -(n : Int)
  | '+' :: digits => (Digits.read? 10 digits).map fun n => (n : Int)
  | digits => (Digits.read? 10 digits).map fun n => (n : Int)

/-- The exponent that follows the digits: none, or a letter `e` and its
value. -/
def readTail? : List Char → Option Int
  | [] => some 0
  | c :: rest => if c = 'e' ∨ c = 'E' then readExponent? rest else none

/-- Digits, an optional point with digits, and an optional exponent. -/
def readMagnitude? (negative : Bool) (s : List Char) : Option Binary64 :=
  let whole := s.takeWhile Digits.isDecimal
  let rest := s.dropWhile Digits.isDecimal
  let fraction := match rest with
    | '.' :: r => r.takeWhile Digits.isDecimal
    | _ => []
  let tail := match rest with
    | '.' :: r => r.dropWhile Digits.isDecimal
    | r => r
  if whole = [] ∧ fraction = [] then none
  else (readTail? tail).map fun e =>
    ofDecimal negative (Digits.value 10 (whole ++ fraction))
      (e - fraction.length)

/-- The words for the values that have no digits. -/
def readWord? (negative : Bool) (s : List Char) : Option Binary64 :=
  let word := s.map lowerAscii
  if word = "inf".toList ∨ word = "infinity".toList then
    some (.infinity negative)
  else if word = "nan".toList then some .nan
  else none

/-- The number written by an unsigned text. -/
def readUnsigned? (negative : Bool) (s : List Char) : Option Binary64 :=
  (readMagnitude? negative s).orElse fun _ => readWord? negative s

/-- The number written by a text. -/
def read? : List Char → Option Binary64
  | '-' :: s => readUnsigned? true s
  | '+' :: s => readUnsigned? false s
  | s => readUnsigned? false s

end Binary64

end Linkage
