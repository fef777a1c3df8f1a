import Linkage.Number.Digits
import Linkage.Number.Powers

/-!
# Integers of a fixed width

A parameter is read as an integer of a stated type. The text is an optional
sign and at least one decimal digit; a minus belongs to signed types only, and
the value has to fit the type.

## Main results

* `IntegerType.read?_decimalText`: the decimal text of a number is read back
  exactly when the number fits.
-/

namespace Linkage

/-- The decimal text of an integer. -/
def decimalText (n : Int) : List Char :=
  match n with
  | .ofNat m => Nat.toDigits 10 m
  | .negSucc m => '-' :: Nat.toDigits 10 (m + 1)

/-- An integer type of a width that parameters are read at. -/
inductive IntegerType
  | u8 | i8 | u32 | i32 | u64 | i64
  deriving DecidableEq, Repr, Inhabited

namespace IntegerType

/-- Whether the type has negative numbers. -/
def signed : IntegerType → Bool
  | .i8 | .i32 | .i64 => true
  | .u8 | .u32 | .u64 => false

/-- The smallest number. -/
def lower : IntegerType → Int
  | .i8 => -(twoTo 7 : Nat)
  | .i32 => -(twoTo 31 : Nat)
  | .i64 => -(twoTo 63 : Nat)
  | _ => 0

/-- One more than the largest number. -/
def bound : IntegerType → Int
  | .u8 => (twoTo 8 : Nat)
  | .i8 => (twoTo 7 : Nat)
  | .u32 => (twoTo 32 : Nat)
  | .i32 => (twoTo 31 : Nat)
  | .u64 => (twoTo 64 : Nat)
  | .i64 => (twoTo 63 : Nat)

/-- Whether a number fits the type. -/
def fits (t : IntegerType) (n : Int) : Bool := t.lower ≤ n && n < t.bound

theorem fits_iff (t : IntegerType) (n : Int) :
    t.fits n = true ↔ t.lower ≤ n ∧ n < t.bound := by
  simp [fits]

/-- Sign and digits of a text, if the type allows the sign. -/
def splitSign (t : IntegerType) : List Char → Bool × List Char
  | '+' :: digits => (false, digits)
  | '-' :: digits => if t.signed then (true, digits) else (false, '-' :: digits)
  | digits => (false, digits)

/-- The integer written by a text, if it is one of the type. -/
def read? (t : IntegerType) (s : List Char) : Option Int :=
  let parts := t.splitSign s
  match Digits.read? 10 parts.2 with
  | none => none
  | some n =>
      let value : Int := if parts.1 then -(n : Int) else n
      if t.fits value then some value else none

theorem isDigitIn_toDigits {n : Nat} {c : Char} (h : c ∈ Nat.toDigits 10 n) :
    Digits.isDigitIn 10 c = true := by
  have hdecimal := Digits.isDecimal_of_mem_toDigits h
  have hle : '0' ≤ c ∧ c ≤ '9' := of_decide_eq_true hdecimal
  have hbounds := Digits.toNat_of_isDecimal hdecimal
  simp only [Digits.isDigitIn, Digits.digit?, if_pos hle, decide_eq_true_eq]
  omega

theorem read?_toDigits (n : Nat) :
    Digits.read? 10 (Nat.toDigits 10 n) = some n := by
  have hne : Nat.toDigits 10 n ≠ [] := Nat.toDigits_ne_nil
  have hall : (Nat.toDigits 10 n).all (Digits.isDigitIn 10) = true :=
    List.all_eq_true.2 fun c hc => isDigitIn_toDigits hc
  simp [Digits.read?, hne, hall, Digits.value_toDigits]

theorem splitSign_toDigits (t : IntegerType) (n : Nat) :
    t.splitSign (Nat.toDigits 10 n) = (false, Nat.toDigits 10 n) := by
  have hmem : ∀ c ∈ Nat.toDigits 10 n, Digits.isDigitIn 10 c = true :=
    fun c hc => isDigitIn_toDigits hc
  unfold splitSign
  split
  · next h => exact absurd (hmem '+' (by rw [h]; simp)) (by decide)
  · next h => exact absurd (hmem '-' (by rw [h]; simp)) (by decide)
  · rfl

/-- The decimal text of a number reads back exactly when the number fits the
type. -/
theorem read?_decimalText (t : IntegerType) (n : Int) :
    t.read? (decimalText n) = if t.fits n then some n else none := by
  cases n with
  | ofNat m =>
      have hd : decimalText (.ofNat m) = Nat.toDigits 10 m := rfl
      unfold read?
      rw [hd, splitSign_toDigits]
      dsimp only
      rw [read?_toDigits]
      rfl
  | negSucc m =>
      have hd : decimalText (.negSucc m) = '-' :: Nat.toDigits 10 (m + 1) := rfl
      by_cases hs : t.signed = true
      · have hsplit : t.splitSign ('-' :: Nat.toDigits 10 (m + 1)) =
            (true, Nat.toDigits 10 (m + 1)) := by simp [splitSign, hs]
        unfold read?
        rw [hd, hsplit]
        dsimp only
        rw [read?_toDigits]
        rfl
      · have hsplit : t.splitSign ('-' :: Nat.toDigits 10 (m + 1)) =
            (false, '-' :: Nat.toDigits 10 (m + 1)) := by simp [splitSign, hs]
        have hread : Digits.read? 10
            ('-' :: Nat.toDigits 10 (m + 1)) = none := by
          have hminus : Digits.isDigitIn 10 '-' = false := by decide
          simp [Digits.read?, hminus]
        have hfits : t.fits (.negSucc m) = false := by
          cases t <;> simp_all [signed, fits, lower]
        unfold read?
        rw [hd, hsplit]
        dsimp only
        rw [hread, hfits]
        rfl

end IntegerType

end Linkage
