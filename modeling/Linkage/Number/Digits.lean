/-!
# Digit strings

Numbers are read from and written to plain digit strings in bases up to 16.

## Main results

* `value_append`: reading is positional.
* `value_toDigits`: the decimal digits of a number read back as that number.
* `head?_toDigits`: they have no leading zero.
-/

namespace Linkage

namespace Digits

/-- The value of one digit in any base up to 16, letters in either case. -/
def digit? (c : Char) : Option Nat :=
  if '0' ≤ c ∧ c ≤ '9' then some (c.toNat - 48)
  else if 'a' ≤ c ∧ c ≤ 'f' then some (c.toNat - 87)
  else if 'A' ≤ c ∧ c ≤ 'F' then some (c.toNat - 55)
  else none

/-- Whether a character is a digit of the base. -/
def isDigitIn (base : Nat) (c : Char) : Bool :=
  match digit? c with
  | some d => d < base
  | none => false

/-- Whether a character is a decimal digit. -/
def isDecimal (c : Char) : Bool := '0' ≤ c ∧ c ≤ '9'

/-- The number written by a digit string, after the number `start`. -/
def valueFrom (base : Nat) (start : Nat) (s : List Char) : Nat :=
  s.foldl (fun n c => n * base + (digit? c).getD 0) start

/-- The number written by a digit string. -/
def value (base : Nat) (s : List Char) : Nat := valueFrom base 0 s

theorem value_append (base : Nat) (s : List Char) (c : Char) :
    value base (s ++ [c]) = value base s * base + (digit? c).getD 0 := by
  simp [value, valueFrom]

/-- The number written by a non-empty digit string, and nothing else. -/
def read? (base : Nat) (s : List Char) : Option Nat :=
  if s ≠ [] && s.all (isDigitIn base) then some (value base s) else none

theorem digit?_digitChar {d : Nat} (h : d < 10) :
    digit? d.digitChar = some d := by
  match d, h with
  | 0, _ | 1, _ | 2, _ | 3, _ | 4, _ | 5, _ | 6, _ | 7, _ | 8, _
  | 9, _ => decide

/-- The last digit of a number of several digits comes after those of its tenth
part. -/
theorem toDigits_of_le {n : Nat} (h : 10 ≤ n) :
    Nat.toDigits 10 n = Nat.toDigits 10 (n / 10) ++ [(n % 10).digitChar] := by
  have hsplit : 10 * (n / 10) + n % 10 = n := by omega
  have hmod : n % 10 < 10 := by omega
  have happ := Nat.toDigits_append_toDigits (b := 10) (by omega)
    (show 0 < n / 10 by omega) hmod
  rw [hsplit, Nat.toDigits_of_lt_base hmod] at happ
  exact happ.symm

theorem value_toDigits (n : Nat) : value 10 (Nat.toDigits 10 n) = n := by
  induction n using Nat.strongRecOn with
  | ind n ih =>
      by_cases h : n < 10
      · rw [Nat.toDigits_of_lt_base h]
        simp [value, valueFrom, digit?_digitChar h]
      · have hmod : n % 10 < 10 := by omega
        rw [toDigits_of_le (by omega), value_append, ih (n / 10) (by omega),
          digit?_digitChar hmod]
        simp only [Option.getD_some]
        omega

theorem isDecimal_of_mem_toDigits {n : Nat} {c : Char}
    (h : c ∈ Nat.toDigits 10 n) :
    isDecimal c = true := by
  have hc := Nat.isDigit_of_mem_toDigits (by omega) (by omega) h
  simp only [Char.isDigit, Bool.and_eq_true, decide_eq_true_eq] at hc
  exact decide_eq_true ⟨Char.le_def.2 hc.1, Char.le_def.2 hc.2⟩

theorem toNat_of_isDecimal {c : Char} (h : isDecimal c = true) :
    48 ≤ c.toNat ∧ c.toNat ≤ 57 := by
  have hle : '0' ≤ c ∧ c ≤ '9' := of_decide_eq_true h
  exact ⟨UInt32.le_iff_toNat_le.1 (Char.le_def.1 hle.1),
    UInt32.le_iff_toNat_le.1 (Char.le_def.1 hle.2)⟩

/-- Only zero is written with a leading zero. -/
theorem head?_toDigits {n : Nat} (hn : n ≠ 0) :
    (Nat.toDigits 10 n).head? ≠ some '0' := by
  induction n using Nat.strongRecOn with
  | ind n ih =>
      by_cases h : n < 10
      · have hdigits : ∀ d < 10, d ≠ 0 → d.digitChar ≠ '0' := by decide
        rw [Nat.toDigits_of_lt_base h]
        simpa using hdigits n h hn
      · have htenth := ih (n / 10) (by omega) (by omega)
        obtain ⟨c, ds, hcons⟩ :=
          List.exists_cons_of_ne_nil (Nat.toDigits_ne_nil (n := n / 10))
        rw [hcons] at htenth
        rw [toDigits_of_le (by omega), hcons]
        exact htenth

end Digits

end Linkage
