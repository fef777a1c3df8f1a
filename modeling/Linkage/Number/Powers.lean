/-!
# Powers of two and ten

Widths of handles and integers are powers of two and decimal grids are powers
of ten. Both are named functions on natural numbers, so a bound such as
`twoTo 32` unfolds to a numeral wherever its value is needed.

## Main results

* `twoTo_pos`, `tenTo_pos`: no power is zero.
* `twoTo_succ`, `tenTo_succ`: the next power.
-/

namespace Linkage

/-- The power of two. -/
def twoTo (n : Nat) : Nat := Nat.pow 2 n

/-- The power of ten. -/
def tenTo (n : Nat) : Nat := Nat.pow 10 n

theorem twoTo_succ (n : Nat) : twoTo (n + 1) = twoTo n * 2 := rfl

theorem tenTo_succ (n : Nat) : tenTo (n + 1) = tenTo n * 10 := rfl

theorem twoTo_pos (n : Nat) : 0 < twoTo n := by
  induction n with
  | zero => decide
  | succ n ih => rw [twoTo_succ]; omega

theorem tenTo_pos (n : Nat) : 0 < tenTo n := by
  induction n with
  | zero => decide
  | succ n ih => rw [tenTo_succ]; omega

end Linkage
