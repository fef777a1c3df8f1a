import Linkage.Number.Digits
import Linkage.Number.Shortest
import Mathlib.Data.List.Basic
import Mathlib.Tactic.ByContra
import Mathlib.Tactic.Ring

/-!
# Whole numbers held as fractions

A whole number beyond the signed 64-bit integers is held as the nearest
fraction, and that is written with as few digits as tell it from its neighbours.
The neighbours are far away: a grid whose steps are shorter than the way to a
midpoint holds a number that reads back, and the search for the shortest text
tries coarse grids first. So what is written is a multiple of the step of such a
grid, filled up with zeros.

In the upper half of the unsigned 64-bit integers the midpoints are about a
thousand away. Every such number is written as a multiple of a thousand, and a
number that is none is lost.

## Main results

* `onGrid?_isSome`: a fine grid holds a number that reads back.
* `shortest_of_wide`: the shortest decimal of a whole number is on a grid that
  is no finer.
* `ofNat_upper`: the nearest fraction to an integer of the upper half.
* `display_ofNat_upper`: it is written as a multiple of a thousand nearby.
-/

namespace Linkage

theorem tenTo_dvd {i j : Nat} (h : i ≤ j) : tenTo i ∣ tenTo j :=
  Nat.pow_dvd_pow 10 h

theorem toDigits_mul_tenTo {c : Nat} (hc : 0 < c) (k : Nat) :
    Nat.toDigits 10 (c * tenTo k) = Nat.toDigits 10 c ++
      List.replicate k '0' := by
  induction k with
  | zero => simp [tenTo]
  | succ k ih =>
      have hpos : 0 < c * tenTo k := Nat.mul_pos hc (tenTo_pos k)
      have hdiv : c * tenTo k * 10 / 10 = c * tenTo k :=
        Nat.mul_div_cancel _ (by omega)
      have hmod : c * tenTo k * 10 % 10 = 0 := Nat.mul_mod_left ..
      rw [tenTo_succ, ← Nat.mul_assoc, Digits.toDigits_of_le (by omega),
        hdiv, hmod, ih, List.replicate_succ', ← List.append_assoc]
      rfl

/-- The first hit of a search through a range is not beyond a hit that is
known. -/
theorem exists_le_of_findSome?_range {α : Type} {f : Nat → Option α}
    {i n : Nat} (hi : i < n) (h : (f i).isSome = true) :
    ∃ j a, j ≤ i ∧ f j = some a ∧ (List.range n).findSome? f = some a := by
  have hsome : ((List.range n).findSome? f).isSome = true :=
    List.findSome?_isSome_iff.2 ⟨i, List.mem_range.2 hi, h⟩
  obtain ⟨a, ha⟩ := Option.isSome_iff_exists.1 hsome
  obtain ⟨before, j, after, hsplit, hj, hnone⟩ :=
    List.findSome?_eq_some_iff.1 ha
  refine ⟨j, a, ?_, hj, ha⟩
  have hsorted : (before ++ j :: after).Pairwise (· < ·) :=
    hsplit ▸ List.pairwise_lt_range
  have hmem : i ∈ before ++ j :: after := hsplit ▸ List.mem_range.2 hi
  rcases List.mem_append.1 hmem with hbefore | hafter
  · rw [hnone i hbefore] at h
    cases h
  · rcases List.mem_cons.1 hafter with rfl | hafter
    · exact Nat.le_refl _
    · exact Nat.le_of_lt
        ((List.pairwise_cons.1 (List.pairwise_append.1 hsorted).2.1).1 i hafter)

namespace Binary64

/-! ## Grids of whole numbers -/

section Grids

variable {p : Midpoints} {c k : Nat}

theorem Midpoints.between_of_contains {x : Nat} (h : p.contains x = true) :
    p.low ≤ x ∧ x ≤ p.high := by
  simp only [contains, Bool.and_eq_true, Bool.or_eq_true, decide_eq_true_eq,
    beq_iff_eq] at h
  omega

theorem onGrid?_contains (h : onGrid? p k = some c) :
    p.contains (c * (p.den * tenTo k)) = true := by
  have hk : ¬ (k : Int) < 0 := by omega
  unfold onGrid? at h
  simp only [hk, if_false, Int.toNat_natCast] at h
  split at h
  · next hboth =>
    rw [Bool.and_eq_true] at hboth
    cases h
    split
    · exact hboth.1
    · exact hboth.2
  · split at h
    · next hlow => cases h; exact hlow
    · split at h
      · next hhigh => cases h; exact hhigh
      · cases h

/-- A grid with steps shorter than the way to the upper midpoint holds a number
that reads back: the first one above the value does. -/
theorem onGrid?_isSome (hlow : p.low < p.value) (hstep : 0 < p.den * tenTo k)
    (hhigh : p.value + p.den * tenTo k < p.high) :
    (onGrid? p k).isSome = true := by
  have hk : ¬ (k : Int) < 0 := by omega
  have habove : p.contains
      ((p.value / (p.den * tenTo k) + 1) * (p.den * tenTo k)) = true := by
    have hgt := Nat.lt_mul_div_succ p.value hstep
    have hle := Nat.div_mul_le_self p.value (p.den * tenTo k)
    rw [Nat.mul_comm] at hgt
    rw [Nat.add_mul, Nat.one_mul] at hgt ⊢
    unfold Midpoints.contains
    simp only [Bool.and_eq_true, Bool.or_eq_true, decide_eq_true_eq]
    exact ⟨.inl (by omega), .inl (by omega)⟩
  unfold onGrid?
  simp only [hk, if_false, Int.toNat_natCast, habove, Bool.and_true, if_true]
  split <;> rfl

/-- The search through the grids stops at a grid that holds a number, or
before. -/
theorem findSome?_onGrid? {position : Nat} (hfirst : k < position)
    (hlast : position ≤ mostDigits + k) (hhit : (onGrid? p k).isSome = true) :
    ∃ i c : Nat, k ≤ i ∧ onGrid? p i = some c ∧
      ((List.range mostDigits).findSome? fun n =>
        (onGrid? p ((position : Int) - (n + 1 : Nat))).map fun c =>
          (c, (position : Int) - (n + 1 : Nat))) = some (c, (i : Int)) := by
  have hindex : (position : Int) - (position - (k + 1) + 1 : Nat) =
      (k : Nat) := by omega
  obtain ⟨n, found, hn, hfound, hsearch⟩ := exists_le_of_findSome?_range
    (f := fun n => (onGrid? p ((position : Int) - (n + 1 : Nat))).map fun c =>
      (c, (position : Int) - (n + 1 : Nat)))
    (i := position - (k + 1)) (n := mostDigits) (by omega)
    (by rw [hindex, Option.isSome_map]; exact hhit)
  have hgrid : (position : Int) - (n + 1 : Nat) =
      (position - (n + 1) : Nat) := by omega
  simp only [hgrid, Option.map_eq_some_iff] at hfound
  obtain ⟨c, hc, rfl⟩ := hfound
  exact ⟨position - (n + 1), c, by omega, hc, hsearch⟩

end Grids

theorem dropZeros_eq (fuel c : Nat) (k : Int) :
    ∃ d i : Nat, dropZeros fuel c k = (d, k + i) ∧ c = d * tenTo i := by
  induction fuel generalizing c k with
  | zero => exact ⟨c, 0, by simp [dropZeros], by simp [tenTo]⟩
  | succ fuel ih =>
      by_cases hc : c % 10 = 0
      · obtain ⟨d, i, hdrop, hd⟩ := ih (c / 10) (k + 1)
        refine ⟨d, i + 1, ?_, ?_⟩
        · rw [dropZeros, if_pos hc, hdrop]
          congr 1
          omega
        · rw [tenTo_succ, ← Nat.mul_assoc, ← hd]
          omega
      · exact ⟨c, 0, by simp [dropZeros, hc], by simp [tenTo]⟩

/-- A decimal with an exponent that is not negative is written as a whole
number. -/
theorem positional_natCast {c : Nat} (hc : 0 < c) (k : Nat) :
    positional c k = Nat.toDigits 10 (c * tenTo k) := by
  rw [toDigits_mul_tenTo hc, positional, if_pos (by omega)]
  rfl

/-! ## The shortest decimal of a whole number -/

/-- A number with a whole unit is whole, and so are its midpoints. -/
theorem midpoints_of_two_le (m : Nat) {e : Int} (he : 2 ≤ e) :
    (midpoints m e).den = 1 ∧
      (midpoints m e).value = 4 * m * twoTo (e - 2).toNat ∧
      (midpoints m e).high = (4 * m + 2) * twoTo (e - 2).toNat ∧
      (4 * m - 2) * twoTo (e - 2).toNat ≤ (midpoints m e).low ∧
      (0 < m → (midpoints m e).low < (midpoints m e).value) := by
  have hunit : ¬ e < 2 := by omega
  simp only [midpoints, hunit, if_false]
  refine ⟨trivial, trivial, trivial,
    Nat.mul_le_mul_right _ (by split <;> omega), fun hm => ?_⟩
  exact Nat.mul_lt_mul_of_pos_right (by split <;> omega) (twoTo_pos _)

/-- A whole number has as many digits before the point as it is written with. -/
theorem decimalPosition_one {v j : Nat} (hlow : tenTo j ≤ v)
    (hhigh : v < tenTo (mostDigits + j)) :
    ∃ position : Nat, decimalPosition v 1 = position ∧ j < position ∧
      position ≤ mostDigits + j := by
  have hv : 1 ≤ v := Nat.le_trans (tenTo_pos j) hlow
  have hfew : (Nat.toDigits 10 v).length ≤ mostDigits + j :=
    (Nat.length_toDigits_le_iff (by omega) (by unfold mostDigits; omega)).2
      hhigh
  refine ⟨(Nat.toDigits 10 v).length, ?_, ?_, hfew⟩
  · unfold decimalPosition
    rw [if_pos hv, Nat.div_one]
  · by_contra hle
    have hpos := Nat.length_toDigits_pos (b := 10) (n := v)
    have hlt : v < 10 ^ j :=
      (Nat.length_toDigits_le_iff (by omega) (by omega)).1 (by omega)
    exact absurd hlow (Nat.not_le.2 hlt)

/-- A whole number whose midpoints are further away than a step of a grid is
written as a multiple of that step, and this lies between the midpoints. -/
theorem shortest_of_wide {m : Nat} {e : Int} {j : Nat} (hm : 0 < m) (he : 2 ≤ e)
    (hstep : tenTo j < 2 * twoTo (e - 2).toNat)
    (hlow : tenTo j ≤ (midpoints m e).value)
    (hhigh : (midpoints m e).value < tenTo (mostDigits + j)) :
    ∃ c k : Nat, shortest m e = (c, (k : Int)) ∧ tenTo j ∣ c * tenTo k ∧
      (midpoints m e).low ≤ c * tenTo k ∧
      c * tenTo k ≤ (midpoints m e).high := by
  obtain ⟨hden, hvalue, htop, -, hbelow⟩ := midpoints_of_two_le m he
  obtain ⟨position, hposition, hfirst, hlast⟩ := decimalPosition_one hlow hhigh
  have hhit : (onGrid? (midpoints m e) j).isSome = true := by
    refine onGrid?_isSome (hbelow hm) ?_ ?_
    · rw [hden, Nat.one_mul]
      exact tenTo_pos j
    · rw [hden, Nat.one_mul, hvalue, htop, Nat.add_mul]
      omega
  obtain ⟨k, c, hjk, hc, hsearch⟩ := findSome?_onGrid? hfirst hlast hhit
  obtain ⟨d, i, hdrop, hd⟩ := dropZeros_eq (mostDigits + 1) c k
  have hsame : d * tenTo (k + i) = c * tenTo k := by
    rw [hd, Nat.mul_assoc, Nat.add_comm k i]
    exact congrArg (d * ·) (Nat.pow_add 10 i k)
  have hshortest : shortest m e = (d, ((k + i : Nat) : Int)) := by
    unfold shortest
    simp only [hden, hposition]
    rw [hsearch]
    exact hdrop
  have hcontains := onGrid?_contains hc
  rw [hden, Nat.one_mul] at hcontains
  refine ⟨d, k + i, hshortest, ?_, ?_⟩
  · rw [hsame]
    exact Nat.dvd_mul_left_of_dvd (tenTo_dvd hjk) c
  · rw [hsame]
    exact Midpoints.between_of_contains hcontains

/-! ## The upper half of 64 bits -/

/-- Rounding a quotient is off by at most half of the divisor. -/
theorem roundQuotient_near (num : Nat) {den : Nat} (hden : 0 < den) :
    2 * (roundQuotient num den * den) ≤ 2 * num + den ∧
      2 * num ≤ 2 * (roundQuotient num den * den) + den := by
  have hsplit := Nat.div_add_mod num den
  have hmod := Nat.mod_lt num hden
  have hsucc : (num / den + 1) * den = num / den * den + den := by ring
  have hcomm : den * (num / den) = num / den * den := Nat.mul_comm ..
  unfold roundQuotient
  dsimp only
  split
  · omega
  · split
    · omega
    · split <;> omega

section Upper

variable {n : Nat}

theorem exponentOf_upper (hlow : twoTo 63 ≤ n) (hhigh : n < twoTo 64) :
    exponentOf n 1 = 11 := by
  have h63 : twoTo 63 = 2 ^ 63 := rfl
  have h64 : twoTo 64 = 2 ^ 64 := rfl
  have hlog : n.log2 = 63 := (Nat.log2_eq_iff (by omega)).2 ⟨by omega, by omega⟩
  have hone : Nat.log2 1 = 0 := by decide
  have hten : ((63 : Nat) : Int) - (0 : Nat) - 53 = 10 := by omega
  have hscaled : unscale n 1 10 = (n, 1024) := rfl
  have hbound : significandBound = 2 ^ 53 := rfl
  have hlarge : ¬ n / 1024 < significandBound := by omega
  unfold exponentOf
  simp only [hlog, hone, hten, hscaled, if_neg hlarge]
  decide

/-- The nearest fraction to an integer of the upper half has a unit of `2^11`,
unless it is `2^64`. -/
theorem ofNat_upper (hlow : twoTo 63 ≤ n) (hhigh : n < twoTo 64) :
    ∃ m e : Nat, ofNat false n = .finite false m e ∧
      (e = 11 ∧ twoTo 52 ≤ m ∧ m < twoTo 53 ∨ e = 12 ∧ m = twoTo 52) ∧
      m * twoTo e ≤ n + 1024 ∧ n ≤ m * twoTo e + 1024 := by
  have h63 : twoTo 63 = 2 ^ 63 := rfl
  have h64 : twoTo 64 = 2 ^ 64 := rfl
  have h52 : twoTo 52 = 2 ^ 52 := rfl
  have h53 : twoTo 53 = 2 ^ 53 := rfl
  have hbound : significandBound = 2 ^ 53 := rfl
  have hscaled : unscale n 1 11 = (n, 2048) := rfl
  have hne : n ≠ 0 := by omega
  obtain ⟨m, hm⟩ : ∃ m, roundQuotient n 2048 = m := ⟨_, rfl⟩
  have hnear := roundQuotient_near n (show 0 < 2048 by omega)
  have hle := roundQuotient_le n 2048
  have hge := le_roundQuotient n 2048
  rw [hm] at hnear hle hge
  unfold ofNat ofRatio
  simp only [exponentOf_upper hlow hhigh, hscaled, hm, if_neg hne]
  by_cases hcarried : m = significandBound
  · have hvalue : twoTo 52 * twoTo 12 = 2 ^ 64 := rfl
    refine ⟨twoTo 52, 12, ?_, .inr ⟨rfl, rfl⟩, by omega, by omega⟩
    rw [hcarried]
    rfl
  · have hvalue : m * twoTo 11 = m * 2048 := rfl
    refine ⟨m, 11, ?_, .inl ⟨rfl, by omega, by omega⟩, by omega, by omega⟩
    simp only [if_neg hcarried]
    rfl

/-- An integer of the upper half, held as a fraction, is written as a multiple
of a thousand nearby. -/
theorem display_ofNat_upper (hlow : twoTo 63 ≤ n) (hhigh : n < twoTo 64) :
    ∃ c : Nat, (ofNat false n).display = String.ofList (Nat.toDigits 10 c) ∧
      1000 ∣ c ∧
      c ≤ n + 3072 ∧ n ≤ c + 2048 := by
  have h63 : twoTo 63 = 2 ^ 63 := rfl
  have h64 : twoTo 64 = 2 ^ 64 := rfl
  have h52 : twoTo 52 = 2 ^ 52 := rfl
  have h53 : twoTo 53 = 2 ^ 53 := rfl
  have hstep : tenTo 3 = 1000 := rfl
  have hlarge : tenTo (mostDigits + 3) = 10 ^ 20 := rfl
  obtain ⟨m, e, hfinite, hshape, hbelow, habove⟩ := ofNat_upper hlow hhigh
  have hm : 0 < m := by omega
  have he : (2 : Int) ≤ e := by omega
  obtain ⟨-, hvalue, htop, hbottom, -⟩ := midpoints_of_two_le m he
  have hbounds : tenTo 3 < 2 * twoTo ((e : Int) - 2).toNat ∧
      tenTo 3 ≤ (midpoints m e).value ∧
      (midpoints m e).value < tenTo (mostDigits + 3) ∧ 0 < (midpoints m e).low ∧
      n ≤ (midpoints m e).low + 2048 ∧ (midpoints m e).high ≤ n + 3072 := by
    rcases hshape with ⟨rfl, -, -⟩ | ⟨rfl, rfl⟩
    · have hunit : twoTo (((11 : Nat) : Int) - 2).toNat = 512 := rfl
      have hscale : m * twoTo 11 = m * 2048 := rfl
      rw [hunit] at hvalue htop hbottom ⊢
      omega
    · have hunit : twoTo (((12 : Nat) : Int) - 2).toNat = 1024 := rfl
      have hscale : twoTo 52 * twoTo 12 = 2 ^ 64 := rfl
      rw [hunit] at hvalue htop hbottom ⊢
      omega
  obtain ⟨hwide, hthousand, htwenty, hpos, hnear, hfar⟩ := hbounds
  obtain ⟨c, k, hshortest, hdvd, hlower, hupper⟩ :=
    shortest_of_wide hm he hwide hthousand htwenty
  have hc : 0 < c := Nat.pos_of_mul_pos_right (Nat.lt_of_lt_of_le hpos hlower)
  refine ⟨c * tenTo k, ?_, hdvd, by omega, by omega⟩
  rw [hfinite, display, hshortest]
  simp only [if_neg (Nat.ne_of_gt hm)]
  exact congrArg String.ofList (positional_natCast hc k)

end Upper

end Binary64

end Linkage
