/-!
# Replacing pairs of characters

Topic names are repaired by replacing two-character sequences: the reserved
pair is deleted and doubled slashes are halved. Occurrences are taken from
left to right without overlap, so one pass can leave or create further
occurrences; `collapse` repeats the halving until none is left.

## Main results

* `length_halve_lt`: halving a text that holds the pair makes it shorter,
  which is why `collapse` ends.
* `hasPair_collapse`: no doubled character is left.
-/

namespace Linkage.Text

/-- Whether `a` is directly followed by `b` somewhere. -/
def hasPair (a b : Char) : List Char → Bool
  | [] => false
  | [_] => false
  | x :: y :: rest => (x == a && y == b) || hasPair a b (y :: rest)

/-- Put `r` in place of every non-overlapping `a` followed by `b`, from left to
right. -/
def replacePair (a b : Char) (r : List Char) : List Char → List Char
  | [] => []
  | [x] => [x]
  | x :: y :: rest =>
      if x == a && y == b then r ++ replacePair a b r rest
      else x :: replacePair a b r (y :: rest)

/-- One pass that turns pairs of `a` into single ones. -/
def halve (a : Char) (s : List Char) : List Char := replacePair a a [a] s

theorem length_halve_le (a : Char) (s : List Char) :
    (halve a s).length ≤ s.length := by
  unfold halve
  fun_induction replacePair a a [a] s with
  | case1 => simp
  | case2 => simp
  | case3 x y rest h ih =>
      simp only [List.length_append, List.length_cons, List.length_nil]; omega
  | case4 x y rest h ih => simp only [List.length_cons] at ih ⊢; omega

theorem length_halve_lt {a : Char} {s : List Char} (h : hasPair a a s = true) :
    (halve a s).length < s.length := by
  induction s using replacePair.induct a a with
  | case1 => simp [hasPair] at h
  | case2 x => simp [hasPair] at h
  | case3 x y rest hxy ih =>
      have := length_halve_le a rest
      simp only [halve, replacePair, hxy, if_true, List.length_append,
        List.length_cons, List.length_nil] at this ⊢
      omega
  | case4 x y rest hxy ih =>
      have hrest : hasPair a a (y :: rest) = true := by
        simpa [hasPair, hxy] using h
      have := ih hrest
      simp only [halve, replacePair, hxy, List.length_cons] at this ⊢
      simpa using this

/-- Halve runs of `a` until no `a` stands next to another. -/
def collapse (a : Char) (s : List Char) : List Char :=
  if _h : hasPair a a s = true then collapse a (halve a s) else s
termination_by s.length
decreasing_by exact length_halve_lt _h

theorem hasPair_collapse (a : Char) (s : List Char) :
    hasPair a a (collapse a s) = false := by
  fun_induction collapse a s with
  | case1 _ _ ih => exact ih
  | case2 s h => simpa using h

end Linkage.Text
