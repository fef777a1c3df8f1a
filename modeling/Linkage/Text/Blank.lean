/-!
# White space and trimming

Parameter values are trimmed before they are read and topic names may hold no
white space, in both cases by the Unicode property White_Space. The property
has 25 code points in ten ranges and is wider than `Char.isWhitespace`, which
knows four ASCII characters.

## Main results

* `isBlank_of_isWhitespace`: every character of the core class is blank.
* `trim_eq_self`: a text with no blank at either end is its own trim.
-/

namespace Linkage.Text

/-- The Unicode property White_Space. -/
def isBlank (c : Char) : Bool :=
  let n := c.toNat
  (9 ≤ n && n ≤ 13) || n == 0x20 || n == 0x85 || n == 0xA0 || n == 0x1680 ||
    (0x2000 ≤ n && n ≤ 0x200A) || n == 0x2028 || n == 0x2029 || n == 0x202F ||
      n == 0x205F ||
    n == 0x3000

theorem isBlank_of_isWhitespace {c : Char} (h : c.isWhitespace = true) :
    isBlank c = true := by
  simp only [Char.isWhitespace, Bool.or_eq_true, decide_eq_true_eq] at h
  rcases h with ((rfl | rfl) | rfl) | rfl <;> decide

/-- Drop blanks in front. -/
def trimStart (s : List Char) : List Char := s.dropWhile isBlank

/-- Drop blanks at the end. -/
def trimEnd (s : List Char) : List Char := (s.reverse.dropWhile isBlank).reverse

/-- Drop blanks at both ends. -/
def trim (s : List Char) : List Char := trimEnd (trimStart s)

theorem trim_eq_self {s : List Char} (hhead : ∀ c ∈ s.head?, isBlank c = false)
    (hlast : ∀ c ∈ s.getLast?, isBlank c = false) : trim s = s := by
  have drop_eq : ∀ {t : List Char}, (∀ c ∈ t.head?, isBlank c = false) →
      t.dropWhile isBlank = t := by
    intro t ht
    cases t with
    | nil => rfl
    | cons c t => simp [List.dropWhile, ht c (by simp)]
  rw [trim, trimStart, drop_eq hhead, trimEnd,
    drop_eq (by simpa [List.head?_reverse] using hlast), List.reverse_reverse]

end Linkage.Text
