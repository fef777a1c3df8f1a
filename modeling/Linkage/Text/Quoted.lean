import Linkage.Text.Hidden

/-!
# Quoted text

Topic names appear in messages between double quotes. The quote and the
backslash are escaped, tab, carriage return, newline and the null character
have short escapes, every other hidden character is written by its code point
in lower-case hexadecimal between braces, and the rest stand for themselves.

## Main results

* `quoted_of_plain`: a text of plain characters is only put between quotes.
-/

namespace Linkage.Text

/-- Hexadecimal digits of a number, without leading zeros. -/
def hexDigits (n : Nat) : List Char := Nat.toDigits 16 n

/-- How one character is written inside quotes. -/
def quotedChar (c : Char) : List Char :=
  if c = '\x00' then ['\\', '0']
  else if c = '\t' then ['\\', 't']
  else if c = '\r' then ['\\', 'r']
  else if c = '\n' then ['\\', 'n']
  else if c = '"' then ['\\', '"']
  else if c = '\\' then ['\\', '\\']
  else if isHidden c then ['\\', 'u', '\x7b'] ++ hexDigits c.toNat ++ ['\x7d']
  else [c]

/-- A text between double quotes. -/
def quoted (s : String) : String :=
  String.ofList ('"' :: s.toList.flatMap quotedChar ++ ['"'])

/-- Texts between double quotes, listed between brackets. -/
def quotedList (l : List String) : String :=
  "[" ++ ", ".intercalate (l.map quoted) ++ "]"

/-- A character that quoting leaves alone. -/
def isPlain (c : Char) : Bool := c ≠ '"' && c ≠ '\\' && !isHidden c

theorem quotedChar_of_isPlain {c : Char} (h : isPlain c = true) :
    quotedChar c = [c] := by
  simp only [isPlain, Bool.and_eq_true, ne_eq, Bool.not_eq_true',
    decide_eq_true_eq] at h
  obtain ⟨⟨hq, hb⟩, hh⟩ := h
  have ne_of_control : ∀ d : Char, d.toNat < 0x20 → c ≠ d := fun d hd e => by
    rw [e, isHidden_of_isControl hd] at hh; cases hh
  unfold quotedChar
  rw [if_neg (ne_of_control _ (by decide)),
    if_neg (ne_of_control _ (by decide)), if_neg (ne_of_control _ (by decide)),
    if_neg (ne_of_control _ (by decide)),
    if_neg hq, if_neg hb, if_neg (by simp [hh])]

theorem quoted_of_plain {s : String} (h : ∀ c ∈ s.toList, isPlain c = true) :
    quoted s = String.ofList ('"' :: s.toList ++ ['"']) := by
  have : s.toList.flatMap quotedChar = s.toList := by
    rw [List.flatMap_def,
      List.map_congr_left fun c hc => quotedChar_of_isPlain (h c hc),
      ← List.flatMap_def, List.flatMap_singleton']
  rw [quoted, this]

end Linkage.Text
