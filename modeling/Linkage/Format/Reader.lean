/-!
# Readers

A reader takes what it reads from the front of a text and hands on the rest, or
fails. An alternative starts again where the first attempt did.

## Main results

* `Reader.literal_append`: a literal is read from a text that starts with it.
* `Reader.bind_of_eq`: a reader goes on with what is left by its first step.
-/

namespace Linkage

/-- Something that reads from the front of a text. -/
abbrev Reader := StateT (List Char) Option

namespace Reader

/-- The next character, left in place. -/
def peek : Reader (Option Char) := do return (← get).head?

/-- Take the next character. -/
def next : Reader Char := fun
  | [] => none
  | c :: rest => some (c, rest)

/-- Take a character if it comes next, and tell whether it did. -/
def accept (c : Char) : Reader Bool := fun
  | [] => some (false, [])
  | d :: rest => if d = c then some (true, rest) else some (false, d :: rest)

/-- Take a character that has to come next. -/
def expect (c : Char) : Reader Unit := do
  if !(← accept c) then failure

/-- Take a text that has to come next. -/
def literal : List Char → Reader Unit
  | [] => pure ()
  | c :: rest => do
      expect c
      literal rest

/-- Whether a text comes next. -/
def ahead (s : List Char) : Reader Bool := do return s.isPrefixOf (← get)

/-- Take a text if it comes next, and tell whether it did. -/
def acceptText (s : List Char) : Reader Bool := do
  if ← ahead s then
    literal s
    return true
  else
    return false

/-- Take the longest run of characters of a class. -/
def takeWhile (p : Char → Bool) : Reader (List Char) := fun s =>
  some (s.takeWhile p, s.dropWhile p)

/-- Take a run of characters of a class that must not be empty. -/
def takeSome (p : Char → Bool) : Reader (List Char) := do
  let run ← takeWhile p
  if run = [] then failure
  return run

/-- Skip characters of a class. -/
def skipWhile (p : Char → Bool) : Reader Unit :=
  fun s => some ((), s.dropWhile p)

/-- Succeed at the end of the text only. -/
def finish : Reader Unit := do
  if (← get) ≠ [] then failure

/-- A value that may be there: an attempt that fails takes nothing. -/
def optional {α : Type} (r : Reader α) : Reader (Option α) := fun s =>
  match r s with
  | some (a, rest) => some (some a, rest)
  | none => some (none, s)

/-- The value of exactly `n` hexadecimal digits, read through a class and a
value of digits. -/
def fixedDigits (isDigit : Char → Bool) (value : List Char → Nat) :
    Nat → Reader Nat := fun n s =>
  let digits := s.take n
  if digits.length = n ∧ digits.all isDigit then
    some (value digits, s.drop n) else none

/-- Read a whole text, leaving nothing. -/
def whole {α : Type} (r : Reader α) (s : List Char) : Option α :=
  match r s with
  | some (a, []) => some a
  | _ => none

theorem accept_self (c : Char) (rest : List Char) :
    accept c (c :: rest) = some (true, rest) :=
  if_pos rfl

theorem expect_self (c : Char) (rest : List Char) :
    expect c (c :: rest) = some ((), rest) := by
  simp only [expect, bind, StateT.bind, accept_self, Option.bind]
  rfl

theorem literal_append (s rest : List Char) :
    literal s (s ++ rest) = some ((), rest) := by
  induction s with
  | nil => rfl
  | cons c s ih =>
      simp only [literal, List.cons_append, bind, StateT.bind,
        expect_self, Option.bind]
      exact ih

section Runs

variable {α β : Type} {s rest : List Char}

/-- What the first step reads and leaves is handed on. -/
theorem bind_of_eq {r : Reader α} {a : α} (h : r s = some (a, rest))
    (f : α → Reader β) :
    (r >>= f) s = f a rest := by
  simp only [bind, StateT.bind, h, Option.bind]

theorem peek_cons (c : Char) (rest : List Char) :
    peek (c :: rest) = some (some c, c :: rest) := rfl

theorem next_cons (c : Char) (rest : List Char) :
    next (c :: rest) = some (c, rest) := rfl

theorem accept_of_head? {c : Char} (h : s.head? ≠ some c) :
    accept c s = some (false, s) := by
  cases s with
  | nil => rfl
  | cons d s => exact if_neg fun heq => h (by rw [heq]; rfl)

theorem takeWhile_append {p : Char → Bool} (hs : ∀ c ∈ s, p c = true)
    (hrest : ∀ c ∈ rest.head?, p c = false) :
    takeWhile p (s ++ rest) = some (s, rest) := by
  have hdrop : rest.dropWhile p = rest := by
    cases rest with
    | nil => rfl
    | cons c rest => exact List.dropWhile_cons_of_neg (by simp [hrest c rfl])
  have htake : rest.takeWhile p = [] := by
    cases rest with
    | nil => rfl
    | cons c rest => exact List.takeWhile_cons_of_neg (by simp [hrest c rfl])
  unfold takeWhile
  rw [List.takeWhile_append_of_pos hs,
    List.dropWhile_append_of_pos hs, hdrop, htake, List.append_nil]

theorem takeSome_append {p : Char → Bool} (hne : s ≠ [])
    (hs : ∀ c ∈ s, p c = true) (hrest : ∀ c ∈ rest.head?, p c = false) :
    takeSome p (s ++ rest) = some (s, rest) := by
  unfold takeSome
  rw [bind_of_eq (takeWhile_append hs hrest), if_neg hne]
  rfl

theorem skipWhile_append {p : Char → Bool} (hs : ∀ c ∈ s, p c = true)
    (hrest : ∀ c ∈ rest.head?, p c = false) :
    skipWhile p (s ++ rest) = some ((), rest) := by
  have h := takeWhile_append hs hrest
  unfold takeWhile at h
  unfold skipWhile
  simp_all

theorem whole_of_eq {r : Reader α} {a : α} (h : r s = some (a, [])) :
    whole r s = some a := by
  unfold whole
  rw [h]

end Runs

end Reader

end Linkage
