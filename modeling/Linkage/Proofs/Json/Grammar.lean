import Linkage.Format.Json
import Linkage.Number.Integer
import Mathlib.Tactic.ByContra

/-!
# The grammar of JSON

What a text spells, rule by rule: numbers, the pieces of a text, values, and the
items of a list or the entries of an object up to their closing bracket. Blanks
may stand around every value and every punctuation mark, a character may be
escaped or not, an exponent may come with a plus or without. So a value has many
spellings, and a spelling says nothing of how it is read.

A literal with the digits of an integer and nothing else is spelled by the
decimal text of that integer. It is usable as long as the integer fits 64 bits,
with or without a sign.

## Main results

* `Spells.exists_cons`: a spelled value starts with a character that is no
  blank.
* `spellsText_of_bare`: a text without quotes, backslashes and control
  characters spells itself.
* `spellsNumber_ofInteger`: the decimal text of an integer spells its literal.
* `Literal.number?_ofInteger`: the literal of an integer of 64 bits is that
  integer.
-/

namespace Linkage

namespace Json

/-! ### Numbers -/

/-- At least one decimal digit. -/
def SomeDigits (s : List Char) : Prop :=
  s ≠ [] ∧ ∀ c ∈ s, Digits.isDecimal c = true

/-- The part of a number that starts with the point. -/
inductive SpellsFraction : List Char → List Char → Prop
  | absent : SpellsFraction [] []
  | digits {ds : List Char} (h : SomeDigits ds) : SpellsFraction ds ('.' :: ds)

/-- The sign of an exponent, which may be left out. -/
inductive SpellsSign : Bool → List Char → Prop
  | minus : SpellsSign true ['-']
  | plus : SpellsSign false ['+']
  | bare : SpellsSign false []

/-- The part of a number that starts with the letter. -/
inductive SpellsExponent : Option (Bool × List Char) → List Char → Prop
  | absent : SpellsExponent none []
  | digits {e : Char} {down : Bool} {sign ds : List Char}
      (he : e = 'e' ∨ e = 'E') (hsign : SpellsSign down sign)
      (h : SomeDigits ds) :
      SpellsExponent (some (down, ds)) (e :: (sign ++ ds))

/-- A number; only a zero starts with a zero. -/
inductive SpellsNumber : Literal → List Char → Prop
  | mk {n : Literal} {fraction exponent : List Char}
      (hwhole : SomeDigits n.whole)
      (hzero : n.whole.head? = some '0' → n.whole.length = 1)
      (hfraction : SpellsFraction n.fraction fraction)
      (hexponent : SpellsExponent n.exponent exponent) :
      SpellsNumber n ((if n.negative then ['-'] else []) ++
        (n.whole ++ (fraction ++ exponent)))

/-- Whether a number may start with a character. -/
def startsNumber (c : Char) : Bool := c = '-' || Digits.isDecimal c

theorem SpellsNumber.exists_cons {n : Literal} {s : List Char}
    (h : SpellsNumber n s) :
    ∃ c t, s = c :: t ∧ startsNumber c = true := by
  obtain ⟨negative, whole, digits, power⟩ := n
  cases h with
  | @mk fraction exponent hwhole hzero hfraction hexponent =>
  dsimp only at hwhole ⊢
  cases negative with
  | true => exact ⟨'-', _, rfl, rfl⟩
  | false =>
      obtain ⟨c, tail, rfl⟩ := List.exists_cons_of_ne_nil hwhole.1
      have hc := hwhole.2 c (by simp)
      exact ⟨c, _, rfl, by simp [startsNumber, hc]⟩

theorem isSpace_of_startsNumber {c : Char} (h : startsNumber c = true) :
    isSpace c = false := by
  rw [← Bool.not_eq_true]
  intro hspace
  simp only [isSpace, Bool.or_eq_true, decide_eq_true_eq] at hspace
  rcases hspace with ((rfl | rfl) | rfl) | rfl <;> exact absurd h (by decide)

/-- The literal of an integer. -/
def Literal.ofInteger (n : Int) : Literal :=
  ⟨n < 0, Nat.toDigits 10 n.natAbs, [], none⟩

theorem spellsNumber_ofInteger (n : Int) :
    SpellsNumber (.ofInteger n) (decimalText n) := by
  have hwhole : SomeDigits (Nat.toDigits 10 n.natAbs) :=
    ⟨Nat.toDigits_ne_nil, fun c hc => Digits.isDecimal_of_mem_toDigits hc⟩
  have hzero : (Nat.toDigits 10 n.natAbs).head? = some '0' →
      (Nat.toDigits 10 n.natAbs).length = 1 := by
    intro hhead
    have hn : n.natAbs = 0 := by
      by_contra hne
      exact Digits.head?_toDigits hne hhead
    rw [hn]
    rfl
  have htext : (if (Literal.ofInteger n).negative then ['-'] else []) ++
      ((Literal.ofInteger n).whole ++ ([] ++ [])) = decimalText n := by
    simp only [Literal.ofInteger, List.append_nil]
    cases n with
    | ofNat m => simp [decimalText]
    | negSucc m => simp [decimalText, Int.negSucc_lt_zero]
  rw [← htext]
  exact .mk hwhole hzero .absent .absent

theorem Literal.number?_ofInteger {n : Int} (hlow : -(twoTo 63 : Nat) ≤ n)
    (hhigh : n < (twoTo 64 : Nat)) :
    (Literal.ofInteger n).number? = some (.integer n) := by
  have hvalue : Digits.value 10 (Literal.ofInteger n).whole = n.natAbs :=
    Digits.value_toDigits _
  have hle : twoTo 63 < significandBound := by decide
  have hbound : significandBound = twoTo 64 := rfl
  have hsmall : n.natAbs < significandBound := by omega
  unfold number?
  simp only [hvalue]
  rw [if_pos ⟨rfl, rfl, hsmall⟩]
  by_cases hneg : n < 0
  · have hsign : (Literal.ofInteger n).negative = true := decide_eq_true hneg
    rw [if_pos hsign, if_pos (by omega)]
    congr 2
    omega
  · have hsign : ¬ (Literal.ofInteger n).negative = true :=
      fun h => hneg (of_decide_eq_true h)
    rw [if_neg hsign]
    congr 2
    omega

/-! ### Texts -/

/-- The pieces of a text, with the closing quote. -/
inductive SpellsPieces : List Piece → List Char → Prop
  | close : SpellsPieces [] ['"']
  | character {c : Char} {pieces : List Piece} {s : List Char}
      (hquote : c ≠ '"') (hslash : c ≠ '\\') (hcontrol : 0x20 ≤ c.toNat)
      (h : SpellsPieces pieces s) :
      SpellsPieces (.character c :: pieces) (c :: s)
  | escape {c d : Char} {pieces : List Piece} {s : List Char}
      (hc : shortEscape? c = some d) (h : SpellsPieces pieces s) :
      SpellsPieces (.character d :: pieces) ('\\' :: c :: s)
  | unit {ds : List Char} {pieces : List Piece} {s : List Char}
      (hlength : ds.length = 4)
      (hdigits : ∀ c ∈ ds, Digits.isDigitIn 16 c = true)
      (h : SpellsPieces pieces s) :
      SpellsPieces (.unit (Digits.value 16 ds) :: pieces)
        ('\\' :: 'u' :: (ds ++ s))

/-- A text without its opening quote. -/
def SpellsText (t : Option String) (s : List Char) : Prop :=
  ∃ pieces, SpellsPieces pieces s ∧ t = (join? pieces).map String.ofList

/-- Whether a character stands for itself in a text. -/
def isBare (c : Char) : Bool := c ≠ '"' && c ≠ '\\' && 0x20 ≤ c.toNat

/-- A text of such characters spells itself. -/
theorem spellsText_of_bare {t : String} (h : t.toList.all isBare = true) :
    SpellsText (some t) (t.toList ++ ['"']) := by
  have hpieces : ∀ s : List Char, s.all isBare = true →
      SpellsPieces (s.map .character) (s ++ ['"']) := by
    intro s hs
    induction s with
    | nil => exact .close
    | cons c s ih =>
        simp only [List.all_cons, Bool.and_eq_true, isBare,
          decide_eq_true_eq] at hs
        obtain ⟨⟨⟨hquote, hslash⟩, hcontrol⟩, hs⟩ := hs
        exact .character hquote hslash hcontrol (ih hs)
  have hjoin : ∀ s : List Char, join? (s.map .character) = some s := by
    intro s
    induction s with
    | nil => rfl
    | cons c s ih => rw [List.map_cons, join?, ih]; rfl
  exact ⟨_, hpieces _ h, by rw [hjoin, Option.map_some, String.ofList_toList]⟩

/-! ### Documents -/

/-- What may stand between tokens. -/
def Blank (s : List Char) : Prop := ∀ c ∈ s, isSpace c = true

/-- What a part of a document is: a value, or what stands in a container up to
its closing bracket. -/
inductive Part
  | value (v : Value)
  | items (l : List Value)
  | entries (l : List (Option String × Value))

/-- A part of a document, without the blanks around a value. -/
inductive Spells : Part → List Char → Prop
  | null : Spells (.value .null) "null".toList
  | yes : Spells (.value (.boolean true)) "true".toList
  | no : Spells (.value (.boolean false)) "false".toList
  | number {n : Literal} {s : List Char} (h : SpellsNumber n s) :
      Spells (.value (.number n)) s
  | text {t : Option String} {s : List Char} (h : SpellsText t s) :
      Spells (.value (.text t)) ('"' :: s)
  | emptyArray {b : List Char} (hb : Blank b) :
      Spells (.value (.array [])) ('[' :: (b ++ [']']))
  | array {l : List Value} {s : List Char} (h : Spells (.items l) s) :
      Spells (.value (.array l)) ('[' :: s)
  | emptyObject {b : List Char} (hb : Blank b) :
      Spells (.value (.object [])) ('\x7b' :: (b ++ ['\x7d']))
  | object {l : List (Option String × Value)} {s : List Char}
      (h : Spells (.entries l) s) :
      Spells (.value (.object l)) ('\x7b' :: s)
  | lastItem {v : Value} {a s b : List Char} (ha : Blank a)
      (h : Spells (.value v) s) (hb : Blank b) :
      Spells (.items [v]) (a ++ (s ++ (b ++ [']'])))
  | item {v : Value} {l : List Value} {a s b t : List Char} (ha : Blank a)
      (h : Spells (.value v) s) (hb : Blank b) (hl : Spells (.items l) t) :
      Spells (.items (v :: l)) (a ++ (s ++ (b ++ (',' :: t))))
  | lastEntry {key : Option String} {v : Value} {a k b c s d : List Char}
      (ha : Blank a) (hkey : SpellsText key k) (hb : Blank b) (hc : Blank c)
      (h : Spells (.value v) s) (hd : Blank d) :
      Spells (.entries [(key, v)])
        (a ++ ('"' :: (k ++ (b ++ (':' :: (c ++ (s ++ (d ++ ['\x7d']))))))))
  | entry {key : Option String} {v : Value} {l : List (Option String × Value)}
      {a k b c s d t : List Char} (ha : Blank a) (hkey : SpellsText key k)
      (hb : Blank b) (hc : Blank c) (h : Spells (.value v) s) (hd : Blank d)
      (hl : Spells (.entries l) t) :
      Spells (.entries ((key, v) :: l))
        (a ++ ('"' :: (k ++ (b ++ (':' :: (c ++ (s ++ (d ++ (',' :: t)))))))))

/-- The first character of a value, by which its kind is known. -/
theorem Spells.exists_cons {v : Value} {s : List Char}
    (h : Spells (.value v) s) :
    ∃ c t, s = c :: t ∧ isSpace c = false ∧ c ≠ ']' := by
  cases h with
  | number h =>
      obtain ⟨c, t, rfl, hc⟩ := h.exists_cons
      refine ⟨c, t, rfl, isSpace_of_startsNumber hc, ?_⟩
      rintro rfl
      exact absurd hc (by decide)
  | _ => exact ⟨_, _, rfl, by decide, by decide⟩

theorem blank_nil : Blank [] := fun _ hc => absurd hc List.not_mem_nil

theorem Spells.length_pos {v : Value} {s : List Char}
    (h : Spells (.value v) s) : 0 < s.length := by
  obtain ⟨c, t, rfl, -⟩ := h.exists_cons
  exact Nat.succ_pos _

/-- A whole document, with blanks around it. -/
def Document (v : Value) (text : String) : Prop :=
  ∃ a s b, Blank a ∧ Spells (.value v) s ∧ Blank b ∧ text.toList = a ++ (s ++ b)

end Json

end Linkage
