import Linkage.Format.Dialect
import Linkage.Format.Reader
import Linkage.Number.Binary64
import Linkage.Number.Digits
import Linkage.Number.Powers

/-!
# JSON documents

Documents follow the grammar of JSON strictly: no comments, no trailing commas,
no leading zeros, nothing after the value. A text may hold any character but a
control character, and escapes may pair up surrogates; a lone surrogate makes
the text unusable, which matters only where the text is looked at.

A number without fraction and exponent is an integer if it fits 64 bits. Any
other is a fraction, computed in one multiplication or division of the leading
digits by a power of ten. The leading digits are those that fit 64 bits, so a
long number may come out one unit off the nearest fraction, and that is part of
the format as it is read here. A magnitude beyond the largest fraction makes the
number unusable.

Reading opens at most 127 containers within each other where their content is
looked at.
-/

namespace Linkage

namespace Json

/-- A number as it is written. -/
structure Literal where
  negative : Bool
  whole : List Char
  fraction : List Char
  exponent : Option (Bool × List Char)
  deriving DecidableEq, Repr

/-- A document. A text that holds a lone surrogate is absent. -/
inductive Value
  | null
  | boolean (b : Bool)
  | number (n : Literal)
  | text (s : Option String)
  | array (items : List Value)
  | object (entries : List (Option String × Value))
  deriving Inhabited

/-! ### Numbers -/

/-- A usable number. -/
inductive Number
  | integer (n : Int)
  | fraction (x : Binary64)
  deriving DecidableEq, Repr

/-- Leading digits are taken while their value is below this bound. -/
def significandBound : Nat := twoTo 64

/-- Exponents are below this bound. -/
def exponentBound : Nat := twoTo 31

/-- Powers of ten go up to this exponent. -/
def largestPower : Nat := 308

/-- The value of the leading digits, continuing one, and the digits that no
longer fit. -/
def leading : Nat → List Char → Nat × List Char
  | n, [] => (n, [])
  | n, c :: rest =>
      let next := n * 10 + (Digits.digit? c).getD 0
      if next < significandBound then leading next rest else (n, c :: rest)

/-- Divide by the largest power of ten until the rest of the exponent is within
the powers. -/
def scaleDown : Nat → Binary64 → Nat → Binary64
  | 0, x, _ => x
  | steps + 1, x, k =>
      if k ≤ largestPower then x.div (Binary64.tenPower k)
      else scaleDown steps (x.div (Binary64.tenPower largestPower))
        (k - largestPower)

/-- After this many divisions by the largest power of ten nothing is left of 64
bits. -/
def scaleSteps : Nat := 4

/-- The fraction `± significand * 10^exponent`, unless it is too large. -/
def assemble (negative : Bool) (significand : Nat) (exponent : Int) :
    Option Binary64 :=
  let x := Binary64.ofNat false significand
  let sign := fun y : Binary64 => if negative then y.neg else y
  if exponent < 0 then some (sign (scaleDown scaleSteps x (-exponent).toNat))
  else if exponent.toNat ≤ largestPower then
    let y := x.mul (Binary64.tenPower exponent.toNat)
    if y.isFinite then some (sign y) else none
  else if significand = 0 then some (sign x)
  else none

/-- The fraction with an exponent part, which may itself be too large to be
counted. -/
def withExponent (negative : Bool) (significand : Nat) (start : Int) :
    Option (Bool × List Char) → Option Binary64
  | none => assemble negative significand start
  | some (down, digits) =>
      let e := Digits.value 10 digits
      if e < exponentBound then
        assemble negative significand (if down then start - e else start + e)
      else if significand = 0 ∨ down then some (Binary64.zero negative)
      else none

namespace Literal

/-- The fraction that a number is read as. -/
def fraction? (n : Literal) : Option Binary64 :=
  let whole := leading 0 n.whole
  let dropped := whole.2.length
  let part := leading whole.1 n.fraction
  let used := n.fraction.length - part.2.length
  withExponent n.negative part.1 ((dropped : Int) - used) n.exponent

/-- The number that is read, unless it is too large. -/
def number? (n : Literal) : Option Number :=
  let value := Digits.value 10 n.whole
  if n.fraction = [] ∧ n.exponent = none ∧ value < significandBound then
    if n.negative then
      if 0 < value ∧ value ≤ twoTo 63 then some (.integer (-(value : Int)))
      else some (.fraction (Binary64.ofNat true value))
    else some (.integer value)
  else n.fraction?.map .fraction

end Literal

/-! ### Texts -/

/-- One unit of a text: a character, or the code unit of an escape. -/
inductive Piece
  | character (c : Char)
  | unit (n : Nat)

/-- Whether a code unit is the first half of a surrogate pair. -/
def isHigh (n : Nat) : Bool := 0xD800 ≤ n && n ≤ 0xDBFF

/-- Whether a code unit is the second half of a surrogate pair. -/
def isLow (n : Nat) : Bool := 0xDC00 ≤ n && n ≤ 0xDFFF

/-- The characters of a text, unless a surrogate stands alone. -/
def join? : List Piece → Option (List Char)
  | [] => some []
  | .character c :: rest => (join? rest).map (c :: ·)
  | .unit n :: .unit m :: rest =>
      if isHigh n then
        if isLow m then
          (join? rest).map
            (Char.ofNat (0x10000 + (n - 0xD800) * 0x400 + (m - 0xDC00)) :: ·)
        else none
      else if isLow n then none
      else (join? (.unit m :: rest)).map (Char.ofNat n :: ·)
  | .unit n :: rest =>
      if isHigh n || isLow n then none else (join? rest).map (Char.ofNat n :: ·)

/-- The character that a short escape stands for. -/
def shortEscape? (c : Char) : Option Char :=
  match c with
  | '"' => some '"'
  | '\\' => some '\\'
  | '/' => some '/'
  | 'b' => some '\x08'
  | 'f' => some '\x0c'
  | 'n' => some '\n'
  | 'r' => some '\r'
  | 't' => some '\t'
  | _ => none

open Reader

/-- What follows a backslash. -/
def readEscape : Reader Piece := do
  let c ← next
  if c = 'u' then
    return .unit (← fixedDigits (Digits.isDigitIn 16) (Digits.value 16) 4)
  else
    match shortEscape? c with
    | some d => return .character d
    | none => failure

/-- The units of a text up to and with its closing quote. -/
def readPieces : Nat → Reader (List Piece)
  | 0 => failure
  | fuel + 1 => do
      let c ← next
      if c = '"' then return []
      else if c.toNat < 0x20 then failure
      else
        let piece ← if c = '\\' then readEscape else pure (.character c)
        return piece :: (← readPieces fuel)

/-- A text after its opening quote. -/
def readText : Reader (Option String) := do
  let pieces ← readPieces ((← get).length + 1)
  return (join? pieces).map String.ofList

/-! ### Documents -/

/-- Whether a character may stand between tokens. -/
def isSpace (c : Char) : Bool := c = ' ' || c = '\n' || c = '\t' || c = '\r'

/-- Skip what may stand between tokens. -/
def skipSpace : Reader Unit := skipWhile isSpace

/-- The exponent of a number, if one follows. -/
def readExponent : Reader (Option (Bool × List Char)) := do
  match ← peek with
  | some c =>
      if c = 'e' || c = 'E' then
        let _ ← next
        let down ← accept '-'
        if !down then let _ ← accept '+'
        return some (down, ← takeSome Digits.isDecimal)
      else return none
  | none => return none

/-- A number. -/
def readNumber : Reader Literal := do
  let negative ← accept '-'
  let whole ← takeSome Digits.isDecimal
  if whole.head? = some '0' ∧ whole.length ≠ 1 then failure
  let fraction ← if ← accept '.' then takeSome Digits.isDecimal else pure []
  return { negative, whole, fraction, exponent := ← readExponent }

mutual

/-- A value. -/
def readValue : Nat → Reader Value
  | 0 => failure
  | fuel + 1 => do
      skipSpace
      match ← peek with
      | some '"' =>
          let _ ← next
          return .text (← readText)
      | some '[' =>
          let _ ← next
          skipSpace
          if ← accept ']' then return .array [] else
            return .array (← readItems fuel)
      | some '\x7b' =>
          let _ ← next
          skipSpace
          if ← accept '\x7d' then return .object [] else
            return .object (← readEntries fuel)
      | some 't' => literal "true".toList; return .boolean true
      | some 'f' => literal "false".toList; return .boolean false
      | some 'n' => literal "null".toList; return .null
      | _ => return .number (← readNumber)

/-- The items of a list up to and with its closing bracket. -/
def readItems : Nat → Reader (List Value)
  | 0 => failure
  | fuel + 1 => do
      let v ← readValue fuel
      skipSpace
      if ← accept ',' then return v :: (← readItems fuel)
      else
        expect ']'
        return [v]

/-- The entries of an object up to and with its closing brace. -/
def readEntries : Nat → Reader (List (Option String × Value))
  | 0 => failure
  | fuel + 1 => do
      skipSpace
      expect '"'
      let key ← readText
      skipSpace
      expect ':'
      let v ← readValue fuel
      skipSpace
      if ← accept ',' then return (key, v) :: (← readEntries fuel)
      else
        expect '\x7d'
        return [(key, v)]

end

/-- The document of a text. Every nested call takes a character first, so the
length of the text bounds the nesting. -/
def parse? (s : String) : Option Value :=
  let chars := s.toList
  whole (do let v ← readValue (2 * chars.length + 2); skipSpace; return v) chars

/-! ### Views -/

/-- Entries whose keys are all usable. -/
def usable? (entries : List (Option String × Value)) :
    Option (List (String × Value)) :=
  entries.mapM fun e => e.1.map fun k => (k, e.2)

/-- A usable number as a scalar. -/
def Number.scalar : Number → Scalar
  | .integer n => .ofInteger n
  | .fraction x => .fraction x

/-- How JSON documents are looked at: a record is an object, or an array of its
fields without further items. -/
def dialect : Dialect Value where
  record _ v := match v with
    | .object entries => (usable? entries).map .named
    | .array items => some (.positional items)
    | _ => none
  sequence v := match v with
    | .array items => some items
    | _ => none
  dictionary v := match v with
    | .object entries => usable? entries
    | _ => none
  text v := match v with
    | .text s => s
    | _ => none
  natural v := match v with
    | .number n => match n.number? with
      | some (.integer (.ofNat m)) => some m
      | _ => none
    | _ => none
  scalar v := match v with
    | .boolean b => some (.flag b)
    | .number n => n.number?.map Number.scalar
    | .text s => s.map .text
    | _ => none
  isUnit _ v := match v with
    | .null => true
    | _ => false
  refusesExtraItems := true

@[simp] theorem usable?_nil : usable? [] = some [] := rfl

@[simp] theorem usable?_cons (key : String) (v : Value)
    (entries : List (Option String × Value)) :
    usable? ((some key, v) :: entries) =
      (usable? entries).map ((key, v) :: ·) := by
  unfold usable?
  rw [List.mapM_cons]
  cases entries.mapM fun e => e.1.map fun k => (k, e.2) <;> rfl

@[simp] theorem record_object (type : String)
    (entries : List (Option String × Value)) :
    dialect.record type (.object entries) = (usable? entries).map .named := rfl

@[simp] theorem dictionary_object (entries : List (Option String × Value)) :
    dialect.dictionary (.object entries) = usable? entries := rfl

@[simp] theorem sequence_array (items : List Value) :
    dialect.sequence (.array items) = some items := rfl

@[simp] theorem text_text (s : Option String) :
    dialect.text (.text s) = s := rfl

/-- How many containers may be opened within each other. -/
def budget : Nat := 127

end Json

end Linkage
