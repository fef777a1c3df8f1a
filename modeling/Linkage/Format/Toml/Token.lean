import Linkage.Format.Reader
import Linkage.Number.Integer
import Linkage.Number.Powers
import Linkage.Number.Reading
import Linkage.Scalar

/-!
# TOML texts, numbers and moments

Texts come in four forms, basic or literal and on one line or several. Numbers
group their digits with single underscores. Moments are dates, times of day or
both, checked against the calendar and kept as text in one spelling.
-/

namespace Linkage

namespace Toml

open Reader

/-! ### Space and lines -/

/-- Whether a character is space within a line. -/
def isBlank (c : Char) : Bool := c = ' ' || c = '\t'

/-- Skip space within a line. -/
def skipBlanks : Reader Unit := skipWhile isBlank

/-- Whether a character may stand in a comment: a tab, or anything that is no
ASCII control. -/
def isCommentChar (c : Char) : Bool :=
  c = '\t' || (0x20 ≤ c.toNat && c.toNat ≠ 0x7F)

/-- Take a line break and tell whether there was one; a carriage return alone is
none. -/
def acceptBreak : Reader Bool := fun
  | '\n' :: rest => some (true, rest)
  | '\r' :: '\n' :: rest => some (true, rest)
  | s => some (false, s)

/-- The end of a line: space, a comment, and a line break or the end of the
text. -/
def endLine : Reader Unit := do
  skipBlanks
  if ← accept '#' then skipWhile isCommentChar
  if ← acceptBreak then pure ()
  else finish

/-- Skip space, line breaks and comments between the items of a list. -/
def skipLines : Nat → Reader Unit
  | 0 => failure
  | fuel + 1 => do
      skipBlanks
      if ← acceptBreak then skipLines fuel
      else if ← accept '#' then
        skipWhile isCommentChar
        if ← acceptBreak then skipLines fuel else failure
      else pure ()

/-! ### Texts -/

/-- Whether a character may stand for itself in a text on one line. -/
def isTextChar (c : Char) : Bool := isCommentChar c

/-- The character of an escape in hexadecimal digits, which has to be a Unicode
scalar value. -/
def readScalarValue (count : Nat) : Reader Char := do
  let n ← fixedDigits (Digits.isDigitIn 16) (Digits.value 16) count
  if n < 0xD800 || (0xDFFF < n && n < 0x110000) then
    return Char.ofNat n else failure

/-- What follows a backslash. -/
def readEscape : Reader Char := do
  match ← next with
  | 'b' => return '\x08'
  | 'f' => return '\x0c'
  | 'n' => return '\n'
  | 'r' => return '\r'
  | 't' => return '\t'
  | '"' => return '"'
  | '\\' => return '\\'
  | 'u' => readScalarValue 4
  | 'U' => readScalarValue 8
  | _ => failure

/-- The characters of a basic text on one line, up to and with its closing
quote. -/
def readBasic : Nat → Reader (List Char)
  | 0 => failure
  | fuel + 1 => do
      let c ← next
      if c = '"' then return []
      else
        let d ← if c = '\\' then readEscape
            else if isTextChar c then pure c else failure
        return d :: (← readBasic fuel)

/-- The characters of a literal text on one line, after its opening quote. -/
def readLiteral : Reader (List Char) := do
  let body ← takeWhile fun c => isTextChar c && c ≠ '\''
  expect '\''
  return body

/-- Quotes in a text of several lines: fewer than three belong to the text;
three close it, after up to two more that belong to it. -/
def closing? (run : Nat) : Option Nat :=
  if run < 3 then none else some (min (run - 3) 2)

/-- Whether what follows a backslash is space up to the end of the line. -/
def breaksLine (s : List Char) : Bool :=
  match s.dropWhile isBlank with
  | '\n' :: _ => true
  | '\r' :: '\n' :: _ => true
  | _ => false

/-- Skip space and line breaks. -/
def skipBreaks : Nat → Reader Unit
  | 0 => failure
  | fuel + 1 => do
      skipBlanks
      if ← acceptBreak then skipBreaks fuel

/-- The characters of a text of several lines, up to and with its closing
quotes. In a basic text a backslash at the end of a line joins it to the next
character that is no space. -/
def readLines (quote : Char) (basic : Bool) : Nat → Reader (List Char)
  | 0 => failure
  | fuel + 1 => do
      let s ← get
      let run := (s.takeWhile (· = quote)).length
      match closing? run with
      | some extra =>
          set (s.drop (extra + 3))
          return List.replicate extra quote
      | none =>
          if 0 < run then
            set (s.drop run)
            return List.replicate run quote ++ (← readLines quote basic fuel)
          else if ← acceptBreak then
            return '\n' :: (← readLines quote basic fuel)
          else
            let c ← next
            if basic && c = '\\' then
              if breaksLine (← get) then
                skipBreaks ((← get).length + 1)
                readLines quote basic fuel
              else
                let d ← readEscape
                return d :: (← readLines quote basic fuel)
            else if isTextChar c then
              return c :: (← readLines quote basic fuel)
            else failure

/-- A text of any form. -/
def readText : Reader String := do
  let s ← get
  let fuel := s.length + 1
  if ← acceptText (List.replicate 3 '"') then
    let _ ← acceptBreak
    return String.ofList (← readLines '"' true fuel)
  else if ← acceptText (List.replicate 3 '\'') then
    let _ ← acceptBreak
    return String.ofList (← readLines '\'' false fuel)
  else if ← accept '"' then return String.ofList (← readBasic fuel)
  else
    expect '\''
    return String.ofList (← readLiteral)

/-! ### Numbers -/

/-- Digits of a base with single underscores between them, underscores left
out. -/
def readGrouped (isDigit : Char → Bool) : Reader (List Char) := do
  let run ← takeSome fun c => isDigit c || c = '_'
  if grouped run then return run.filter (· ≠ '_') else failure
where
  /-- Whether every underscore stands between two digits. -/
  grouped (run : List Char) : Bool :=
    run.head? ≠ some '_' && run.getLast? ≠ some '_' &&
      (run.zip run.tail).all fun p => p.1 ≠ '_' || p.2 ≠ '_'

/-- The digits of a decimal number, without leading zeros. -/
def readWhole : Reader (List Char) := do
  if (← peek) = some '0' then
    let _ ← next
    return ['0']
  else readGrouped Digits.isDecimal

/-- The bound that integers stay below. -/
def integerBound : Nat := twoTo 63

/-- A natural number in a base, after its mark. -/
def readBased (base : Nat) : Reader Scalar := do
  let n := Digits.value base (← readGrouped (Digits.isDigitIn base))
  if n < integerBound then return .integer n else failure

/-- An exponent, if one follows, with its letter and sign. -/
def readExponent : Reader (List Char) := do
  match ← peek with
  | some c =>
      if c = 'e' || c = 'E' then
        let _ ← next
        let sign ← if ← accept '-' then pure ['-'] else do
          let _ ← accept '+'
          pure []
        return 'e' :: sign ++ (← readGrouped Digits.isDecimal)
      else return []
  | none => return []

/-- A decimal number after its sign: an integer, or a fraction, which must not
be too large to be finite unless it is negative. -/
def readDecimal (sign : List Char) : Reader Scalar := do
  let whole ← readWhole
  let fraction ← if ← accept '.' then do
      pure ('.' :: (← readGrouped Digits.isDecimal)) else pure []
  let exponent ← readExponent
  if fraction = [] ∧ exponent = [] then
    match IntegerType.i64.read? (sign ++ whole) with
    | some n => return .integer n
    | none => failure
  else
    match Binary64.read? (sign ++ whole ++ fraction ++ exponent) with
    | some (.infinity false) => failure
    | some x => return .fraction x
    | none => failure

/-- The words for fractions without digits, after their sign. -/
def readWord (negative : Bool) : Reader Scalar := do
  if ← acceptText "inf".toList then return .fraction (.infinity negative)
  else
    literal "nan".toList
    return .fraction .nan

/-- A number. -/
def readNumber : Reader Scalar := do
  if ← acceptText "0x".toList then readBased 16
  else if ← acceptText "0o".toList then readBased 8
  else if ← acceptText "0b".toList then readBased 2
  else
    let sign ← if ← accept '-' then pure ['-'] else do
      if ← accept '+' then pure ['+'] else pure []
    match ← peek with
    | some c =>
        if Digits.isDecimal c then readDecimal sign else readWord (sign = ['-'])
    | none => failure

/-! ### Moments -/

/-- A field of a moment: exactly `count` decimal digits. -/
def readField (count : Nat) : Reader Nat :=
  fixedDigits Digits.isDecimal (Digits.value 10) count

/-- A field of a moment within bounds. -/
def readBounded (count low high : Nat) : Reader Nat := do
  let n ← readField count
  if low ≤ n && n ≤ high then return n else failure

/-- A number in at least `count` digits. -/
def padded (count n : Nat) : String :=
  let digits := Nat.toDigits 10 n
  String.ofList (List.replicate (count - digits.length) '0' ++ digits)

/-- Whether a year has a 29th of February. -/
def isLeap (year : Nat) : Bool :=
  year % 4 = 0 && (year % 100 ≠ 0 || year % 400 = 0)

/-- How many days a month has. -/
def daysIn (year month : Nat) : Nat :=
  if month = 2 then (if isLeap year then 29 else 28)
  else if month = 4 || month = 6 || month = 9 || month = 11 then 30
  else 31

/-- Whether a date starts here: four digits and a dash. -/
def startsDate (s : List Char) : Bool :=
  (s.take 4).length = 4 && (s.take 4).all Digits.isDecimal &&
    (s.drop 4).head? = some '-'

/-- Whether a time of day starts here: an hour and a colon. -/
def startsTime (s : List Char) : Bool :=
  (s.take 2).length = 2 && (s.take 2).all Digits.isDecimal &&
    Digits.value 10 (s.take 2) ≤ 23 && (s.drop 2).head? = some ':'

/-- A date. -/
def readDate : Reader String := do
  let year ← readField 4
  expect '-'
  let month ← readBounded 2 1 12
  expect '-'
  let day ← readBounded 2 1 31
  if daysIn year month < day then failure
  return padded 4 year ++ "-" ++ padded 2 month ++ "-" ++ padded 2 day

/-- The digits of a second after its point, cut to nanoseconds, without zeros at
the end. -/
def readSubsecond : Reader (List Char) := do
  match ← get with
  | '.' :: c :: _ =>
      if Digits.isDecimal c then
        let _ ← next
        let digits ← takeWhile Digits.isDecimal
        return ((digits.take 9).reverse.dropWhile (· = '0')).reverse
      else return []
  | _ => return []

/-- A time of day. -/
def readTime : Reader String := do
  let hour ← readBounded 2 0 23
  expect ':'
  let minute ← readBounded 2 0 59
  expect ':'
  let second ← readBounded 2 0 60
  let part ← readSubsecond
  return padded 2 hour ++ ":" ++ padded 2 minute ++ ":" ++ padded 2 second ++
    (if part = [] then "" else "." ++ String.ofList part)

/-- The offset of a time of day, if one follows. -/
def readOffset : Reader String := do
  match ← peek with
  | some c =>
      if c = 'Z' || c = 'z' then
        let _ ← next
        return "Z"
      else if c = '+' || c = '-' then
        let _ ← next
        let hour ← readBounded 2 0 23
        expect ':'
        let minute ← readBounded 2 0 59
        let sign := if c = '-' && 0 < hour + minute then "-" else "+"
        return sign ++ padded 2 hour ++ ":" ++ padded 2 minute
      else return ""
  | none => return ""

/-- The time of day after a date, if one follows. -/
def readTimeAfterDate : Reader String := do
  match ← get with
  | c :: rest =>
      if (c = 'T' || c = 't' || c = ' ') && startsTime rest then
        let _ ← next
        let time ← readTime
        return "T" ++ time ++ (← readOffset)
      else return ""
  | [] => return ""

/-- A date, a time of day, or both. -/
def readMoment : Reader String := do
  if startsDate (← get) then
    let date ← readDate
    return date ++ (← readTimeAfterDate)
  else readTime

/-- Whether a moment starts here. -/
def startsMoment (s : List Char) : Bool := startsDate s || startsTime s

end Toml

end Linkage
