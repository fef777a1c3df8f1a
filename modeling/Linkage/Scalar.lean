import Linkage.Number.Integer
import Linkage.Number.Reading
import Linkage.Number.Shortest

/-!
# Scalars

A parameter is written as a truth value, an integer, a fraction or a text, and
kept as text. This module holds the four kinds and the text each is kept as.
-/

namespace Linkage

/-- A value that a parameter can be written as. -/
inductive Scalar
  | flag (b : Bool)
  | integer (n : Int)
  | fraction (x : Binary64)
  | text (s : String)
  deriving DecidableEq, Repr, Inhabited

namespace Scalar

/-- An integer as a value; beyond the signed 64-bit range it is only held as a
fraction. -/
def ofInteger (n : Int) : Scalar :=
  if n < (twoTo 63 : Nat) then .integer n else
    .fraction (Binary64.ofNat false n.toNat)

/-- The text of a truth value. -/
def flagText (b : Bool) : String := if b then "true" else "false"

/-- The text a value is kept as. -/
def display : Scalar → String
  | .flag b => flagText b
  | .integer n => String.ofList (decimalText n)
  | .fraction x => x.display
  | .text s => s

end Scalar

/-- A kind of value that a kept text can be read as. -/
inductive ScalarType
  | flag
  | integer (t : IntegerType)
  | fraction
  | character
  | text
  deriving DecidableEq, Repr, Inhabited

namespace ScalarType

/-- The truth value written by a text. -/
def readFlag? (s : List Char) : Option Bool :=
  if s = "true".toList then some true
  else if s = "false".toList then some false
  else none

/-- The value written by a text; a single character is given back as a text. -/
def read? : ScalarType → List Char → Option Scalar
  | .flag, s => (readFlag? s).map .flag
  | .integer t, s => (t.read? s).map .integer
  | .fraction, s => (Binary64.read? s).map .fraction
  | .character, s =>
      if s.length = 1 then some (.text (String.ofList s)) else none
  | .text, s => some (.text (String.ofList s))

theorem readFlag?_flagText (b : Bool) :
    readFlag? (Scalar.flagText b).toList = some b := by
  cases b <;> decide

end ScalarType

end Linkage
