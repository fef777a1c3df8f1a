import Linkage.Text.Blank
import Linkage.Text.Pairs

/-!
# Topic names

Messages travel over named topics. A name must not be empty or a lone slash,
hold white space or one of the reserved characters `@` and `~`, or contain the
reserved pair `:=` or a doubled slash. A publisher may hand in a name that
breaks these rules; it is then repaired in five fixed steps, one pass each
except for the last, and rejected only if the result is still invalid.

## Main results

* `Topic.isValid_of_sanitize`: a repaired name is valid.
* `Topic.sanitize_isSome_iff`: a name is rejected exactly when what its repair
  gives is invalid.
-/

namespace Linkage

namespace Topic

open Text

/-- Whether a name, as characters, may be subscribed to. -/
def isValidChars (s : List Char) : Bool :=
  s ≠ [] && s ≠ ['/'] && !s.any isBlank && !s.contains '@' && !s.contains '~' &&
    !hasPair ':' '=' s && !hasPair '/' '/' s

/-- Whether a name may be subscribed to. -/
def isValid (name : String) : Bool := isValidChars name.toList

/-- The five steps of a repair: trim, turn spaces into underscores, delete the
reserved pair, delete the reserved characters, and make every run of slashes a
single slash. -/
def repair (s : List Char) : List Char :=
  let underscored := (trim s).map fun c => if c = ' ' then '_' else c
  let unpaired := replacePair ':' '=' [] underscored
  let kept := unpaired.filter fun c => c ≠ '@' && c ≠ '~'
  collapse '/' kept

/-- The repaired name, unless no valid name results. -/
def sanitize (name : String) : Option String :=
  let chars := repair name.toList
  if isValidChars chars then some (String.ofList chars) else none

/-- The first candidate that can be repaired, repaired. -/
def firstValid (candidates : List String) : Option String :=
  candidates.findSome? sanitize

theorem isValid_of_sanitize {name topic : String}
    (h : sanitize name = some topic) :
    isValid topic = true := by
  simp only [sanitize] at h
  split at h
  · next hv => cases h; simpa [isValid] using hv
  · cases h

theorem sanitize_isSome_iff (name : String) :
    (sanitize name).isSome = true ↔
      isValidChars (repair name.toList) = true := by
  simp only [sanitize]
  split <;> simp_all

end Topic

end Linkage
