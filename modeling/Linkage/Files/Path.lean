/-!
# File paths

Paths are texts with slashes between their parts. The extension of a path
belongs to its last part: empty parts and single dots do not count, and a path
that ends in a double dot, or has no part, has no extension.
-/

namespace Linkage

namespace Path

/-- The parts of a path between its slashes. -/
def parts : List Char → List (List Char)
  | [] => [[]]
  | c :: rest =>
      if c = '/' then [] :: parts rest
      else
        match parts rest with
        | [] => [[c]]
        | p :: ps => (c :: p) :: ps

/-- Whether a path starts at the root. -/
def isAbsolute (path : String) : Bool := path.toList.head? = some '/'

/-- The parts of a path that name something. -/
def names (path : String) : List (List Char) :=
  (parts path.toList).filter fun p => p ≠ [] ∧ p ≠ ['.']

/-- The file that a path names: its last part, unless that leads upwards. -/
def fileName? (path : String) : Option (List Char) :=
  (names path).getLast?.filter (· ≠ ['.', '.'])

/-- What follows the last dot of a file name, unless that dot is its first
character. -/
def extensionOf? (name : List Char) : Option (List Char) :=
  let after := (name.reverse.takeWhile (· ≠ '.')).reverse
  let before := (name.reverse.dropWhile (· ≠ '.')).reverse.dropLast
  if name.contains '.' ∧ before ≠ [] then some after else none

/-- The extension of a path. -/
def extension? (path : String) : Option String :=
  ((fileName? path).bind extensionOf?).map String.ofList

/-- The path of a file in a directory; a path from the root stands for
itself. -/
def join (dir file : String) : String :=
  if isAbsolute file then file
  else if dir = "" ∨ dir.toList.getLast? = some '/' then dir ++ file
  else dir ++ "/" ++ file

end Path

end Linkage
