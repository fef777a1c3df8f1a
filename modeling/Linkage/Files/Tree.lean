import Linkage.Files.Path

/-!
# File trees

A tree holds files with their content, and directories. A path is followed part
by part: everything but the last part has to be a directory, a part that is
empty or a single dot stays where it is but needs a directory too, and a double
dot goes one directory up. Beyond the tree, which a path reaches from the root
of all files or by leading up too far, there is nothing but directories without
a file. Names and whole paths have a greatest length.

## Main results

* `FileTree.follow_append`: following two paths one after the other is following
  their concatenation.
-/

namespace Linkage

/-- What can be found at a path. -/
inductive FileEntry
  | file (content : ByteArray)
  | directory

/-- Why a file cannot be read. -/
inductive FileError
  | notFound
  | notADirectory
  | isADirectory
  | invalidData
  | invalidName
  | invalidInput
  deriving DecidableEq, Repr

/-- The word for the cause. -/
def FileError.name : FileError → String
  | .notFound => "NotFound"
  | .notADirectory => "NotADirectory"
  | .isADirectory => "IsADirectory"
  | .invalidData => "InvalidData"
  | .invalidName => "InvalidFilename"
  | .invalidInput => "InvalidInput"

/-- A place in a tree: the names on the way from its root. -/
abbrev Place := List (List Char)

/-- Files and directories by place, the most recently added first. -/
structure FileTree where
  entries : List (Place × FileEntry) := []

namespace FileTree

/-- The place that stands for everything beyond the tree. No file has this
name. -/
def beyond : Place := [['.', '.']]

/-- The place one directory up. -/
def above (place : Place) : Place :=
  if place = [] ∨ place = beyond then beyond else place.dropLast

/-- The places on the way along some names, the last one first. -/
def passed : Place → List (List Char) → List Place
  | _, [] => []
  | place, name :: rest =>
      let next := if name = ['.', '.'] then above place else place ++ [name]
      passed next rest ++ [next]

/-- What is at a place. -/
def at? (t : FileTree) (place : Place) : Option FileEntry :=
  if place = [] ∨ place = beyond then some .directory
  else (t.entries.find? (·.1 = place)).map (·.2)

/-- Add a file or a directory, with the directories on its way. -/
def add (t : FileTree) (path : String) (e : FileEntry) : FileTree :=
  match passed [] (Path.names path) with
  | [] => t
  | place :: directories =>
      { entries := (place, e) :: directories.map (·, .directory) ++ t.entries }

/-- A name may have at most this many bytes. -/
def longestName : Nat := 255

/-- A path may have at most this many bytes. -/
def longestPath : Nat := 4095

/-- Go from a directory to what a part of a path names. -/
def enter (t : FileTree) (place : Place) (part : List Char) :
    Except FileError Place :=
  match t.at? place with
  | none => .error .notFound
  | some (.file _) => .error .notADirectory
  | some .directory =>
      if part = [] ∨ part = ['.'] then .ok place
      else if part = ['.', '.'] then .ok (above place)
      else if longestName < (String.ofList part).utf8ByteSize then
        .error .invalidName
      else if (t.at? (place ++ [part])).isSome then .ok (place ++ [part])
      else .error .notFound

/-- Follow the parts of a path. -/
def follow (t : FileTree) : Place → List (List Char) → Except FileError Place
  | place, [] => .ok place
  | place, part :: rest =>
      match t.enter place part with
      | .error e => .error e
      | .ok next => t.follow next rest

theorem follow_append (t : FileTree) (place : Place) (p q : List (List Char)) :
    t.follow place (p ++ q) =
      match t.follow place p with
      | .error e => .error e
      | .ok next => t.follow next q := by
  induction p generalizing place with
  | nil => rfl
  | cons part p ih =>
      simp only [List.cons_append, follow]
      cases t.enter place part with
      | error e => rfl
      | ok next => exact ih next

/-- What a path leads to. -/
def resolve (t : FileTree) (path : String) : Except FileError FileEntry :=
  if path.toList.contains '\x00' then .error .invalidInput
  else if path = "" then .error .notFound
  else if longestPath < path.utf8ByteSize then .error .invalidName
  else
    match t.follow (if Path.isAbsolute path then beyond else [])
        (Path.parts path.toList) with
    | .error e => .error e
    | .ok place =>
        match t.at? place with
        | some e => .ok e
        | none => .error .notFound

/-- Whether a path leads to something. -/
def contains (t : FileTree) (path : String) : Bool :=
  match t.resolve path with
  | .ok _ => true
  | .error _ => false

/-- The text of a file. -/
def readText (t : FileTree) (path : String) : Except FileError String :=
  match t.resolve path with
  | .error e => .error e
  | .ok .directory => .error .isADirectory
  | .ok (.file content) =>
      match String.fromUTF8? content with
      | some s => .ok s
      | none => .error .invalidData

end FileTree

end Linkage
