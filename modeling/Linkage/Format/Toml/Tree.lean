import Linkage.Scalar

/-!
# Trees of TOML tables

A document is built by writing values under dotted keys and by opening tables
and lists of tables under headers. What may still be added to a table depends on
how it came about: a table that a header opened is complete once the next header
comes, one that a dotted key made may be extended by dotted keys only, one that
a longer header implied may still be opened once, and an inline table is closed
as soon as it is written.

## Main results

* `Tree.put_nil_dotted`: a value is never written directly into a table that
  dotted keys made.
-/

namespace Linkage

namespace Toml

/-- How a table came about. -/
structure Origin where
  implied : Bool := false
  dotted : Bool := false
  inlined : Bool := false
  deriving DecidableEq, Repr

/-- A value, a table, or a list of tables made by headers. -/
inductive Tree
  | scalar (s : Scalar)
  | moment (text : String)
  | array (items : List Tree)
  | table (origin : Origin) (entries : List (String × Tree))
  | tables (elements : List Tree)
  deriving Inhabited

namespace Tree

/-- A table that was opened and is empty. -/
def opened : Tree := .table {} []

/-- The value of a key. -/
def find? (key : String) (entries : List (String × Tree)) : Option Tree :=
  (entries.find? (·.1 = key)).map (·.2)

/-- Give a key a value, in its place if it has one. -/
def store (key : String) (value : Tree) :
    List (String × Tree) → List (String × Tree)
  | [] => [(key, value)]
  | e :: rest =>
      if e.1 = key then (key, value) :: rest else e :: store key value rest

/-- Change the table at a path. Tables on the way are made if they are missing,
a list of tables stands for its last element, and dotted keys pass only through
tables that were never opened. -/
def within (created : Origin)
    (change : Origin → List (String × Tree) → Option Tree) :
    List String → Tree → Option Tree
  | [], .table origin entries => change origin entries
  | key :: path, .table origin entries => do
      let child := (find? key entries).getD (.table created [])
      let changed ← match child with
        | .table o _ =>
            if o.inlined ≠ created.inlined ∨ (created.dotted ∧ ¬ o.implied)
              then none
            else within created change path child
        | .tables elements => do
            let last ← elements.getLast?
            pure (.tables
              (elements.dropLast ++ [← within created change path last]))
        | _ => none
      return .table origin (store key changed entries)
  | _, _ => none

/-- Write a value under a key of a table that a dotted path leads to. -/
def put (table : Tree) (inlined : Bool) (path : List String) (key : String)
    (value : Tree) :
    Option Tree :=
  within { implied := true, dotted := true, inlined } (fun origin entries =>
    if origin.dotted = path.isEmpty ∨ (find? key entries).isSome then none
    else some (.table origin (entries ++ [(key, value)]))) path table

/-- How a header makes the tables on its way. -/
def implied : Origin := { implied := true }

/-- Write a value under a dotted key in the table of a header. -/
def assign (root : Tree) (header path : List String) (key : String)
    (value : Tree) :
    Option Tree :=
  within implied (fun origin entries =>
    put (.table origin entries) false path key value) header root

/-- Open the table of a header with a last key. -/
def openTable (root : Tree) (path : List String) (key : String) : Option Tree :=
  within implied (fun origin entries =>
    match find? key entries with
    | none => some (.table origin (entries ++ [(key, opened)]))
    | some (.table o inner) =>
        if o.implied && !o.dotted && !o.inlined then
          some (.table origin
            (store key (.table { o with implied := false } inner) entries))
        else none
    | some _ => none) path root

/-- Add an element to the list of tables of a header with a last key. -/
def openElement (root : Tree) (path : List String) (key : String) :
    Option Tree :=
  within implied (fun origin entries =>
    match find? key entries with
    | none => some (.table origin (entries ++ [(key, .tables [opened])]))
    | some (.tables elements) =>
        some (.table origin
          (store key (.tables (elements ++ [opened])) entries))
    | some _ => none) path root

theorem put_nil_dotted (inlined : Bool) (key : String) (value : Tree)
    {origin : Origin} (h : origin.dotted = true)
    (entries : List (String × Tree)) :
    put (.table origin entries) inlined [] key value = none := by
  simp [put, within, h]

end Tree

end Toml

end Linkage
