import Linkage.Scalar

/-!
# Dialects

The three file formats write the same data differently: what counts as a record
or a list, whether a record may be given by position, which spellings of numbers
there are. A dialect states how the documents of one format are looked at. Each
view answers for one document node, and fails where the node is not of that
shape.
-/

namespace Linkage

/-- The fields of a record as a document gives them. -/
inductive Fields (ν : Type)
  | named (entries : List (String × ν))
  | positional (items : List ν)

/-- How the documents of a format are looked at. -/
structure Dialect (ν : Type) where
  /-- The fields of a record of a type name. -/
  record : String → ν → Option (Fields ν)
  /-- The items of a list. -/
  sequence : ν → Option (List ν)
  /-- The entries of a table with free keys. -/
  dictionary : ν → Option (List (String × ν))
  /-- A text. -/
  text : ν → Option String
  /-- A natural number. -/
  natural : ν → Option Nat
  /-- A truth value, number or text. -/
  scalar : ν → Option Scalar
  /-- Whether a node stands for the only value of a type name. -/
  isUnit : String → ν → Bool
  /-- Whether a record given by position may have no items beyond its fields. -/
  refusesExtraItems : Bool

namespace Fields

variable {ν : Type}

/-- The node of a field, by its name or its position. -/
def field? (f : Fields ν) (position : Nat) (name : String) : Option ν :=
  match f with
  | .named entries => (entries.find? (·.1 = name)).map (·.2)
  | .positional items => items[position]?

/-- Whether no known field is given twice, and no item is beyond the known
fields. -/
def wellFormed (f : Fields ν) (refusesExtraItems : Bool)
    (known : List String) : Bool :=
  match f with
  | .named entries =>
      known.all fun name => (entries.filter (·.1 = name)).length ≤ 1
  | .positional items => !refusesExtraItems || items.length ≤ known.length

/-- Whether every field is a known one. -/
def onlyKnown (f : Fields ν) (known : List String) : Bool :=
  match f with
  | .named entries => entries.all fun e => known.contains e.1
  | .positional _ => true

end Fields

end Linkage
