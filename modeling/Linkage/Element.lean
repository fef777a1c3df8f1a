import Linkage.Scalar
import Linkage.SortedMap
import Linkage.Text.Blank

/-!
# Configuration elements

An element is a named node of a declarative configuration: parameters kept as
text under unique keys, and child elements. Parameters are read by type when
they are asked for, after trimming white space, so an element does not depend
on the file format it came from.

## Main results

* `Element.text?_withParam`: the last value written under a key is the one kept.
* `Element.read_eq_none_iff`: reading finds nothing exactly when the key is
  absent.
-/

namespace Linkage

/-- A node of a configuration. -/
structure Element where
  name : String
  params : SortedMap String String := .empty
  children : List Element := []

/-- A parameter whose text cannot be read as the type asked for. -/
structure UnreadableParameter where
  element : String
  key : String
  value : String
  deriving DecidableEq, Repr

/-- The message that reports the parameter. -/
def UnreadableParameter.message (e : UnreadableParameter) : String :=
  s!"parameter '{e.key}' of <{e.element}> could not be parsed from '{e.value}'"

namespace Element

mutual

/-- Whether two elements have equal names, parameters and children. -/
def same : Element → Element → Bool
  | ⟨n, p, c⟩, ⟨m, q, d⟩ => n = m && p = q && sameList c d

/-- Whether two lists of elements are equal item by item. -/
def sameList : List Element → List Element → Bool
  | [], [] => true
  | a :: as, b :: bs => same a b && sameList as bs
  | _, _ => false

end

mutual

theorem same_iff : ∀ a b : Element, same a b = true ↔ a = b
  | ⟨n, p, c⟩, ⟨m, q, d⟩ => by
      simp only [same, Bool.and_eq_true, decide_eq_true_eq, sameList_iff c d,
        Element.mk.injEq, and_assoc]

theorem sameList_iff : ∀ a b : List Element, sameList a b = true ↔ a = b
  | [], [] => by simp [sameList]
  | [], _ :: _ => by simp [sameList]
  | _ :: _, [] => by simp [sameList]
  | a :: as, b :: bs => by
      simp only [sameList, Bool.and_eq_true, same_iff a b, sameList_iff as bs,
        List.cons.injEq]

end

instance : DecidableEq Element := fun a b => decidable_of_iff _ (same_iff a b)

instance : Inhabited Element := ⟨{ name := "" }⟩

/-- Write a parameter, replacing an earlier value under the same key. -/
def withParam (e : Element) (key : String) (value : Scalar) : Element :=
  { e with params := e.params.insert key value.display }

/-- Append a child. -/
def withChild (e : Element) (child : Element) : Element :=
  { e with children := e.children ++ [child] }

/-- Whether a parameter is present. -/
def has (e : Element) (key : String) : Bool := e.params.contains key

/-- The text of a parameter as it was written. -/
def text? (e : Element) (key : String) : Option String := e.params.get? key

/-- A parameter read from its trimmed text, or nothing if it is absent. -/
def read {α : Type} (reader : List Char → Option α) (e : Element)
    (key : String) :
    Except UnreadableParameter (Option α) :=
  match e.text? key with
  | none => .ok none
  | some raw =>
      match reader (Text.trim raw.toList) with
      | some a => .ok (some a)
      | none => .error ⟨e.name, key, raw⟩

/-- A parameter read from its trimmed text, or a default if it is absent. -/
def readOr {α : Type} (reader : List Char → Option α) (e : Element)
    (key : String) (default : α) :
    Except UnreadableParameter α :=
  (e.read reader key).map fun found => found.getD default

/-- A parameter read as a type. -/
def get (e : Element) (key : String) (type : ScalarType) :
    Except UnreadableParameter (Option Scalar) :=
  e.read type.read? key

/-- A parameter read as a type, or a default if it is absent. -/
def getOr (e : Element) (key : String) (type : ScalarType) (default : Scalar) :
    Except UnreadableParameter Scalar :=
  e.readOr type.read? key default

/-- The trimmed text of a parameter. -/
def trimmed? (e : Element) (key : String) : Option String :=
  (e.text? key).map fun raw => String.ofList (Text.trim raw.toList)

/-- Children of a name, in order. -/
def childrenNamed (e : Element) (name : String) : List Element :=
  e.children.filter (·.name = name)

/-- A write is seen at its own key only. -/
theorem text?_withParam (e : Element) (key other : String) (value : Scalar) :
    (e.withParam key value).text? other =
      if other = key then some value.display else e.text? other :=
  SortedMap.get?_insert _ _ _ _

theorem read_eq_none_iff {α : Type} (reader : List Char → Option α)
    (e : Element) (key : String) :
    e.read reader key = .ok none ↔ e.text? key = none := by
  unfold read
  split
  · next h => simp [h]
  · next raw h =>
    constructor
    · intro hr; split at hr <;> cases hr
    · intro hn; rw [h] at hn; cases hn

end Element

end Linkage
