import Linkage.Clock
import Linkage.Format.Dialect
import Linkage.Number.Powers
import Linkage.Scene

/-!
# Schemas

A schema reads a value of the library out of a document, through the views of a
dialect. A record has named fields; unknown ones are ignored, a known one given
twice is an error, and one that is missing takes its default if it has one.

Opening a container uses up one unit of a budget. It bounds the recursion over
nested elements, and in a format that limits nesting it is that limit.

## Main results

* `Schema.list_of_sequence`: a list is read item by item.
-/

namespace Linkage

/-- A way to read a value out of a document of any format. -/
abbrev Schema (α : Type) := (ν : Type) → Dialect ν → Nat → ν → Option α

/-- The only value of a marker component. -/
inductive Marker
  | marker
  deriving DecidableEq, Repr

namespace Schema

variable {α : Type}

/-- A text. -/
def text : Schema String := fun _ d _ v => d.text v

/-- A natural number below a bound. -/
def natural (bound : Nat) : Schema Nat :=
  fun _ d _ v => (d.natural v).filter (· < bound)

/-- A truth value, number or text. -/
def scalar : Schema Scalar := fun _ d _ v => d.scalar v

/-- A list of values. -/
def list (item : Schema α) : Schema (List α) := fun ν d budget v =>
  match budget with
  | 0 => none
  | rest + 1 => (d.sequence v).bind fun items => items.mapM (item ν d rest)

/-- A table of values, the last entry of a key winning. -/
def table (item : Schema α) : Schema (SortedMap String α) := fun ν d budget v =>
  match budget with
  | 0 => none
  | rest + 1 => do
      let entries ← d.dictionary v
      let values ← entries.mapM fun e =>
          (item ν d rest e.2).map fun a => (e.1, a)
      return SortedMap.ofList values

/-- The fields of a record with known field names, and the budget left inside
it. -/
def fields {ν : Type} (d : Dialect ν) (budget : Nat) (type : String)
    (known : List String) (v : ν) : Option (Fields ν × Nat) :=
  match budget with
  | 0 => none
  | rest + 1 => do
      let f ← d.record type v
      if f.wellFormed d.refusesExtraItems known then
        return (f, rest) else failure

/-- A field that has to be there. -/
def required (item : Schema α) {ν : Type} (d : Dialect ν)
    (opened : Fields ν × Nat) (position : Nat) (name : String) : Option α := do
  item ν d opened.2 (← opened.1.field? position name)

/-- A field with a default. -/
def optional (item : Schema α) (default : α) {ν : Type} (d : Dialect ν)
    (opened : Fields ν × Nat) (position : Nat) (name : String) : Option α :=
  match opened.1.field? position name with
  | none => some default
  | some v => item ν d opened.2 v

/-- A plugin of a scene. -/
def plugin : Schema PluginDecl := fun _ d budget v => do
  let f ← fields d budget "PluginData" ["name", "params"] v
  return {
    name := ← required text d f 0 "name"
    params := ← optional (table scalar) .empty d f 1 "params" }

/-- A model of a scene. -/
def model : Schema ModelDecl := fun _ d budget v => do
  let f ← fields d budget "ModelData" ["name", "links", "plugins"] v
  return {
    name := ← required text d f 0 "name"
    links := ← optional (list text) [] d f 1 "links"
    plugins := ← optional (list plugin) [] d f 2 "plugins" }

/-- A scene. -/
def scene : Schema Scene := fun _ d budget v => do
  let f ← fields d budget "SceneData" ["models"] v
  return { models := ← optional (list model) [] d f 0 "models" }

/-- The fields of an element whose children are read by another schema. -/
def elementWith (children : Schema (List Element)) : Schema Element :=
  fun _ d budget v => do
  let f ← fields d budget "Element" ["name", "params", "children"] v
  return {
    name := ← required text d f 0 "name"
    params := ← optional (table text) .empty d f 1 "params"
    children := ← optional children [] d f 2 "children" }

/-- An element nested at most to a depth. -/
def elementWithin : Nat → Schema Element
  | 0 => fun _ _ _ _ => none
  | depth + 1 => elementWith (list (elementWithin depth))

/-- An element. Each level of nesting opens containers, so the budget bounds the
depth. -/
def element : Schema Element :=
  fun ν d budget v => elementWithin (budget + 1) ν d budget v

/-- A duration, given in seconds and nanoseconds. Unlike in other records, an
unknown field is an error. -/
def duration : Schema Duration := fun _ d budget v => do
  let known := ["secs", "nanos"]
  let f ← fields d budget "Duration" known v
  if !f.1.onlyKnown known then failure
  let seconds ← required (natural (twoTo 64)) d f 0 "secs"
  let nanoseconds ← required (natural (twoTo 32)) d f 1 "nanos"
  Duration.ofParts? seconds nanoseconds

/-- What a system is told about a step. -/
def stepInfo : Schema StepInfo := fun _ d budget v => do
  let f ← fields d budget "UpdateInfo" ["iterations", "sim_time", "dt"] v
  return {
    iterations := ← required (natural (twoTo 64)) d f 0 "iterations"
    simTime := ← required duration d f 1 "sim_time"
    dt := ← required duration d f 2 "dt" }

/-- A handle, given by index and version; an even version is taken as the odd
one above it, and the largest index has no generations. -/
def entity : Schema Entity := fun _ d budget v => do
  let f ← fields d budget "SerKey" ["idx", "version"] v
  let index ← required (natural Entity.indexBound) d f 0 "idx"
  let version ← required (natural (twoTo 32)) d f 1 "version"
  return if index = Entity.null.index then .null else ⟨index, version / 2⟩

/-- A joint between two links. -/
def joint : Schema Joint := fun _ d budget v => do
  let f ← fields d budget "DetachableJointComponent" ["parent_link",
      "child_link", "joint_type"] v
  return {
    parentLink := ← required entity d f 0 "parent_link"
    childLink := ← required entity d f 1 "child_link"
    kind := ← required text d f 2 "joint_type" }

/-- The value of a marker component of a type name. -/
def marker (type : String) : Schema Marker := fun _ d _ v =>
  if d.isUnit type v then some .marker else none

theorem list_of_sequence (item : Schema α) {ν : Type} (d : Dialect ν)
    (budget : Nat) {v : ν} {items : List ν} (h : d.sequence v = some items) :
    list item ν d (budget + 1) v = items.mapM (item ν d budget) := by
  simp [list, h]

end Schema

end Linkage
