import Linkage.Store

/-!
# Queries

A query is a set of predicates on components; it selects the live entities
that satisfy all of them, in slot order.

A model is looked at through its entity: it is valid while the entity is live
and carries the model component, and its links are the links whose parent it
is.

## Main results

* `Store.mem_select_iff`: exactly the live matching entities are selected.
* `Store.select_sorted`: they come in strictly increasing slot order.
-/

namespace Linkage

/-- Predicates on components; the empty query selects every live entity. -/
structure Query where
  model : Bool := false
  link : Bool := false
  name : Option String := none
  parent : Option Entity := none
  deriving DecidableEq, Repr

namespace Store

/-- Whether the components of an entity satisfy a query. -/
def satisfies (s : Store) (q : Query) (e : Entity) : Bool :=
  (!q.model || s.isModel e) && (!q.link || s.isLink e) &&
    (match q.name with
      | some n => s.name? e = some n
      | none => true) &&
    (match q.parent with
      | some p => s.parent? e = some p
      | none => true)

/-- The live entities that satisfy a query, in slot order. -/
def select (s : Store) (q : Query) : List Entity :=
  s.pool.live.filter (s.satisfies q)

/-- The first entity that satisfies a query. -/
def first? (s : Store) (q : Query) : Option Entity := (s.select q).head?

theorem mem_select_iff (s : Store) (q : Query) (e : Entity) :
    e ∈ s.select q ↔ s.has e = true ∧ s.satisfies q e = true := by
  simp [select, has, Pool.mem_live_iff]

theorem select_sorted (s : Store) (q : Query) :
    (s.select q).Pairwise fun a b => a.index < b.index :=
  s.pool.live_sorted.filter _

/-- The query for the model of a name. -/
def modelNamed (name : String) : Query := { model := true, name := some name }

/-- The query for the links of a model. -/
def linksOf (model : Entity) : Query := { link := true, parent := some model }

/-- The query for the links of a model with a name. -/
def linksNamed (model : Entity) (name : String) : Query :=
  { link := true, parent := some model, name := some name }

/-- Whether an entity is a live model. -/
def isValidModel (s : Store) (e : Entity) : Bool := s.has e && s.isModel e

/-- The name of an entity, empty if it has none. -/
def nameOrEmpty (s : Store) (e : Entity) : String := (s.name? e).getD ""

/-- The first link of a model with a name. -/
def linkNamed? (s : Store) (model : Entity) (name : String) : Option Entity :=
  s.first? (linksNamed model name)

/-- How many links a model has. -/
def linkCount (s : Store) (model : Entity) : Nat :=
  (s.select (linksOf model)).length

end Store

end Linkage
