import Linkage.Entity.Pool
import Linkage.Store.Components

/-!
# The entity store

The store holds the live entities of a scene and their components. A component
can only be attached to a live entity. Entities are removed in two phases: a
removal is requested, and all requested removals are applied together, so an
entity stays visible for the rest of the phase in which its removal was asked
for.

Every creation, attachment and accepted removal request raises the revision by
one; applying removals does not. A step with an unchanged revision has therefore
done no more to the store than apply removals asked for before it.

## Main results

* `Store.applyRemovals_pending`: nothing is pending after removals are applied.
* `Store.attach_of_not_live`: attaching to a dead handle changes nothing.
* `Store.withEntities_succ`: a store of many entities is made by creating them
  one by one.
-/

namespace Linkage

/-- Entities, their components, and the removals asked for but not yet
applied. -/
structure Store where
  pool : Pool := {}
  components : Components := {}
  pending : List Entity := []
  revision : Nat := 0
  deriving DecidableEq

instance : Inhabited Store := ⟨{}⟩

namespace Store

/-- Whether an entity is live. -/
def has (s : Store) (e : Entity) : Bool := s.pool.isLive e

/-- How many entities are live. -/
def size (s : Store) : Nat := s.pool.count

/-- Add an entity without components. -/
def create (s : Store) : Entity × Store :=
  let issued := s.pool.create
  (issued.1, { s with pool := issued.2, revision := s.revision + 1 })

/-- A new store in which a number of entities without components were
created. -/
def withEntities (n : Nat) : Store :=
  { pool := { slots := List.replicate n ⟨0, true⟩ }, revision := n }

theorem withEntities_succ (n : Nat) :
    withEntities (n + 1) = (withEntities n).create.2 := by
  simp [withEntities, create, Pool.create, List.replicate_succ']

/-- Change the components if an entity is live. -/
def attach (s : Store) (e : Entity)
    (change : Components → Components) : Store :=
  if s.has e then { s with components := change s.components,
                           revision := s.revision + 1 } else s

theorem attach_of_not_live {s : Store} {e : Entity} (h : s.has e = false)
    (change : Components → Components) : s.attach e change = s := by
  simp [attach, h]

/-- Mark an entity as a model. -/
def addModel (s : Store) (e : Entity) : Store :=
  s.attach e fun c => { c with models := c.models.insert e () }

/-- Mark an entity as a link. -/
def addLink (s : Store) (e : Entity) : Store :=
  s.attach e fun c => { c with links := c.links.insert e () }

/-- Name an entity. -/
def setName (s : Store) (e : Entity) (name : String) : Store :=
  s.attach e fun c => { c with names := c.names.insert e name }

/-- Set the parent of an entity; the parent need not be live. -/
def setParent (s : Store) (e parent : Entity) : Store :=
  s.attach e fun c => { c with parents := c.parents.insert e parent }

/-- Make an entity stand for a joint. -/
def setJoint (s : Store) (e : Entity) (joint : Joint) : Store :=
  s.attach e fun c => { c with joints := c.joints.insert e joint }

/-- Whether an entity is a model. -/
def isModel (s : Store) (e : Entity) : Bool := s.components.models.contains e

/-- Whether an entity is a link. -/
def isLink (s : Store) (e : Entity) : Bool := s.components.links.contains e

/-- The name of an entity. -/
def name? (s : Store) (e : Entity) : Option String := s.components.names.get? e

/-- The parent of an entity. -/
def parent? (s : Store) (e : Entity) : Option Entity :=
  s.components.parents.get? e

/-- The joint an entity stands for. -/
def joint? (s : Store) (e : Entity) : Option Joint := s.components.joints.get? e

/-- Entities that stand for joints, in slot order. -/
def joints (s : Store) : List (Entity × Joint) := s.components.joints.toList

/-- Ask for the removal of a live entity; asking again changes nothing. -/
def requestRemoval (s : Store) (e : Entity) : Store :=
  if s.has e && !s.pending.contains e then
    { s with pending := s.pending ++ [e], revision := s.revision + 1 }
  else s

/-- Whether the removal of an entity has been asked for and not applied. -/
def isPending (s : Store) (e : Entity) : Bool := s.pending.contains e

/-- Drop an entity and its components. -/
def drop (s : Store) (e : Entity) : Store :=
  { s with components := s.components.removeEntity e, pool := s.pool.release e }

/-- Apply every removal asked for, in the order of the requests. -/
def applyRemovals (s : Store) : List Entity × Store :=
  (s.pending, { s.pending.foldl drop s with pending := [] })

@[simp] theorem applyRemovals_pending (s : Store) :
    s.applyRemovals.2.pending = [] := rfl

@[simp] theorem applyRemovals_fst (s : Store) :
    s.applyRemovals.1 = s.pending := rfl

/-- Add a model with a name. -/
def spawnModel (s : Store) (name : String) : Entity × Store :=
  let made := s.create
  (made.1, (made.2.addModel made.1).setName made.1 name)

/-- Add a link with a name and the entity it belongs to. -/
def spawnLink (s : Store) (model : Entity) (name : String) : Entity × Store :=
  let made := s.create
  (made.1, ((made.2.addLink made.1).setName made.1 name).setParent made.1 model)

/-- Add links of one model, in order. -/
def spawnLinks (s : Store) (model : Entity) : List String → List Entity × Store
  | [] => ([], s)
  | name :: rest =>
      let made := s.spawnLink model name
      let others := made.2.spawnLinks model rest
      (made.1 :: others.1, others.2)

/-- Add a model and its links. -/
def spawnModelWithLinks (s : Store) (name : String) (links : List String) :
    Entity × List Entity × Store :=
  let model := s.spawnModel name
  let made := model.2.spawnLinks model.1 links
  (model.1, made.1, made.2)

end Store

end Linkage
