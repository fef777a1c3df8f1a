import Linkage.Entity.Table

/-!
# Components

What is known of an entity is kept in five tables: whether it is a model or a
link, its name, its parent, and the joint it stands for. The tables are
independent; dropping an entity drops its handle from all five.

## Main results

* `Components.removeEntity_models`, `Components.removeEntity_links`,
  `Components.removeEntity_names`, `Components.removeEntity_parents` and
  `Components.removeEntity_joints`: after a removal the table answers as before
  at every other handle and not at all at the removed one.
-/

namespace Linkage

/-- A joint between two links. -/
structure Joint where
  parentLink : Entity
  childLink : Entity
  kind : String
  deriving DecidableEq, Repr

namespace Joint

/-- The kind of a joint that allows no motion. -/
def fixedKind : String := "fixed"

/-- The joint that holds two links rigidly together. -/
def fixed (parentLink childLink : Entity) : Joint :=
  ⟨parentLink, childLink, fixedKind⟩

end Joint

/-- The component tables. -/
structure Components where
  models : Table Unit := {}
  links : Table Unit := {}
  names : Table String := {}
  parents : Table Entity := {}
  joints : Table Joint := {}
  deriving DecidableEq

namespace Components

/-- Drop an entity from every table. -/
def removeEntity (c : Components) (e : Entity) : Components :=
  { models := c.models.erase e
    links := c.links.erase e
    names := c.names.erase e
    parents := c.parents.erase e
    joints := c.joints.erase e }

theorem removeEntity_models (c : Components) (e f : Entity) :
    (c.removeEntity e).models.get? f = if f = e then none
    else c.models.get? f :=
  Table.get?_erase _ _ _

theorem removeEntity_links (c : Components) (e f : Entity) :
    (c.removeEntity e).links.get? f = if f = e then none else c.links.get? f :=
  Table.get?_erase _ _ _

theorem removeEntity_names (c : Components) (e f : Entity) :
    (c.removeEntity e).names.get? f = if f = e then none else c.names.get? f :=
  Table.get?_erase _ _ _

theorem removeEntity_parents (c : Components) (e f : Entity) :
    (c.removeEntity e).parents.get? f = if f = e then none
    else c.parents.get? f :=
  Table.get?_erase _ _ _

theorem removeEntity_joints (c : Components) (e f : Entity) :
    (c.removeEntity e).joints.get? f = if f = e then none
    else c.joints.get? f :=
  Table.get?_erase _ _ _

end Components

end Linkage
