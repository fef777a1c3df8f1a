import Linkage.Store.Components

/-!
# Calls on component tables

The component tables can be used on their own, with any handles, live or not. A
write answers with the value it replaces, which is the one written under the
very same handle.

## Main results

* `Components.call_look`: looking changes nothing.
-/

namespace Linkage

/-- A call on component tables. -/
inductive ComponentCall
  | model (e : Entity)
  | link (e : Entity)
  | name (e : Entity) (name : String)
  | parent (e other : Entity)
  | joint (e other : Entity)
  | remove (e : Entity)
  | look (e : Entity)

/-- The answer to a call. -/
inductive ComponentAnswer
  | replaced (b : Bool)
  | replacedName (name : Option String)
  | replacedParent (parent : Option Entity)
  | replacedJoint (joint : Option Joint)
  | removed
  | seen (isModel isLink : Bool) (name : Option String) (parent : Option Entity)
      (joint : Option Joint)

namespace Components

/-- Answer a call. -/
def call (c : Components) : ComponentCall → ComponentAnswer × Components
  | .model e =>
      (.replaced (c.models.replacedBy e).isSome,
        { c with models := c.models.insert e () })
  | .link e =>
      (.replaced (c.links.replacedBy e).isSome,
        { c with links := c.links.insert e () })
  | .name e name =>
      (.replacedName (c.names.replacedBy e),
        { c with names := c.names.insert e name })
  | .parent e other =>
      (.replacedParent (c.parents.replacedBy e),
        { c with parents := c.parents.insert e other })
  | .joint e other =>
      (.replacedJoint (c.joints.replacedBy e),
        { c with joints := c.joints.insert e (Joint.fixed e other) })
  | .remove e => (.removed, c.removeEntity e)
  | .look e =>
      (.seen (c.models.contains e) (c.links.contains e) (c.names.get? e)
        (c.parents.get? e) (c.joints.get? e), c)

/-- The handles with a value in each table, in slot order. -/
def handles (c : Components) : List (List Entity) :=
  [c.models.keys, c.links.keys, c.names.keys, c.parents.keys, c.joints.keys]

/-- The answers to calls made one after the other, each with the handles that
have values then. -/
def callAll (c : Components) :
    List ComponentCall → List (ComponentAnswer × List (List Entity))
  | [] => []
  | call :: rest =>
      let done := c.call call
      (done.1, done.2.handles) :: done.2.callAll rest

theorem call_look (c : Components) (e : Entity) :
    (c.call (.look e)).2 = c := rfl

end Components

end Linkage
