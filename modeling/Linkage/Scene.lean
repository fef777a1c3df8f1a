import Linkage.Element
import Linkage.Store.Query

/-!
# Scenes

A scene declares models; each names its links and the plugins to configure on
it. Parameters of a plugin may be written as truth values, numbers or texts and
become text when the plugin is turned into an element.

Names decide whether a scene can be spawned: a model's name must be free among
the live models of the store and the earlier models of the scene, and the links
of a model must have different names. The model's own name is looked at before
its links.

## Main results

* `ModelDecl.toElement_children`: one child per plugin, in declared order.
-/

namespace Linkage

/-- A plugin to configure on a model. -/
structure PluginDecl where
  name : String
  params : SortedMap String Scalar := .empty
  deriving DecidableEq

/-- A model with its links and plugins. -/
structure ModelDecl where
  name : String
  links : List String := []
  plugins : List PluginDecl := []
  deriving DecidableEq

/-- The models of a scene file. -/
structure Scene where
  models : List ModelDecl := []
  deriving DecidableEq

namespace PluginDecl

/-- The element that configures a plugin: its name, overwritten by a parameter
of that key, and its parameters as text. -/
def toElement (p : PluginDecl) : Element :=
  p.params.entries.foldl (fun e param => e.withParam param.1 param.2)
    (({ name := "plugin" } : Element).withParam "name" (.text p.name))

end PluginDecl

namespace ModelDecl

/-- The element that describes a model: its name, and a child per plugin. -/
def toElement (m : ModelDecl) : Element :=
  m.plugins.foldl (fun e p => e.withChild p.toElement)
    (({ name := "model" } : Element).withParam "name" (.text m.name))

/-- Plugins change nothing of an element but its children. -/
theorem foldl_withChild (plugins : List PluginDecl) (e : Element) :
    plugins.foldl (fun e p => e.withChild p.toElement) e =
      { e with children :=
                 e.children ++ plugins.map PluginDecl.toElement } := by
  induction plugins generalizing e with
  | nil => cases e; simp
  | cons p plugins ih => rw [List.foldl_cons, ih]; simp [Element.withChild]

theorem toElement_children (m : ModelDecl) :
    m.toElement.children = m.plugins.map PluginDecl.toElement := by
  simp [toElement, foldl_withChild, Element.withParam]

end ModelDecl

/-- A plugin that waits to be configured on a spawned model. -/
structure PendingPlugin where
  model : Entity
  element : Element
  deriving DecidableEq

/-- A name that is taken. -/
inductive DuplicateName
  | model (name : String)
  | link (name : String)
  deriving DecidableEq, Repr

/-- The message that reports the name. -/
def DuplicateName.message : DuplicateName → String
  | .model name => s!"duplicate model name '{name}'"
  | .link name => s!"duplicate link name '{name}'"

namespace Scene

/-- The first name that repeats an earlier one. -/
def firstRepeated (seen : List String) : List String → Option String
  | [] => none
  | name :: rest =>
      if seen.contains name then some name else
        firstRepeated (name :: seen) rest

/-- The first name that is taken, going through the models in order. -/
def firstDuplicate (s : Store) (seen : List String) :
    List ModelDecl → Option DuplicateName
  | [] => none
  | m :: rest =>
      if (s.first? (Store.modelNamed m.name)).isSome ||
          seen.contains m.name then
        some (.model m.name)
      else
        match firstRepeated [] m.links with
        | some name => some (.link name)
        | none => firstDuplicate s (m.name :: seen) rest

/-- Whether every name of a scene is free in a store. -/
def check (scene : Scene) (s : Store) : Except DuplicateName Unit :=
  match firstDuplicate s [] scene.models with
  | some name => .error name
  | none => .ok ()

end Scene

end Linkage
