import Linkage.Proofs.Joint.SceneJoints
import Linkage.Proofs.Scene.Spawned
import Mathlib.Data.List.Forall2

/-!
# What the elements of a scene say

A model is described by an element with a child for each of its plugins, and a
plugin by its name and its parameters, all of them texts under one set of keys.
The name is written first and the parameters after it, so a parameter that is
called `name` takes the place of the name: such a plugin is known by the text of
that parameter. Every other plugin is known by its own name, in the element that
is announced for its model and in the element that waits to be configured.

## Main results

* `PluginDecl.describes_toElement`: what the element of a plugin says.
* `ModelDecl.describes_toElement`: what the element of a model says.
* `filterMap_loaded?_signals`: the elements that are announced while a scene is
  spawned.
* `described_of_spawnScene`: what a scene that is spawned announces and returns.
-/

namespace Linkage

open Act World

namespace PluginDecl

/-- No parameter takes the place of the name: none is called so, or it has the
same text. -/
def KeepsName (d : PluginDecl) : Prop := ∀ text ∈ d.text? "name", text = d.name

instance (d : PluginDecl) : Decidable d.KeepsName :=
  inferInstanceAs (Decidable (∀ text ∈ d.text? "name", text = d.name))

/-- An element says what is declared for a plugin, and whether it says its
name. -/
structure Describes (d : PluginDecl) (e : Element) : Prop where
  kind : e.name = "plugin"
  childless : e.children = []
  parameters : ∀ key, key ≠ "name" →
    e.text? key = (d.params.get? key).map Scalar.display
  named_iff : e.text? "name" = some d.name ↔ d.KeepsName

variable {d : PluginDecl}

theorem children_toElement (d : PluginDecl) : d.toElement.children = [] := by
  have hfold : ∀ (params : List (String × Scalar)) (e : Element),
      (params.foldl (fun e param => e.withParam param.1 param.2) e).children =
        e.children := by
    intro params
    induction params with
    | nil => exact fun _ => rfl
    | cons param params ih => exact fun e => ih _
  exact hfold _ _

/-- The name of a plugin gives way to a parameter that is called so. -/
theorem text?_name_toElement (d : PluginDecl) :
    d.toElement.text? "name" = (d.text? "name").or (some d.name) := by
  have hname :
      (({ name := "plugin" } : Element).withParam "name" (.text d.name)).text?
        "name" =
      some d.name := by
    rw [Element.text?_withParam, if_pos rfl]
    rfl
  unfold toElement
  rw [text?_foldl d.params.sorted, hname]
  rfl

theorem text?_name_eq_some_iff (d : PluginDecl) :
    d.toElement.text? "name" = some d.name ↔ d.KeepsName := by
  rw [text?_name_toElement]
  unfold KeepsName
  cases d.text? "name" <;> simp

theorem describes_toElement (d : PluginDecl) : d.Describes d.toElement where
  kind := d.name_toElement
  childless := d.children_toElement
  parameters _ hkey := d.text?_toElement hkey
  named_iff := d.text?_name_eq_some_iff

end PluginDecl

namespace ModelDecl

/-- An element says the name of a model and nothing else, and has a child for
each plugin, in the order in which they are declared. -/
structure Describes (m : ModelDecl) (e : Element) : Prop where
  kind : e.name = "model"
  parameters : ∀ key, e.text? key = if key = "name" then some m.name else none
  plugins : List.Forall₂ PluginDecl.Describes m.plugins e.children

theorem describes_toElement (m : ModelDecl) : m.Describes m.toElement := by
  have helement : m.toElement =
      { ({ name := "model" } : Element).withParam "name" (.text m.name)
      with children := m.plugins.map PluginDecl.toElement } :=
    foldl_withChild _ _
  refine { kind := by rw [helement]; rfl, parameters := fun key => ?_,
           plugins := ?_ }
  · have htext : m.toElement.text? key =
        (({ name := "model" } : Element).withParam "name" (.text m.name)).text?
          key := by
      rw [helement]
      rfl
    rw [htext, Element.text?_withParam]
    rfl
  · rw [m.toElement_children, List.forall₂_map_right_iff, List.forall₂_same]
    exact fun d _ => d.describes_toElement

end ModelDecl

/-! ## What is announced and returned -/

namespace Signal

/-- The model and the element that are announced with the plugins of a model. -/
def loaded? : Signal → Option (Entity × Element)
  | .loadPlugins model element => some (model, element)
  | _ => none

end Signal

/-- Of a model that is spawned one element is announced. -/
theorem Placement.filterMap_loaded?_signals (p : Placement) :
    p.signals.filterMap Signal.loaded? = [(p.entity, p.decl.toElement)] := by
  have hlinks : ∀ (names : List String) (links : List Entity),
      (List.zipWith (fun name (e : Entity) =>
        Signal.addToStore e.raw name p.entity.raw) names
        links).filterMap Signal.loaded? = [] := by
    intro names links
    rw [List.filterMap_eq_nil_iff]
    intro signal hsignal
    rw [← List.map_uncurry_zip_eq_zipWith] at hsignal
    obtain ⟨pair, -, rfl⟩ := List.mem_map.1 hsignal
    rfl
  unfold signals
  rw [List.filterMap_append, List.filterMap_cons_none rfl, hlinks]
  rfl

theorem filterMap_loaded?_signals (placed : List Placement) :
    (placed.flatMap Placement.signals).filterMap Signal.loaded? =
      placed.map fun p => (p.entity, p.decl.toElement) := by
  rw [List.filterMap_flatMap, funext Placement.filterMap_loaded?_signals]
  exact (List.map_eq_flatMap ..).symm

/-- The plugins that wait are those that are declared, model by model. -/
theorem map_element_plugins (placed : List Placement) :
    (placed.flatMap Placement.plugins).map PendingPlugin.element =
      ((placed.map Placement.decl).flatMap ModelDecl.plugins).map
        PluginDecl.toElement := by
  rw [List.flatMap_map, List.map_flatMap, List.map_flatMap]
  refine congrArg (placed.flatMap ·) (funext fun p => ?_)
  simp [Placement.plugins]

/-- The element of a model says its name and has, in order, an element for each
of its plugins; and that says all parameters but one, and the name of the plugin
exactly if no parameter takes its place. Whenever a scene is spawned, these
elements are announced with the plugins of its models, one for each model in
order; and what is returned are, in order, the elements of all its plugins. -/
theorem described_of_spawnScene (m : ModelDecl) {ref : StoreRef}
    {w : World} {s : Store} (hs : w.store? ref = some s) (b : Nat)
    (scene : Scene) :
    m.Describes m.toElement ∧
    ∀ plugins v, (spawnScene ref b scene).run w = .ok (.ok plugins) v →
      ∃ stages, Staged (perform (w.weight + 1)) ref b w stages v ∧
        List.Forall₂ (fun decl announced => decl.Describes announced.2)
          scene.models ((stages.map Stage.signal).filterMap Signal.loaded?) ∧
        List.Forall₂ (fun decl pending => decl.Describes pending.element)
          (scene.models.flatMap ModelDecl.plugins) plugins := by
  refine ⟨m.describes_toElement, fun plugins v hrun => ?_⟩
  have hnamed : scene.WellNamed s := wellNamed_of_run hs hrun
  obtain ⟨hstaged, placed, hdecl, hplugins, hstages⟩ :=
    (proceeds_scene b hs hnamed).of_ok hrun
  cases hplugins
  rw [hstages] at hstaged
  have hsignals : (placed.flatMap Placement.stages).map Stage.signal =
      placed.flatMap Placement.signals := by
    rw [List.map_flatMap]
    exact congrArg (placed.flatMap ·) (funext Placement.map_signal_stages)
  refine ⟨_, hstaged, ?_, ?_⟩
  · rw [hsignals, filterMap_loaded?_signals, ← hdecl,
      List.forall₂_map_right_iff, List.forall₂_map_left_iff, List.forall₂_same]
    exact fun p _ => p.decl.describes_toElement
  · have helements : List.Forall₂ PluginDecl.Describes
        (scene.models.flatMap ModelDecl.plugins)
        ((placed.flatMap Placement.plugins).map PendingPlugin.element) := by
      rw [map_element_plugins, hdecl, List.forall₂_map_right_iff,
        List.forall₂_same]
      exact fun d _ => d.describes_toElement
    exact List.forall₂_map_right_iff.1 helements

/-- A scene has a plugin with a parameter of the text of its name, which keeps
its name, and one with a parameter of another text, which does not. -/
theorem described_with_renamed_plugin :
    let w := Session.after {}
      [⟨.runner 0, .makeRunner (some 0) defaultStep none⟩,
      ⟨.runner 0, .act (.connect 0 .loadPlugins "ear" [] 2)⟩]
    let weld : PluginDecl :=
      ⟨"weld", .ofList [("name", .text "weld"), ("strength", .integer 3)]⟩
    let clamp : PluginDecl := ⟨"clamp", .ofList [("name", .text "vise")]⟩
    let cart : ModelDecl := { name := "cart", links := ["body"],
                              plugins := [weld, clamp] }
    let scene : Scene := ⟨[cart, { name := "boat" }]⟩
    ∃ s, w.store? (.runner 0) = some s ∧ cart.Describes cart.toElement ∧
      ∃ v stages, (spawnScene (.runner 0) 0 scene).run w =
          .ok (.ok [⟨⟨1, 0⟩, weld.toElement⟩, ⟨⟨1, 0⟩, clamp.toElement⟩]) v ∧
        Staged (perform (w.weight + 1)) (.runner 0) 0 w stages v ∧
        List.Forall₂ (fun decl announced => decl.Describes announced.2)
          scene.models ((stages.map Stage.signal).filterMap Signal.loaded?) ∧
        weld.KeepsName ∧ weld.toElement.text? "name" = some "weld" ∧
        ¬ clamp.KeepsName ∧ clamp.toElement.text? "name" = some "vise" := by
  intro w weld clamp cart scene
  have hstore : (w.store? (.runner 0)).isSome = true := by decide +kernel
  obtain ⟨s, hs⟩ := Option.isSome_iff_exists.1 hstore
  have hspawned : EStateM.run' (spawnScene (.runner 0) 0 scene) w =
      some (.ok [⟨⟨1, 0⟩, weld.toElement⟩, ⟨⟨1, 0⟩, clamp.toElement⟩]) := by
    decide +kernel
  have hrun := run_of_run' hspawned
  obtain ⟨hdescribes, hall⟩ := described_of_spawnScene cart hs 0 scene
  obtain ⟨stages, hstaged, hannounced, -⟩ := hall _ _ hrun
  exact ⟨s, hs, hdescribes, _, stages, hrun, hstaged, hannounced,
    by decide +kernel, by decide +kernel, by decide +kernel, by decide +kernel⟩

/-- A plugin with a parameter called `name` is not known by its own name,
neither in its element nor in what is returned when its scene is spawned. -/
theorem renamed_by_parameter :
    (¬ ∀ m : ModelDecl, ∀ d ∈ m.plugins,
      d.toElement.text? "name" = some d.name) ∧
    ¬ ∀ (w : World) (ref : StoreRef) (s : Store) (b : Nat) (scene : Scene)
      (plugins : List PendingPlugin) (v : World), w.Reachable →
        w.store? ref = some s →
        (spawnScene ref b scene).run w = .ok (.ok plugins) v →
          plugins.map (fun pending => pending.element.text? "name") =
            (scene.models.flatMap ModelDecl.plugins).map fun d =>
              some d.name := by
  let clamp : PluginDecl := ⟨"clamp", .ofList [("name", .text "vise")]⟩
  let cart : ModelDecl := { name := "cart", plugins := [clamp] }
  refine ⟨fun hnames => ?_, fun hnames => ?_⟩
  · have hname : clamp.toElement.text? "name" = some "vise" := by decide +kernel
    have hclamp := hnames cart clamp (by simp [cart])
    rw [hname] at hclamp
    exact absurd hclamp (by decide)
  · let w :=
      Session.after {} [⟨.runner 0, .makeRunner (some 0) defaultStep none⟩]
    have hstore : (w.store? (.runner 0)).isSome = true := by decide +kernel
    obtain ⟨s, hs⟩ := Option.isSome_iff_exists.1 hstore
    have hspawned : EStateM.run' (spawnScene (.runner 0) 0 ⟨[cart]⟩) w =
        some (.ok [⟨⟨1, 0⟩, clamp.toElement⟩]) := by decide +kernel
    have hdiffer : ([⟨⟨1, 0⟩, clamp.toElement⟩] : List PendingPlugin).map
        (fun pending => pending.element.text? "name") ≠
          ((⟨[cart]⟩ : Scene).models.flatMap ModelDecl.plugins).map fun d =>
            some d.name := by
      decide +kernel
    exact hdiffer
      (hnames w (.runner 0) s 0 ⟨[cart]⟩ _ _ (Session.reachable_after _) hs
      (run_of_run' hspawned))

end Linkage
