import Linkage.Proofs.Joint.Attaching
import Linkage.Proofs.Joint.Routing
import Linkage.Proofs.Scene.Spawning

/-!
# Joints that a scene describes

A plugin of a scene describes a joint by names: a link of the model that
declares it, a model of the scene, and a link of that model. Once the scene is
spawned the names single out three entities, and a joint that is added for the
plugin attaches between them in the next step, whatever other joints the runner
has.

## Main results

* `PluginDecl.text?_toElement`: what is declared for a plugin is what its
  element says.
* `Placed.exists_ready`: a joint that is configured with such a plugin is ready
  to attach.
* `left_addDetachables`: the joints of plugins are added after those that are
  there.
* `World.joints_of_scene`: the joints of a scene after the next step.
-/

namespace Linkage

open Act

/-! ## What a plugin says -/

namespace PluginDecl

/-- The text of a parameter. -/
def text? (d : PluginDecl) (key : String) : Option String :=
  (d.params.get? key).map Scalar.display

theorem text?_foldl {params : List (String × Scalar)}
    (hparams : params.Pairwise fun a b => a.1 < b.1) (e : Element)
    (key : String) :
    (params.foldl (fun e param => e.withParam param.1 param.2) e).text? key =
      ((SortedMap.lookup key params).map Scalar.display).or (e.text? key) := by
  induction params generalizing e with
  | nil => rfl
  | cons param params ih =>
      obtain ⟨hfirst, hparams⟩ := List.pairwise_cons.1 hparams
      rw [List.foldl_cons, ih hparams, Element.text?_withParam]
      by_cases hkey : key = param.1
      · rw [if_pos hkey, hkey, SortedMap.lookup_none_of_lt hfirst]
        simp [SortedMap.lookup]
      · have hne : param.1 ≠ key := fun h => hkey h.symm
        simp [hkey, hne, SortedMap.lookup]

theorem text?_toElement_of_get? {d : PluginDecl} {key : String} {x : Scalar}
    (h : d.params.get? key = some x) :
    d.toElement.text? key = some x.display := by
  have hlookup : SortedMap.lookup key d.params.entries = some x := h
  unfold toElement
  rw [text?_foldl d.params.sorted, hlookup]
  rfl

/-- The element of a plugin says what is declared, but for its name. -/
theorem text?_toElement (d : PluginDecl) {key : String} (h : key ≠ "name") :
    d.toElement.text? key = d.text? key := by
  have hname :
      (({ name := "plugin" } : Element).withParam "name" (.text d.name)).text?
        key =
      none := by
    rw [Element.text?_withParam, if_neg h]
    rfl
  unfold toElement
  rw [text?_foldl d.params.sorted, hname, Option.or_none]
  rfl

end PluginDecl

/-- There is nothing to trim. -/
def IsTrimmed (text : String) : Prop := Text.trim text.toList = text.toList

instance (text : String) : Decidable (IsTrimmed text) :=
  inferInstanceAs (Decidable (Text.trim text.toList = text.toList))

/-- A plugin of a model of a scene asks for a joint between a link of the model
and a link of a child model, which is the model itself or another model of the
scene. The texts have nothing to trim, and the override of the topic or the
default topic can be repaired. -/
structure PluginDecl.AsksFor (d : PluginDecl) (scene : Scene)
    (m child : ModelDecl) (parentLink childLink : String) : Prop where
  parentText : d.text? "parent_link" = some parentLink
  childText : d.text? "child_link" = some childLink
  childModel : (d.text? "child_model" = some selfModel ∧ child = m) ∨
    (d.text? "child_model" = some child.name ∧ child.name ≠ selfModel ∧
      child ∈ scene.models)
  parentDeclared : parentLink ∈ m.links
  childDeclared : childLink ∈ child.links
  trimmed : ∀ key ∈ ["parent_link", "child_link", "child_model"],
    ∀ text ∈ d.text? key,
    IsTrimmed text
  suppress : d.text? "suppress_child_warning" ∈
    [none, some "true", some "false"]
  topic : (∃ raw ∈ d.text? "topic", (Topic.sanitize raw).isSome) ∨
    (Topic.sanitize (JointSpec.defaultTopic m.name)).isSome

namespace PluginDecl

variable {d : PluginDecl} {key raw : String}

theorem trimmed?_toElement (h : d.text? key = some raw) (hkey : key ≠ "name")
    (htrim : IsTrimmed raw) : d.toElement.trimmed? key = some raw := by
  unfold Element.trimmed?
  rw [d.text?_toElement hkey, h, Option.map_some,
    show Text.trim raw.toList = raw.toList from htrim, String.ofList_toList]

theorem exists_readOr
    (h : d.text? "suppress_child_warning" ∈ [none, some "true", some "false"]) :
    ∃ flag, d.toElement.readOr ScalarType.readFlag? "suppress_child_warning"
      false = .ok flag := by
  have htrue : ScalarType.readFlag? (Text.trim "true".toList) =
      some true := by decide
  have hfalse : ScalarType.readFlag? (Text.trim "false".toList) =
      some false := by decide
  unfold Element.readOr Element.read
  rw [d.text?_toElement (by decide)]
  simp only [List.mem_cons, List.not_mem_nil, or_false] at h
  rcases h with h | h | h
  · rw [h]
    exact ⟨false, rfl⟩
  · simp only [h, htrue]
    exact ⟨true, rfl⟩
  · simp only [h, hfalse]
    exact ⟨false, rfl⟩

variable {scene : Scene} {m child : ModelDecl} {parentLink childLink : String}

/-- What a plugin asks for can be read from its element. -/
theorem AsksFor.exists_spec (h : d.AsksFor scene m child parentLink childLink) :
    ∃ spec, JointSpec.ofElement d.toElement = .ok spec ∧
      spec.parentLink = parentLink ∧
      spec.childLink = childLink ∧
      d.text? "child_model" = some spec.childModel ∧
      spec.topic = d.toElement.trimmed? "topic" := by
  obtain ⟨flag, hflag⟩ := exists_readOr h.suppress
  obtain ⟨childModel, hchild⟩ : ∃ childModel,
      d.text? "child_model" = some childModel := by
    rcases h.childModel with ⟨hself, -⟩ | ⟨hname, -⟩
    · exact ⟨_, hself⟩
    · exact ⟨_, hname⟩
  refine ⟨⟨parentLink, childModel, childLink,
    d.toElement.trimmed? "topic", flag⟩,
    JointSpec.ofElement_eq_ok_iff.2 ⟨?_, ?_, ?_, hflag, rfl⟩, rfl,
    rfl, hchild, rfl⟩
  · exact trimmed?_toElement h.parentText (by decide)
      (h.trimmed _ (by simp) _ h.parentText)
  · exact trimmed?_toElement hchild (by decide) (h.trimmed _ (by simp) _ hchild)
  · exact trimmed?_toElement h.childText (by decide)
      (h.trimmed _ (by simp) _ h.childText)

/-- One of the topics to try can be repaired. -/
theorem AsksFor.exists_topic (h : d.AsksFor scene m child parentLink childLink)
    {spec : JointSpec} (hspec : spec.topic = d.toElement.trimmed? "topic") :
    ∃ topic, Topic.firstValid (spec.topicCandidates m.name) = some topic := by
  rw [← Option.isSome_iff_exists, Topic.firstValid, JointSpec.topicCandidates,
    List.findSome?_isSome_iff, hspec]
  rcases h.topic with ⟨raw, hraw, hvalid⟩ | hdefault
  · refine ⟨String.ofList (Text.trim raw.toList), ?_, ?_⟩
    · have htext : d.text? "topic" = some raw := hraw
      simp [Element.trimmed?, d.text?_toElement, htext]
    · rwa [Topic.sanitize_trim]
  · exact ⟨JointSpec.defaultTopic m.name, by simp, hdefault⟩

end PluginDecl

open Controller World

/-- A joint that is configured with a plugin of a scene, in the store where the
scene is placed, is ready to attach between the links that the names single
out. -/
theorem Placed.exists_ready {s t : Store} {placed : List Placement}
    {scene : Scene} {p : Placement} {d : PluginDecl} {child : ModelDecl}
    {parentLink childLink : String} (h : Placed s placed t)
    (hscene : placed.map Placement.decl = scene.models) (hp : p ∈ placed)
    (hasks : d.AsksFor scene p.decl child parentLink childLink) :
    ∃ childModel parent link, t.IsOnly (t.ModelNamed child.name) childModel ∧
      t.IsOnly (t.LinkNamed p.entity parentLink) parent ∧
      t.IsOnly (t.LinkNamed childModel childLink) link ∧
      (({} : Controller).configure p.entity d.toElement t).1.ReadyFor t
        parent link := by
  obtain ⟨q, hq, rfl⟩ : ∃ q ∈ placed, q.decl = child := by
    rcases hasks.childModel with ⟨-, rfl⟩ | ⟨-, -, hmem⟩
    · exact ⟨p, hp, rfl⟩
    · rw [← hscene] at hmem
      obtain ⟨q, hq, heq⟩ := List.mem_map.1 hmem
      exact ⟨q, hq, heq⟩
  obtain ⟨parent, hparent⟩ := h.exists_only_link hp hasks.parentDeclared
  obtain ⟨link, hlink⟩ := h.exists_only_link hq hasks.childDeclared
  obtain ⟨spec, hspec, rfl, rfl, hchild, htopic⟩ := hasks.exists_spec
  have hmodel := h.only_model hp
  have hname : t.nameOrEmpty p.entity = p.decl.name := by
    simp [Store.nameOrEmpty, hmodel.holds.2]
  obtain ⟨topic, hfirst⟩ := hasks.exists_topic htopic
  have hresolve : resolve p.entity d.toElement t =
      .ok ⟨spec, parent, topic⟩ := by
    refine resolve_eq_ok_iff.2 ⟨?_, hspec, ?_, ?_⟩
    · simp [Store.isValidModel, hmodel.live, hmodel.holds.1]
    · exact (Store.linkNamed?_eq_some_iff _ _ _).2 hparent.isFirst
    · rw [hname]
      exact hfirst
  refine ⟨q.entity, parent, link, h.only_model hq, hparent, hlink, ?_⟩
  have hconfigured : (({} : Controller).configure p.entity d.toElement t).1 =
      { configured := true, validConfig := true, model := some p.entity,
        spec := some spec,
        parentLink := some parent, topic } := by
    simp [Controller.configure, hresolve]
  rw [hconfigured]
  refine { valid := rfl, unattached := rfl, parent := rfl,
           found := ⟨spec, p.entity, rfl, rfl, ?_⟩ }
  intro u hu
  refine (search_eq_link_iff link).2 ⟨q.entity, ?_,
    (hu.only_link hlink).isFirst⟩
  unfold IsChildModel
  rcases hasks.childModel with ⟨hself, hown⟩ | ⟨hother, hne, -⟩
  · rw [hchild, Option.some.injEq] at hself
    rw [if_pos hself]
    have hsame := h.placement_eq hq hp (congrArg ModelDecl.name hown)
    rw [hsame]
  · rw [hchild, Option.some.injEq] at hother
    rw [if_neg (hother ▸ hne), hother]
    exact (hu.only_model (h.only_model hq)).isFirst

/-! ## Adding the joints -/

/-- Add a new joint for each of some plugins, on the transport of a number. -/
def addDetachables (r : Nat) : List (Nat × PendingPlugin) → Act Unit
  | [] => pure ()
  | (t, p) :: rest => do
      let j ← Session.addJoint none (.numbered t)
      let _ ← addSystem r (.joint j) p.model p.element
      addDetachables r rest

/-- A new joint that was configured with a plugin on a store. -/
def PendingPlugin.slot (p : PendingPlugin) (t : Nat) (s : Store) : JointSlot :=
  { controller := (({} : Controller).configure p.model p.element s).1,
    transport := .numbered t }

section Adding

variable {w : World} {r : Nat} {a : Runner}

/-- Enrolling a joint adds one joint and one system. -/
theorem joints_of_enrol (ha : w.runner? r = some a) (t : Nat)
    (p : PendingPlugin) :
    ((Deed.enrol r none (.numbered t) p.model p.element).apply w).runner? r =
        some { a with systems := a.systems ++ [.joint w.joints.length] } ∧
      ((Deed.enrol r none (.numbered t) p.model p.element).apply w).joints =
        w.joints ++ [p.slot t a.store] := by
  obtain ⟨entries, heq⟩ := left_enrol r none (.numbered t) p.model p.element w
  let made : World :=
    (({ w with joints := w.joints ++ [{ transport := .numbered t }] }) : World)
  have hstore : (made.report entries).store? (.runner r) = some a.store :=
    store?_of_runner? ha
  have hslot : (made.report entries).joints[w.joints.length]? =
      some { transport := .numbered t } := List.getElem?_concat_length
  have hconfigured :
      (configureJoint w.joints.length (.runner r) p.model p.element).left
      (made.report entries) =
        ((made.report entries).setController w.joints.length
        (p.slot t a.store).controller).report
          (({} : Controller).configure p.model p.element a.store).2 := by
    simp only [configureJoint, left_modify, hslot, hstore]
    rfl
  have hrunner := runner?_configureJoint w.joints.length (.runner r)
    p.model p.element (made.report entries) r
  have ha' : (made.report entries).runner? r = some a := ha
  rw [ha'] at hrunner
  constructor
  · show (((Session.addJoint none (.numbered t) >>= fun j =>
      addSystem r (.joint j) p.model p.element).left w)).runner? r = _
    rw [heq]
    show World.runner?
      (World.register ((configureJoint w.joints.length (.runner r) p.model
      p.element).left (made.report entries)) r _) r = _
    simp only [World.register, hrunner]
    rw [runner?_setRunner_of hrunner, if_pos rfl]
  · show ((Session.addJoint none (.numbered t) >>= fun j =>
      addSystem r (.joint j) p.model p.element).left w).joints = _
    rw [heq, joints_register]
    refine (congrArg World.joints hconfigured).trans
      (List.ext_getElem? fun i => ?_)
    show ((made.report entries).setController w.joints.length _).joints[i]? = _
    rw [joints_setController]
    show ((w.joints ++ [({ transport := .numbered t } : JointSlot)])[i]?).map
      _ = _
    rcases Nat.lt_trichotomy i w.joints.length with hlt | rfl | hgt
    · have hne : w.joints.length ≠ i := by omega
      simp [List.getElem?_append_left hlt, hne]
    · rw [List.getElem?_concat_length, List.getElem?_concat_length,
        Option.map_some, if_pos rfl]
      rfl
    · rw [List.getElem?_eq_none (by simp; omega),
        List.getElem?_eq_none (by simp; omega)]
      rfl

theorem left_addDetachables_cons (x : Nat × PendingPlugin)
    (rest : List (Nat × PendingPlugin)) :
    (addDetachables r (x :: rest)).left w = (addDetachables r rest).left
      ((Deed.enrol r none (.numbered x.1) x.2.model x.2.element).apply w) := rfl

/-- Adding joints never breaks off. -/
theorem run_addDetachables (w : World) (r : Nat)
    (added : List (Nat × PendingPlugin)) :
    (addDetachables r added).run w =
      .ok () ((addDetachables r added).left w) := by
  induction added generalizing w with
  | nil => rfl
  | cons x rest ih =>
      rw [left_addDetachables_cons, ← ih]
      rfl

theorem reachable_addDetachables (hw : w.Reachable) (r : Nat)
    (added : List (Nat × PendingPlugin)) :
    ((addDetachables r added).left w).Reachable := by
  induction added generalizing w with
  | nil => exact hw
  | cons x rest ih =>
      rw [left_addDetachables_cons]
      exact ih (hw.deed _)

/-- The joints of plugins come after those that are there, as joints and as
systems. -/
theorem left_addDetachables (ha : w.runner? r = some a)
    (added : List (Nat × PendingPlugin)) :
    ((addDetachables r added).left w).runner? r =
        some { a with systems := a.systems ++
          (List.range' w.joints.length added.length).map System.joint } ∧
      ((addDetachables r added).left w).joints =
        w.joints ++ added.map fun x => x.2.slot x.1 a.store := by
  induction added generalizing w a with
  | nil => exact ⟨by simpa [addDetachables] using ha, by simp [addDetachables]⟩
  | cons x rest ih =>
      obtain ⟨hrunner, hjoints⟩ := joints_of_enrol ha x.1 x.2
      obtain ⟨hrunner', hjoints'⟩ := ih hrunner
      rw [left_addDetachables_cons]
      constructor
      · rw [hrunner', hjoints]
        simp [List.range'_succ]
      · rw [hjoints', hjoints]
        simp

end Adding

/-! ## The next step -/

/-- The plugins that a scene declares, each with its model, in order. -/
def Scene.declared (scene : Scene) : List (ModelDecl × PluginDecl) :=
  scene.models.flatMap fun m => m.plugins.map fun d => (m, d)

section Declared

variable {scene : Scene} {placed : List Placement}

theorem length_declared (h : placed.map Placement.decl = scene.models) :
    (placed.flatMap Placement.plugins).length = scene.declared.length := by
  simp [Scene.declared, ← h, List.length_flatMap, Placement.plugins,
    Function.comp_def]

/-- The plugins that a scene gives are those that it declares, on the models
standing for theirs. -/
theorem exists_placement (h : placed.map Placement.decl = scene.models)
    {k : Nat} {m : ModelDecl} {d : PluginDecl}
    (hk : scene.declared[k]? = some (m, d)) :
    ∃ p ∈ placed, p.decl = m ∧
      (placed.flatMap Placement.plugins)[k]? =
        some ⟨p.entity, d.toElement⟩ := by
  let paired := placed.flatMap fun p => p.decl.plugins.map fun d => (p, d)
  have hdeclared : scene.declared = paired.map fun x => (x.1.decl, x.2) := by
    simp [Scene.declared, ← h, paired, List.flatMap_map, List.map_flatMap,
      Function.comp_def]
  have hplugins : placed.flatMap Placement.plugins =
      paired.map fun x => ⟨x.1.entity, x.2.toElement⟩ := by
    simp only [paired, List.map_flatMap, List.map_map]
    rfl
  rw [hdeclared, List.getElem?_map] at hk
  obtain ⟨⟨p, d'⟩, hpair, heq⟩ := Option.map_eq_some_iff.1 hk
  cases heq
  have hmem : p ∈ placed := by
    obtain ⟨q, hq, hmem⟩ := List.mem_flatMap.1 (List.mem_of_getElem? hpair)
    obtain ⟨d', -, heq⟩ := List.mem_map.1 hmem
    cases heq
    exact hq
  refine ⟨p, hmem, rfl, ?_⟩
  rw [hplugins, List.getElem?_map, hpair]
  rfl

end Declared

theorem Spawns.runner {w v : World} {r b depth : Nat}
    {as : List Addition} {a : Runner}
    (h : Spawns (perform depth) (.runner r) b w as v)
    (ha : w.runner? r = some a) :
    ∃ c, v.runner? r = some c ∧ c.systems = a.systems ∧
      a.store.Adds as c.store := by
  have hR : Reactive fun w w' : World => Running r a.systems w →
      Running r a.systems w' :=
    { refl := fun _ => id, trans := fun h h' hw => h' (h hw),
      react := fun h hw => hw.reaction h.toLimited }
  obtain ⟨c, hc, hsystems⟩ :=
    h.keeps hR (fun v s hv => hv.setStore _ s) ⟨a, ha, rfl⟩
  obtain ⟨t, ht, hadds⟩ := h.store (store?_of_runner? ha)
  have hstore : v.store? (.runner r) = some c.store := store?_of_runner? hc
  rw [hstore, Option.some.injEq] at ht
  exact ⟨c, hc, hsystems, ht ▸ hadds⟩

namespace World

/-- A runner that has nothing but joints, and whose store, in which fewer than
`2 ^ 31` entities were ever created, records only parents that it has issued. -/
structure TakesScenes (w : World) (r : Nat) (a : Runner) : Prop where
  reached : w.Reachable
  runner : w.runner? r = some a
  systems : ∀ system ∈ a.systems, ∃ j, system = .joint j
  store : ∃ calls, a.store = ({} : Store).serveAll calls ∧
    creations calls < 2 ^ 31 ∧
    ∀ e p, a.store.parent? e = some p → p ∈ ({} : Store).issuedBy calls

/-- Nobody has edited the store, the systems or the later joints of a runner
since, and the runner is neither paused nor stopped. -/
structure Unedited (w : World) (r first : Nat) (v : World) : Prop where
  reached : v.Reachable
  runner : ∃ a c, w.runner? r = some a ∧ v.runner? r = some c ∧
    c.store = a.store ∧
    c.systems = a.systems ∧ (c.stopped || c.paused) = false
  joints : ∀ j slot, first ≤ j → w.joints[j]? = some slot →
    v.joints[j]? = some slot

theorem TakesScenes.systems_eq {w : World} {r : Nat} {a : Runner}
    (h : w.TakesScenes r a) :
    a.systems = a.jointIds.map System.joint := by
  have hall : ∀ l : List System, (∀ system ∈ l, ∃ j, system = .joint j) →
      l = (l.filterMap System.joint?).map System.joint := by
    intro l
    induction l with
    | nil => exact fun _ => rfl
    | cons system l ih =>
        intro hl
        obtain ⟨j, rfl⟩ := hl system (by simp)
        have hrest := ih fun system hsystem => hl system (by simp [hsystem])
        simpa [System.joint?] using hrest
  exact hall a.systems h.systems

/-- A scene that is accepted is placed in the store of a runner that takes
scenes. -/
theorem TakesScenes.placed {w : World} {r : Nat} {a : Runner}
    (h : w.TakesScenes r a) {scene : Scene}
    {placed : List Placement} {t : Store}
    (hdecls : placed.map Placement.decl = scene.models)
    (hcheck : scene.check a.store = .ok ())
    (hadds : a.store.Adds (placed.flatMap Placement.additions) t)
    (ht : t.WithinCapacity) :
    Placed a.store placed t := by
  obtain ⟨calls, hcalls, hbound, hparents⟩ := h.store
  have hs : w.store? (.runner r) = some a.store := store?_of_runner? h.runner
  refine { sound := h.reached.sound.stores hs, capacity := ht, check := ?_,
           parents := ?_,
           adds := hadds }
  · rw [hdecls]
    exact hcheck
  · intro e p hp
    rw [hcalls]
    exact (Store.issued_serveAll_iff calls hbound).2 (hparents e p hp)

/-- A scene that is accepted into the store of a runner that has nothing but
joints becomes the joints that it describes: a joint that is added for a plugin
is valid, and the next step leaves it holding an entity of its own that ties the
links together that the names single out. -/
theorem joints_of_scene {w w₁ w₂ v : World} {r b : Nat} {a : Runner}
    {scene : Scene} {plugins : List PendingPlugin}
    {added : List (Nat × PendingPlugin)} (hw : w.TakesScenes r a)
    (hspawn : (spawnScene (.runner r) b scene).run w = .ok (.ok plugins) w₁)
    (hadded : added.map Prod.snd = plugins)
    (hadd : (addDetachables r added).run w₁ = .ok () w₂)
    (hv : w₂.Unedited r w₁.joints.length v)
    (hcapacity : ∀ s, ((step r).left v).store? (.runner r) = some s →
      s.WithinCapacity) :
    ∃ t, w₁.store? (.runner r) = some t ∧
      plugins.length = scene.declared.length ∧
      (∀ (k : Nat) (m : ModelDecl) (d : PluginDecl),
        scene.declared[k]? = some (m, d) →
        ∃ model, plugins[k]? = some ⟨model, d.toElement⟩ ∧
          t.IsOnly (t.ModelNamed m.name) model ∧
          ∀ child parentLink childLink,
            d.AsksFor scene m child parentLink childLink →
            ∃ slot childModel parent link e,
              w₂.joints[w₁.joints.length + k]? = some slot ∧
              slot.controller.validConfig = true ∧
              t.IsOnly (t.ModelNamed child.name) childModel ∧
              t.IsOnly (t.LinkNamed model parentLink) parent ∧
              t.IsOnly (t.LinkNamed childModel childLink) link ∧
              ((step r).left v).HoldsIn r (w₁.joints.length + k) e
                (Joint.fixed parent link)) ∧
      ∀ (i j : Nat) (e : Entity) (x y : Joint), i < plugins.length →
        j < plugins.length →
        ((step r).left v).HoldsIn r (w₁.joints.length + i) e x →
          ((step r).left v).HoldsIn r (w₁.joints.length + j) e y → i = j := by
  have hs : w.store? (.runner r) = some a.store := store?_of_runner? hw.runner
  obtain ⟨hcheck, depth, placed, hdecls, rfl, hspawns⟩ :=
    spawns_of_run hs hspawn
  obtain ⟨c₁, hc₁, hsystems₁, hadds⟩ := hspawns.runner hw.runner
  obtain ⟨hrunner₂, hjoints₂⟩ := left_addDetachables hc₁ added
  rw [left_of_ok hadd] at hrunner₂ hjoints₂
  obtain ⟨c₂, c, hc₂, hc, hstore, hsystems, hgo⟩ := hv.runner
  cases hrunner₂.symm.trans hc₂
  let new := List.range' w₁.joints.length added.length
  have hids : c.systems = (a.jointIds ++ new).map System.joint := by
    rw [hsystems, List.map_append, ← hw.systems_eq, ← hsystems₁]
  have hlength : added.length = (placed.flatMap Placement.plugins).length := by
    rw [← hadded, List.length_map]
  have hslots : ∀ (k : Nat) (p : PendingPlugin),
      (placed.flatMap Placement.plugins)[k]? = some p →
        ∃ t, w₂.joints[w₁.joints.length + k]? = some (p.slot t c₁.store) := by
    intro k p hk
    rw [← hadded, List.getElem?_map] at hk
    obtain ⟨x, hx, rfl⟩ := Option.map_eq_some_iff.1 hk
    refine ⟨x.1, ?_⟩
    rw [hjoints₂, List.getElem?_append_right (Nat.le_add_right _ _),
      Nat.add_sub_cancel_left, List.getElem?_map, hx]
    rfl
  have hmem : ∀ k : Nat, k < (placed.flatMap Placement.plugins).length →
      w₁.joints.length + k ∈ new := by
    intro k hk
    rw [List.mem_range'_1]
    omega
  have hfresh : ∀ j ∈ new, v.Fresh j := by
    intro j hj
    rw [List.mem_range'_1] at hj
    obtain ⟨k, rfl⟩ := Nat.exists_eq_add_of_le hj.1
    have hk : k < (placed.flatMap Placement.plugins).length := by omega
    obtain ⟨t, hslot⟩ := hslots k _ (List.getElem?_eq_getElem hk)
    obtain ⟨hinit, -, hrequested, -⟩ := configure_same Controller.sound_new
      ((placed.flatMap Placement.plugins)[k]).model
        ((placed.flatMap Placement.plugins)[k]).element
      c₁.store
    exact ⟨_, hv.joints _ _ (Nat.le_add_right _ _) hslot, hrequested, hinit⟩
  obtain ⟨-, -, -, -, -, hcapacity₁, -⟩ :=
    exists_of_step hv.reached.sound hc hgo hids hfresh hcapacity
  rw [hstore] at hcapacity₁
  have hplaced := hw.placed hdecls hcheck hadds hcapacity₁
  refine ⟨c₁.store, store?_of_runner? hc₁, length_declared hdecls, ?_, ?_⟩
  · intro k m d hk
    obtain ⟨p, hp, rfl, hplugin⟩ := exists_placement hdecls hk
    refine ⟨p.entity, hplugin, hplaced.only_model hp, ?_⟩
    intro child parentLink childLink hasks
    obtain ⟨childModel, parent, link, hchild, hparent, hlink, hready⟩ :=
      hplaced.exists_ready hdecls hp hasks
    obtain ⟨t, hslot⟩ := hslots k _ hplugin
    have hklt := (List.getElem?_eq_some_iff.1 hplugin).1
    have hready' :
        (PendingPlugin.slot ⟨p.entity, d.toElement⟩ t
          c₁.store).controller.ReadyFor
        c.store parent link := by
      rw [hstore]
      exact hready
    obtain ⟨e, hholds⟩ :=
      holdsIn_of_step hv.reached.sound hc hgo hids hfresh hcapacity
      (hmem k hklt) (hv.joints _ _ (Nat.le_add_right _ _) hslot) hready'
    exact ⟨_, childModel, parent, link, e, hslot, hready.valid, hchild, hparent,
      hlink, hholds⟩
  · intro i j e x y hi hj hx hy
    have heq := eq_of_holdsIn hv.reached.sound hc hgo hids hfresh hcapacity
      (hmem i hi) (hmem j hj) hx hy
    omega

/-- A scene of two models, one joined to the other and the other to itself, in a
store that had a model before, with a slot that was freed, and a runner that has
a joint already. -/
theorem joints_of_scene_of_two_models :
    let requests : List Request :=
      [⟨.runner 0, .makeRunner none defaultStep none⟩,
      ⟨.runner 0, .act (.onStore (.spawn "crane" ["hook"] (some "crane")))⟩,
      ⟨.runner 0, .act (.onStore (.spawn "crate" [] (some "crate")))⟩,
      ⟨.runner 0, .act (.onStore (.remove (.label "crate")))⟩,
      ⟨.runner 0, .step 0⟩,
      ⟨.runner 0, .addSystem 0 (.joint none (.numbered 0)) (.label "crane")
        (Session.jointElement "hook" "cart" "eye")⟩]
    let calls : List StoreCall :=
      [.create, .attach ⟨1, 0⟩ .model, .attach ⟨1, 0⟩ (.name "crane"),
      .create, .attach ⟨2, 0⟩ .link, .attach ⟨2, 0⟩ (.name "hook"),
      .attach ⟨2, 0⟩ (.parent ⟨1, 0⟩),
      .create, .attach ⟨3, 0⟩ .model, .attach ⟨3, 0⟩ (.name "crate"),
      .requestRemoval ⟨3, 0⟩, .applyRemovals]
    let towing : PluginDecl :=
      ⟨"detachable_joint", .ofList [("parent_link", .text "body"),
      ("child_model", .text "cart"), ("child_link", .text "eye"),
      ("topic", .text "tow")]⟩
    let folding : PluginDecl :=
      ⟨"detachable_joint", .ofList [("parent_link", .text "arm"),
      ("child_model", .text "__model__"), ("child_link", .text "eye"),
      ("suppress_child_warning", .flag true)]⟩
    let scene : Scene :=
      ⟨[⟨"car", ["body"], [towing]⟩, ⟨"cart", ["eye", "arm"], [folding]⟩]⟩
    let w := Session.after {} requests
    let plugins := match (spawnScene (.runner 0) 0 scene).run w with
      | .ok (.ok plugins) _ => plugins
      | _ => []
    let w₁ := (spawnScene (.runner 0) 0 scene).left w
    let w₂ := (addDetachables 0 (plugins.map fun p => (1, p))).left w₁
    w.store? (.runner 0) = some (({} : Store).serveAll calls) ∧
      (∃ parent link e,
        ((step 0).left w₂).HoldsIn 0 1 e (Joint.fixed parent link)) ∧
      ∃ parent link e,
        ((step 0).left w₂).HoldsIn 0 2 e (Joint.fixed parent link) := by
  intro requests calls towing folding scene w plugins w₁ w₂
  have hreachable : w.Reachable := Session.reachable_after requests
  have hstore : w.store? (.runner 0) = some (({} : Store).serveAll calls) := by
    decide +kernel
  obtain ⟨a, ha⟩ : ∃ a, w.runner? 0 = some a :=
    Option.isSome_iff_exists.1 (by decide +kernel)
  have hcalls : a.store = ({} : Store).serveAll calls := by
    have hs : w.store? (.runner 0) = some a.store := store?_of_runner? ha
    rw [hstore, Option.some.injEq] at hs
    exact hs.symm
  have hsystems : ∀ system ∈ a.systems, ∃ j, system = .joint j := by
    have hall : (w.runner? 0).all
        (fun a => a.systems.all fun s => s.joint?.isSome) = true := by
      decide +kernel
    rw [ha, Option.all_some, List.all_eq_true] at hall
    intro system hsystem
    obtain ⟨j, hj⟩ := Option.isSome_iff_exists.1 (hall system hsystem)
    exact ⟨j, System.eq_joint hj⟩
  have hparents : ∀ e p, a.store.parent? e = some p →
      p ∈ ({} : Store).issuedBy calls := by
    have hall :
        ∀ o ∈ (({} : Store).serveAll calls).components.parents.slots.entries,
        o.2.value ∈ ({} : Store).issuedBy calls := by decide +kernel
    intro e p hp
    rw [hcalls] at hp
    unfold Store.parent? Table.get? at hp
    cases ho : (({} : Store).serveAll calls).components.parents.slots.get?
        e.index with
    | none => simp [ho] at hp
    | some o =>
        have hmem := (SortedMap.mem_entries_iff _ _ _).2 ho
        have hvalue : o.value = p := by
          simp only [ho] at hp
          split at hp
          · exact Option.some.inj hp
          · cases hp
        exact hvalue ▸ hall _ hmem
  have hw : w.TakesScenes 0 a :=
    { reached := hreachable, runner := ha, systems := hsystems,
      store := ⟨calls, hcalls, by decide, hparents⟩ }
  have hspawn : (spawnScene (.runner 0) 0 scene).run w =
      .ok (.ok plugins) w₁ := by
    have hok : (match (spawnScene (.runner 0) 0 scene).run w with
        | .ok (.ok _) _ => true
        | _ => false) = true := by decide +kernel
    unfold plugins w₁ Act.left
    cases hrun : (spawnScene (.runner 0) 0 scene).run w with
    | error e v => simp [hrun] at hok
    | ok result v =>
        cases result with
        | error name => simp [hrun] at hok
        | ok found => rfl
  have hbase : w₁.joints.length = 1 := by decide +kernel
  have hreachable₁ : w₁.Reachable := hreachable.spawnScene (.runner 0) 0 scene
  have hreachable₂ : w₂.Reachable := reachable_addDetachables hreachable₁ 0 _
  have hv : w₂.Unedited 0 w₁.joints.length w₂ := by
    obtain ⟨c, hc⟩ : ∃ c, w₂.runner? 0 = some c :=
      Option.isSome_iff_exists.1 (by decide +kernel)
    have hgo : (w₂.runner? 0).all (fun c => !(c.stopped || c.paused)) =
        true := by decide +kernel
    rw [hc, Option.all_some, Bool.not_eq_true'] at hgo
    exact { reached := hreachable₂, runner := ⟨c, c, hc, hc, rfl, rfl, hgo⟩,
            joints := fun _ _ _ hslot => hslot }
  have hcapacity : ∀ s, ((step 0).left w₂).store? (.runner 0) = some s →
      s.WithinCapacity := by
    have hall : (((step 0).left w₂).store? (.runner 0)).all
        (fun s => s.pool.slots.length < Entity.indexBound - 1) = true := by
      decide +kernel
    intro s hs
    rw [hs, Option.all_some, decide_eq_true_eq] at hall
    exact hall
  have hadded : (plugins.map fun p => (1, p)).map Prod.snd = plugins := by
    rw [List.map_map]
    exact List.map_id _
  obtain ⟨t, -, -, hjoints, -⟩ := joints_of_scene hw hspawn hadded
    (run_addDetachables w₁ 0 _) hv hcapacity
  have htowing : towing.AsksFor scene ⟨"car", ["body"], [towing]⟩
      ⟨"cart", ["eye", "arm"], [folding]⟩ "body" "eye" := by
    refine { parentText := by decide +kernel, childText := by decide +kernel,
             childModel := .inr ⟨by decide +kernel, by decide, by simp [scene]⟩,
             parentDeclared := by decide, childDeclared := by decide,
             trimmed := by decide +kernel,
             suppress := by decide +kernel, topic := .inl ?_ }
    exact ⟨"tow", by decide +kernel, by decide +kernel⟩
  have hfolding : folding.AsksFor scene ⟨"cart", ["eye", "arm"], [folding]⟩
      ⟨"cart", ["eye", "arm"], [folding]⟩ "arm" "eye" :=
    { parentText := by decide +kernel, childText := by decide +kernel,
      childModel := .inl ⟨by decide +kernel, rfl⟩,
      parentDeclared := by decide, childDeclared := by decide,
      trimmed := by decide +kernel,
      suppress := by decide +kernel, topic := .inr (by decide +kernel) }
  obtain ⟨car, -, -, hfirst⟩ := hjoints 0 _ towing rfl
  obtain ⟨cart, -, -, hsecond⟩ := hjoints 1 _ folding rfl
  obtain ⟨-, -, parent, link, e, -, -, -, -, -, hholds⟩ := hfirst _ _ _ htowing
  obtain ⟨-, -, parent', link', e', -, -, -, -, -, hholds'⟩ :=
    hsecond _ _ _ hfolding
  rw [hbase] at hholds hholds'
  exact ⟨hstore, ⟨parent, link, e, hholds⟩, ⟨parent', link', e', hholds'⟩⟩

end World

end Linkage
