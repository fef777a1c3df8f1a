import Linkage.Proofs.Scene.Admission
import Linkage.Proofs.Scene.Mirror
import Linkage.Proofs.Scene.Naming

/-!
# What spawning a scene leaves

Spawning a scene adds one entity for each of its models and each of its links
and does nothing else to the store: what was there before keeps its components,
and the removals that were asked for stay asked for. The additions are announced
as they are made, a model before its links, and when all its links are there the
plugins of the model are announced. The numbers that are announced are all
different, and none is zero, so zero can stand for no parent.

A new model has the links that it declares. Only an entity that named it as its
parent before it existed could be one more.

## Main results

* `Store.Adds.revision`: how often additions raise the revision.
* `linkCount_of_adds`: how many links a new model has.
* `spawned_of_spawnScene`: what a scene that is spawned adds, announces and
  returns.
-/

namespace Linkage

open Act World

namespace Addition

/-- How often an addition raises the revision: once for the entity and once for
each component. -/
def changes (a : Addition) : Nat := if a.parent.isNone then 3 else 4

end Addition

namespace Store

section One

variable {s : Store} {name : String} {parent : Option Entity}

theorem revision_attach (s : Store) {e : Entity} (h : s.has e = true)
    (change : Components → Components) :
    (s.attach e change).revision = s.revision + 1 := by
  rw [attach, if_pos h]

theorem revision_added (h : s.Sound) :
    (s.added name parent).revision =
      s.revision + Addition.changes ⟨s.create.1, name, parent⟩ := by
  have hlive : s.create.2.has s.create.1 = true := has_created h
  have hcreate : s.create.2.revision = s.revision + 1 := rfl
  cases parent with
  | none =>
      show ((s.create.2.addModel s.create.1).setName s.create.1 name).revision =
        s.revision + 3
      unfold setName addModel
      rw [revision_attach _ (by rw [has_attach]; exact hlive),
        revision_attach _ hlive, hcreate]
  | some p =>
      show (((s.create.2.addLink s.create.1).setName s.create.1 name).setParent
        s.create.1 p).revision = s.revision + 4
      unfold setParent setName addLink
      rw [revision_attach _ (by rw [has_attach, has_attach]; exact hlive),
        revision_attach _ (by rw [has_attach]; exact hlive),
        revision_attach _ hlive, hcreate]

theorem pending_added (s : Store) (name : String) (parent : Option Entity) :
    (s.added name parent).pending = s.pending := by
  cases parent <;>
    simp [added, spawnModel, spawnLink, addModel, addLink, setName,
      setParent, create]

end One

namespace Adds

variable {s t : Store} {as : List Addition}

/-- Additions leave alone what is asked for. -/
theorem pending (h : s.Adds as t) : t.pending = s.pending := by
  induction h with
  | nil => rfl
  | snoc before name parent ih => rw [pending_added, ih]

/-- Every addition raises the revision by its changes. -/
theorem revision (h : s.Adds as t) (hs : s.Sound) :
    t.revision = as.foldl (fun n a => n + a.changes) s.revision := by
  induction h with
  | nil => rfl
  | snoc before name parent ih =>
      rw [revision_added (before.sound hs), ih, List.foldl_concat]

/-- The entities that are added were not live before. -/
theorem not_has (h : s.Adds as t) (hs : s.Sound) {a : Addition} (ha : a ∈ as) :
    s.has a.entity = false := by
  have hnew := h.not_issued hs (List.mem_map.2 ⟨a, ha, rfl⟩)
  exact Bool.eq_false_iff.2 fun hlive => hnew (Pool.Issued.of_isLive hlive)

end Adds

/-- Live entities have different numbers. -/
theorem eq_of_raw_eq_of_has {s : Store} (hs : s.WithinCapacity) {e f : Entity}
    (he : s.has e = true) (hf : s.has f = true) (h : e.raw = f.raw) :
    e = f := by
  have hindex : ∀ {e : Entity}, s.has e = true → e.index < 2 ^ 32 := by
    intro e he
    have hle := Pool.index_le_of_isLive he
    have hlt : s.pool.slots.length < 2 ^ 32 - 1 := hs
    omega
  have hei := hindex he
  have hfi := hindex hf
  have hraw : (2 * e.generation + 1) * 2 ^ 32 + e.index =
      (2 * f.generation + 1) * 2 ^ 32 + f.index := h
  obtain ⟨i, g⟩ := e
  obtain ⟨j, k⟩ := f
  simp only [Entity.mk.injEq]
  simp only at hei hfi hraw
  omega

end Store

/-! ## What is placed -/

namespace Placement

/-- The entities of the model and of its links. -/
def entities (p : Placement) : List Entity := p.entity :: p.links

/-- What is announced while the model is spawned: that it is added, that each of
its links is, in order, and what it looks like. -/
def signals (p : Placement) : List Signal :=
  .addToStore p.entity.raw p.decl.name 0 ::
    List.zipWith (fun name e => .addToStore e.raw name p.entity.raw)
      p.decl.links p.links ++ [.loadPlugins p.entity p.decl.toElement]

theorem map_entity_additions (p : Placement) :
    p.additions.map Addition.entity = p.entities := by
  have hlinks :
      (List.zipWith (fun name e => (⟨e, name, some p.entity⟩ : Addition))
        p.decl.links
      p.links).map Addition.entity = p.links := by
    rw [List.map_zipWith, ← List.map_uncurry_zip_eq_zipWith]
    exact List.map_snd_zip (Nat.le_of_eq p.length_links)
  exact congrArg (p.entity :: ·) hlinks

theorem map_entity_flatMap (placed : List Placement) :
    (placed.flatMap additions).map Addition.entity =
      placed.flatMap entities := by
  rw [List.map_flatMap]
  exact congrArg (placed.flatMap ·) (funext map_entity_additions)

theorem map_signal_stages (p : Placement) :
    p.stages.map Stage.signal = p.signals := by
  have hsignals : p.additions.map (Stage.signal ∘ Stage.add) =
      .addToStore p.entity.raw p.decl.name 0 ::
        List.zipWith (fun name e => .addToStore e.raw name p.entity.raw)
          p.decl.links p.links := by
    rw [additions, List.map_cons, List.map_zipWith]
    rfl
  rw [stages, List.map_append, List.map_map, hsignals]
  rfl

end Placement

/-- A store that comes from another by a scene, whose models and links are
placed there: each is a new entity with its own components and no others,
nothing else is changed, and the numbers of the new entities differ from each
other and from zero. -/
structure SpawnedAs (s : Store) (scene : Scene) (placed : List Placement)
    (t : Store) : Prop where
  fresh : ∀ e ∈ placed.flatMap Placement.entities, s.has e = false
  distinct : (placed.flatMap Placement.entities).Nodup
  models : ∀ p ∈ placed, t.record? p.entity = some { isModel := true,
                                                     name := some p.decl.name }
  links : ∀ p ∈ placed, ∀ (i : Nat) (e : Entity) (name : String),
    p.links[i]? = some e →
    p.decl.links[i]? = some name →
      t.record? e = some { isLink := true, name := some name,
                           parent := some p.entity }
  kept : ∀ e, e ∉ placed.flatMap Placement.entities → t.record? e = s.record? e
  size : t.size = s.size + scene.size
  pending : t.pending = s.pending
  revision : t.revision = s.revision + 3 * scene.models.length +
    4 * (scene.models.flatMap ModelDecl.links).length
  numbered : ∀ e ∈ placed.flatMap Placement.entities, e.raw ≠ 0
  numbers : ((placed.flatMap Placement.entities).map Entity.raw).Nodup
  linkCount : ∀ p ∈ placed,
    (∀ e, s.has e = true → s.parent? e ≠ some p.entity) →
    t.linkCount p.entity = p.decl.links.length

section Spawned

variable {s t : Store} {scene : Scene} {placed : List Placement}

/-- Three changes for a model and four for each of its links. -/
theorem foldl_changes_additions (p : Placement) (n : Nat) :
    p.additions.foldl (fun n a => n + a.changes) n =
      n + 3 + 4 * p.decl.links.length := by
  have hlinks : ∀ (names : List String) (links : List Entity) (n : Nat),
      links.length = names.length →
        (List.zipWith (fun name e => (⟨e, name, some p.entity⟩ : Addition))
          names links).foldl
          (fun n a => n + a.changes) n = n + 4 * names.length := by
    intro names
    induction names with
    | nil => exact fun _ _ _ => rfl
    | cons name names ih =>
        intro links n hlength
        cases links with
        | nil => cases hlength
        | cons e links =>
            rw [List.zipWith_cons_cons, List.foldl_cons,
              ih links _ (Nat.succ.inj hlength)]
            show n + 4 + 4 * names.length = n + 4 * (names.length + 1)
            omega
  rw [Placement.additions, List.foldl_cons, hlinks _ _ _ p.length_links]
  rfl

/-- Three changes for each model and four for each link. -/
theorem foldl_changes (h : placed.map Placement.decl = scene.models) (n : Nat) :
    (placed.flatMap Placement.additions).foldl (fun n a => n + a.changes) n =
      n + 3 * scene.models.length +
        4 * (scene.models.flatMap ModelDecl.links).length := by
  rw [← h]
  clear h
  induction placed generalizing n with
  | nil => rfl
  | cons p placed ih =>
      rw [List.flatMap_cons, List.foldl_append, foldl_changes_additions, ih]
      simp only [List.map_cons, List.length_cons, List.flatMap_cons,
        List.length_append]
      omega

/-- A placement is known by its model. -/
theorem placement_eq_of_entity (hs : s.Sound) (hnamed : scene.WellNamed s)
    (hdecl : placed.map Placement.decl = scene.models)
    (hadds : s.Adds (placed.flatMap Placement.additions) t) {p q : Placement}
    (hp : p ∈ placed) (hq : q ∈ placed) (h : q.entity = p.entity) : q = p := by
  have hown := List.inj_on_of_nodup_map (hadds.nodup hs)
    (List.mem_flatMap.2 ⟨q, hq, q.own_mem_additions⟩)
    (List.mem_flatMap.2 ⟨p, hp, p.own_mem_additions⟩) h
  have hnodup := hnamed.models
  rw [← hdecl, List.map_map] at hnodup
  exact List.inj_on_of_nodup_map hnodup hq hp (congrArg Addition.name hown)

/-- A live link of a new model is one that the model declares. -/
theorem mem_links_iff_of_adds (hs : s.Sound) (ht : t.WithinCapacity)
    (hnamed : scene.WellNamed s)
    (hdecl : placed.map Placement.decl = scene.models)
    (hadds : s.Adds (placed.flatMap Placement.additions) t) {p : Placement}
    (hp : p ∈ placed)
    (hparent : ∀ e, s.has e = true → s.parent? e ≠ some p.entity) (e : Entity) :
    e ∈ t.select (Store.linksOf p.entity) ↔ e ∈ p.links := by
  have hselected : e ∈ t.select (Store.linksOf p.entity) ↔
      ∃ r, t.record? e = some r ∧ r.isLink = true ∧
        r.parent = some p.entity := by
    have hsatisfies : t.satisfies (Store.linksOf p.entity) e = true ↔
        t.isLink e = true ∧ t.parent? e = some p.entity := by
      simp [Store.satisfies, Store.linksOf]
    simp only [Store.mem_select_iff, hsatisfies, Store.record?_eq_some_iff]
    constructor
    · rintro ⟨hlive, hlink, hmodel⟩
      exact ⟨_, ⟨hlive, rfl⟩, hlink, hmodel⟩
    · rintro ⟨r, ⟨hlive, rfl⟩, hlink, hmodel⟩
      exact ⟨hlive, hlink, hmodel⟩
  rw [hselected]
  constructor
  · rintro ⟨r, hr, hlink, hmodel⟩
    -- a link that was added names the model that declares it; one from before
    -- names another
    rcases hadds.record?_cases hs ht e with ⟨a, ha, rfl, hrecord⟩ | ⟨-, hrecord⟩
    · cases hr.symm.trans hrecord
      obtain ⟨q, hq, ha⟩ := List.mem_flatMap.1 ha
      rcases Placement.mem_additions_iff.1 ha with rfl | ⟨i, f, hf, -, heq⟩
      · cases hlink
      · rw [heq] at hmodel ⊢
        cases placement_eq_of_entity hs hnamed hdecl hadds hp hq
          (Option.some.inj hmodel)
        exact List.mem_of_getElem? hf
    · obtain ⟨hlive, rfl⟩ := (Store.record?_eq_some_iff s e r).1 (hrecord ▸ hr)
      exact absurd hmodel (hparent e hlive)
  · intro he
    obtain ⟨i, hi⟩ := List.mem_iff_getElem?.1 he
    have hlt : i < p.decl.links.length := by
      rw [← p.length_links]
      exact (List.getElem?_eq_some_iff.1 hi).1
    have ha : (⟨e, p.decl.links[i], some p.entity⟩ : Addition) ∈ p.additions :=
      Placement.mem_additions_iff.2
        (.inr ⟨i, e, hi, List.getElem?_eq_getElem hlt, rfl⟩)
    exact ⟨_, hadds.record?_of_mem hs ht (List.mem_flatMap.2 ⟨p, hp, ha⟩),
      rfl, rfl⟩

/-- A new model has the links that it declares. -/
theorem linkCount_of_adds (hs : s.Sound) (ht : t.WithinCapacity)
    (hnamed : scene.WellNamed s)
    (hdecl : placed.map Placement.decl = scene.models)
    (hadds : s.Adds (placed.flatMap Placement.additions) t) {p : Placement}
    (hp : p ∈ placed)
    (hparent : ∀ e, s.has e = true → s.parent? e ≠ some p.entity) :
    t.linkCount p.entity = p.decl.links.length := by
  have hselected : (t.select (Store.linksOf p.entity)).Nodup :=
    (t.select_sorted _).imp fun hlt heq =>
      Nat.ne_of_lt hlt (congrArg Entity.index heq)
  have hlinks : p.links.Nodup := by
    have hnodup := hadds.nodup hs
    rw [Placement.map_entity_flatMap, List.nodup_flatMap] at hnodup
    exact (List.nodup_cons.1 (hnodup.1 p hp)).2
  have hperm := (List.perm_ext_iff_of_nodup hselected hlinks).2
    (mem_links_iff_of_adds hs ht hnamed hdecl hadds hp hparent)
  exact hperm.length_eq.trans p.length_links

/-- What is placed by additions is what a scene is to leave. -/
theorem spawnedAs_of_adds (hs : s.Sound) (ht : t.WithinCapacity)
    (hnamed : scene.WellNamed s)
    (hdecl : placed.map Placement.decl = scene.models)
    (hadds : s.Adds (placed.flatMap Placement.additions) t) :
    SpawnedAs s scene placed t := by
  have hentities := Placement.map_entity_flatMap placed
  have hdistinct := hadds.nodup hs
  rw [hentities] at hdistinct
  have hrecord : ∀ p ∈ placed, ∀ a ∈ p.additions,
      t.record? a.entity = some a.record :=
    fun p hp a ha => hadds.record?_of_mem hs ht (List.mem_flatMap.2 ⟨p, hp, ha⟩)
  have hadded : ∀ e ∈ placed.flatMap Placement.entities,
      ∃ a ∈ placed.flatMap Placement.additions, a.entity = e := by
    intro e he
    rw [← hentities] at he
    exact List.mem_map.1 he
  have hlive : ∀ e ∈ placed.flatMap Placement.entities, t.has e = true := by
    intro e he
    obtain ⟨a, ha, rfl⟩ := hadded e he
    exact ((Store.record?_eq_some_iff t _ _).1
      (hadds.record?_of_mem hs ht ha)).1
  refine { fresh := ?_, distinct := hdistinct
           models := fun p hp => hrecord p hp _ p.own_mem_additions
           links := ?_, kept := ?_, size := ?_, pending := hadds.pending,
           revision := ?_
           numbered := fun e _ => Nat.ne_of_gt e.raw_pos, numbers := ?_
           linkCount := fun p hp =>
             linkCount_of_adds hs ht hnamed hdecl hadds hp }
  · intro e he
    obtain ⟨a, ha, rfl⟩ := hadded e he
    exact hadds.not_has hs ha
  · intro p hp i e name he hname
    exact hrecord p hp ⟨e, name, some p.entity⟩
      (Placement.mem_additions_iff.2 (.inr ⟨i, e, he, hname, rfl⟩))
  · intro e he
    rw [← hentities] at he
    exact hadds.record?_of_not_mem hs ht he
  · rw [hadds.size hs, Scene.length_additions hdecl]
  · rw [hadds.revision hs, foldl_changes hdecl]
  · exact List.Nodup.map_on (fun e he f hf heq =>
      Store.eq_of_raw_eq_of_has ht (hlive e he) (hlive f hf) heq) hdistinct

end Spawned

/-- Spawning a well-named scene returns if no listener has a panic among its
actions or those of the listeners that it connects. Whenever it returns, its
models and links have been placed in the store and nothing else there has
changed. What was announced, in this order, is every model with number zero for
a parent, each of its links with the number of the model, and then the model as
it is described; and what is returned are the plugins of the models, in their
order. -/
theorem spawned_of_spawnScene {ref : StoreRef} {w : World} {s : Store}
    (hs : w.store? ref = some s) (hsound : s.Sound) (b : Nat) (scene : Scene)
    (hcapacity : ∀ t, ((spawnScene ref b scene).left w).store? ref = some t →
      t.WithinCapacity) :
    (w.Tame → scene.WellNamed s →
      ∃ plugins v, (spawnScene ref b scene).run w = .ok (.ok plugins) v) ∧
    ∀ plugins v, (spawnScene ref b scene).run w = .ok (.ok plugins) v →
      ∃ placed stages t, placed.map Placement.decl = scene.models ∧
        plugins = placed.flatMap Placement.plugins ∧
        Staged (perform (w.weight + 1)) ref b w stages v ∧
        stages.map Stage.signal = placed.flatMap Placement.signals ∧
        v.store? ref = some t ∧ SpawnedAs s scene placed t := by
  refine ⟨fun htame =>
    exists_run_of_wellNamed b hs (not_spawningInterrupted b htame),
    fun plugins v hrun => ?_⟩
  have hnamed : scene.WellNamed s := wellNamed_of_run hs hrun
  obtain ⟨hstaged, placed, hdecl, hplugins, hstages⟩ :=
    (proceeds_scene b hs hnamed).of_ok hrun
  cases hplugins
  rw [hstages] at hstaged
  obtain ⟨t, ht, hadds⟩ := hstaged.store hs
  rw [filterMap_stages] at hadds
  have htcapacity : t.WithinCapacity :=
    hcapacity t ((left_of_ok hrun).symm ▸ ht)
  refine ⟨placed, _, t, hdecl, rfl, hstaged, ?_, ht,
    spawnedAs_of_adds hsound htcapacity hnamed hdecl hadds⟩
  rw [List.map_flatMap]
  exact congrArg (placed.flatMap ·) (funext Placement.map_signal_stages)

/-- A scene of two models, one of them with plugins, is spawned into a store
with a slot that was freed and a removal that was asked for. The listener that
hears of the models connects another. -/
theorem spawned_into_reused_slot :
    let w := Session.after {}
      [⟨.runner 0, .makeRunner (some 0) defaultStep none⟩,
      ⟨.runner 0, .act (.onStore (.spawn "crane" ["hook"] (some "crane")))⟩,
      ⟨.runner 0, .act (.onStore (.remove (.label "crane.hook")))⟩,
      ⟨.runner 0, .act (.onStore .process)⟩,
      ⟨.runner 0, .act (.onStore (.remove (.label "crane")))⟩,
      ⟨.runner 0,
        .act (.connect 0 .addToStore "ear"
          [.connect 0 .loadPlugins "late" [] 1] 2)⟩]
    let weld : PluginDecl := ⟨"weld", .ofList [("strength", .integer 3)]⟩
    let scene : Scene :=
      ⟨[{ name := "cart", links := ["body", "eye"], plugins := [weld, weld] },
      { name := "boat", links := ["keel"] }]⟩
    ∃ s, w.store? (.runner 0) = some s ∧ s.Sound ∧ w.Tame ∧ scene.WellNamed s ∧
      ∃ v placed stages t,
        (spawnScene (.runner 0) 0 scene).run w =
          .ok (.ok [⟨⟨2, 1⟩, weld.toElement⟩, ⟨⟨2, 1⟩, weld.toElement⟩]) v ∧
        placed.map Placement.decl = scene.models ∧
        Staged (perform (w.weight + 1)) (.runner 0) 0 w stages v ∧
        stages.map Stage.signal = placed.flatMap Placement.signals ∧
        v.store? (.runner 0) = some t ∧ SpawnedAs s scene placed t ∧
        t.linkCount ⟨2, 1⟩ = 2 := by
  intro w weld scene
  have hstore : (w.store? (.runner 0)).isSome = true := by decide +kernel
  obtain ⟨s, hs⟩ := Option.isSome_iff_exists.1 hstore
  have hsound : s.Sound := (Session.sound_after _).stores hs
  have htame : w.Tame := by
    have hall : w.players.all (fun p => Action.allTame p.script) = true := by
      decide +kernel
    exact List.all_eq_true.1 hall
  have hcheck : ∀ s ∈ w.store? (.runner 0), scene.check s = .ok () := by
    decide +kernel
  have hspawned : EStateM.run' (spawnScene (.runner 0) 0 scene) w =
      some (.ok [⟨⟨2, 1⟩, weld.toElement⟩, ⟨⟨2, 1⟩, weld.toElement⟩]) := by
    decide +kernel
  have hslots : ∀ t ∈ ((spawnScene (.runner 0) 0 scene).left w).store?
      (.runner 0),
      t.pool.slots.length = 6 := by decide +kernel
  have hcount : ∀ t ∈ ((spawnScene (.runner 0) 0 scene).left w).store?
      (.runner 0),
      t.linkCount ⟨2, 1⟩ = 2 := by decide +kernel
  have hcapacity : ∀ t,
      ((spawnScene (.runner 0) 0 scene).left w).store? (.runner 0) = some t →
      t.WithinCapacity := by
    intro t ht
    show t.pool.slots.length < 2 ^ 32 - 1
    rw [hslots t ht]
    omega
  have hnamed := Scene.check_eq_ok_iff_wellNamed.1 (hcheck s hs)
  obtain ⟨hreturns, hall⟩ := spawned_of_spawnScene hs hsound 0 scene hcapacity
  obtain ⟨plugins, v, hrun⟩ := hreturns htame hnamed
  cases (run_of_run' hspawned).symm.trans hrun
  obtain ⟨placed, stages, t, hdecl, -, hstaged, hsignals, ht, hspawnedAs⟩ :=
    hall _ _ hrun
  have hleft := (left_of_ok hrun).symm ▸ ht
  exact ⟨s, hs, hsound, htame, hnamed, _, placed, stages, t, hrun, hdecl,
    hstaged, hsignals, ht, hspawnedAs, hcount t hleft⟩

end Linkage
