import Linkage.Proofs.Scene.Spawning
import Linkage.Proofs.World.Moments
import Linkage.Proofs.World.Settling

/-!
# Which scenes are admitted

A scene is admitted to a store if its names tell everything apart: no two of its
models have the same name, no live model of the store has the name of one of
them, and no two links of a model have the same name. An entity whose removal
was asked for is live until the removal is applied, so its name still counts.

Any other scene is refused for its first offence. The models are looked at in
order, and of each its own name before those of its links. Refusing a scene
leaves the whole world as it was. A scene that is admitted is spawned, unless
one of the announcements that this makes breaks off.

## Main results

* `Scene.check_eq_ok_iff_wellNamed`, `Scene.check_eq_error_iff`: what the check
  decides.
* `Staged.tameWithin`: listeners that do not panic stay so while a scene is
  spawned.
* `admission_of_spawnScene`: which scenes are spawned, and why the others are
  refused.
-/

namespace Linkage

open Act World

namespace Scene

/-- The names of a scene are free in a store and tell apart what they name. -/
structure WellNamed (scene : Scene) (s : Store) : Prop where
  models : (scene.models.map ModelDecl.name).Nodup
  free : ∀ m ∈ scene.models, ∀ e, s.has e = true → ¬ s.ModelNamed m.name e
  links : ∀ m ∈ scene.models, m.links.Nodup

/-- What is wrong with the names of a model in a store, where some names have
been used before: its own name is taken, or else one of its links is the first
to repeat the name of an earlier one. -/
inductive Offends (s : Store) (used : List String) (m : ModelDecl) :
    DuplicateName → Prop
  | model (taken : (∃ e, s.has e = true ∧ s.ModelNamed m.name e) ∨
      m.name ∈ used) :
      Offends s used m (.model m.name)
  | link {earlier later : List String} {name : String}
      (free : ∀ e, s.has e = true → ¬ s.ModelNamed m.name e)
      (new : m.name ∉ used) (links : m.links = earlier ++ name :: later)
      (distinct : earlier.Nodup) (repeats : name ∈ earlier) :
      Offends s used m (.link name)

/-- The first model with an offence, after models that are well named, offends
with the name. -/
def FirstOffence (scene : Scene) (s : Store) (name : DuplicateName) : Prop :=
  ∃ before m after, scene.models = before ++ m :: after ∧ WellNamed ⟨before⟩ s ∧
    Offends s (before.map ModelDecl.name) m name

section Check

variable {s : Store} {scene : Scene}

theorem first?_modelNamed_eq_none_iff (name : String) :
    s.first? (Store.modelNamed name) = none ↔
      ∀ e, s.has e = true → ¬ s.ModelNamed name e := by
  simp only [Store.first?_eq_none_iff, Store.satisfies_modelNamed_iff]

/-- The check is passed by the scenes that are well named. -/
theorem check_eq_ok_iff_wellNamed :
    scene.check s = .ok () ↔ scene.WellNamed s := by
  simp only [check_eq_ok_iff, first?_modelNamed_eq_none_iff]
  exact ⟨fun ⟨hfree, hmodels, hlinks⟩ => ⟨hmodels, hfree, hlinks⟩,
    fun ⟨hmodels, hfree, hlinks⟩ => ⟨hfree, hmodels, hlinks⟩⟩

/-- The first name that repeats an earlier one comes after names that differ. -/
theorem exists_of_firstRepeated {seen names : List String} {name : String}
    (h : firstRepeated seen names = some name) : ∃ earlier later,
      names = earlier ++ name :: later ∧ firstRepeated seen earlier = none ∧
        (name ∈ earlier ∨ name ∈ seen) := by
  induction names generalizing seen with
  | nil => cases h
  | cons first names ih =>
      unfold firstRepeated at h
      split at h
      · next hseen =>
        cases h
        exact ⟨[], names, rfl, rfl, .inr (by simpa using hseen)⟩
      · next hseen =>
        obtain ⟨earlier, later, rfl, hnone, hmem⟩ := ih h
        refine ⟨first :: earlier, later, rfl, ?_, ?_⟩
        · rw [firstRepeated, if_neg hseen, hnone]
        · rcases hmem with hmem | hmem
          · exact .inl (List.mem_cons_of_mem first hmem)
          · rcases List.mem_cons.1 hmem with rfl | hmem
            · exact .inl List.mem_cons_self
            · exact .inr hmem

theorem Offends.congr {used used' : List String} {m : ModelDecl}
    {name : DuplicateName} (h : Offends s used m name)
    (hused : ∀ n, n ∈ used ↔ n ∈ used') : Offends s used' m name := by
  cases h with
  | model taken => exact .model (taken.imp_right (hused _).1)
  | link free new links distinct repeats =>
      exact .link free (fun hmem => new ((hused _).2 hmem)) links
        distinct repeats

/-- The check finds a model that offends after models that do not. -/
theorem exists_of_firstDuplicate {seen : List String} {models : List ModelDecl}
    {name : DuplicateName} (h : firstDuplicate s seen models = some name) :
    ∃ before m after, models = before ++ m :: after ∧
      firstDuplicate s seen before = none ∧
      Offends s (before.map ModelDecl.name ++ seen) m name := by
  induction models generalizing seen with
  | nil => cases h
  | cons m models ih =>
      unfold firstDuplicate at h
      split at h
      · next htaken =>
        cases h
        refine ⟨[], m, models, rfl, rfl, .model ?_⟩
        rcases Bool.or_eq_true_iff.1 htaken with htaken | htaken
        · obtain ⟨e, he⟩ := Option.isSome_iff_exists.1 htaken
          have hfirst := (Store.first?_modelNamed_eq_some_iff m.name e).1 he
          exact .inl ⟨e, hfirst.live, hfirst.holds⟩
        · exact .inr (by simpa using htaken)
      · next htaken =>
        have hfree : s.first? (Store.modelNamed m.name) = none ∧
            m.name ∉ seen := by
          simpa using htaken
        split at h
        · next link hlink =>
          cases h
          obtain ⟨earlier, later, hlinks, hnone, hmem⟩ :=
            exists_of_firstRepeated hlink
          refine ⟨[], m, models, rfl, rfl, .link ?_ hfree.2 hlinks ?_ ?_⟩
          · exact (first?_modelNamed_eq_none_iff m.name).1 hfree.1
          · exact ((firstRepeated_eq_none_iff [] earlier).1 hnone).1
          · simpa using hmem
        · next hlinks =>
          obtain ⟨before, m', after, rfl, hnone, hoffends⟩ := ih h
          refine ⟨m :: before, m', after, rfl, ?_, hoffends.congr fun n => ?_⟩
          · rw [firstDuplicate, if_neg htaken]
            simp only [hlinks, hnone]
          · simp [or_left_comm]

theorem firstOffence_of_check {name : DuplicateName}
    (h : scene.check s = .error name) :
    scene.FirstOffence s name := by
  have hduplicate : firstDuplicate s [] scene.models = some name := by
    unfold check at h
    split at h
    · next found hfound => cases h; exact hfound
    · cases h
  obtain ⟨before, m, after, hmodels, hnone, hoffends⟩ :=
    exists_of_firstDuplicate hduplicate
  refine ⟨before, m, after, hmodels, ?_, by simpa using hoffends⟩
  have hcheck : check ⟨before⟩ s = .ok () := by
    unfold check
    rw [hnone]
  exact check_eq_ok_iff_wellNamed.1 hcheck

/-- No offence is found where all names tell apart what they name. -/
theorem WellNamed.not_offends {before after : List ModelDecl} {m : ModelDecl}
    {name : DuplicateName} (h : WellNamed ⟨before ++ m :: after⟩ s) :
    ¬ Offends s (before.map ModelDecl.name) m name := by
  have hm : m ∈ before ++ m :: after := by simp
  have hnew : m.name ∉ before.map ModelDecl.name := by
    have hnodup := h.models
    rw [List.map_append, List.map_cons, List.nodup_append] at hnodup
    exact fun hmem => hnodup.2.2 m.name hmem m.name List.mem_cons_self rfl
  intro hoffends
  cases hoffends with
  | model taken =>
      rcases taken with ⟨e, hlive, hnamed⟩ | hmem
      · exact h.free m hm e hlive hnamed
      · exact hnew hmem
  | link free new links distinct repeats =>
      have hnodup := h.links m hm
      rw [links, List.nodup_append] at hnodup
      exact hnodup.2.2 _ repeats _ List.mem_cons_self rfl

theorem Offends.unique {used : List String} {m : ModelDecl}
    {name other : DuplicateName} (h : Offends s used m name)
    (h' : Offends s used m other) : name = other := by
  have hexcludes :
      ((∃ e, s.has e = true ∧ s.ModelNamed m.name e) ∨ m.name ∈ used) →
      (∀ e, s.has e = true → ¬ s.ModelNamed m.name e) →
      m.name ∉ used → False := by
    rintro (⟨e, hlive, hnamed⟩ | hmem) hfree hnew
    · exact hfree e hlive hnamed
    · exact hnew hmem
  -- what comes before the first link that repeats another holds no link that
  -- does
  have hnot : ∀ {earlier other : List String} {name : String},
      name ∈ earlier → other.Nodup →
      ¬ earlier ++ [name] <+: other := by
    intro earlier other name hmem hnodup hprefix
    have hsplit := hprefix.sublist.nodup hnodup
    rw [List.nodup_append] at hsplit
    exact hsplit.2.2 name hmem name List.mem_cons_self rfl
  cases h with
  | model taken =>
      cases h' with
      | model _ => rfl
      | link free new => exact (hexcludes taken free new).elim
  | link free new links distinct repeats =>
      cases h' with
      | model taken => exact (hexcludes taken free new).elim
      | link _ _ links' distinct' repeats' =>
          obtain ⟨-, rfl⟩ :=
            eq_of_splits (links.symm.trans links') (hnot repeats distinct')
            (hnot repeats' distinct)
          rfl

/-- There is one first offence at most. -/
theorem FirstOffence.unique {name other : DuplicateName}
    (h : scene.FirstOffence s name) (h' : scene.FirstOffence s other) :
    name = other := by
  obtain ⟨before, m, after, hmodels, hnamed, hoffends⟩ := h
  obtain ⟨before', m', after', hmodels', hnamed', hoffends'⟩ := h'
  have hnot : ∀ {before other : List ModelDecl} {m : ModelDecl}
      {name : DuplicateName},
      Offends s (before.map ModelDecl.name) m name → WellNamed ⟨other⟩ s →
        ¬ before ++ [m] <+: other := by
    rintro before other m name hoffends hnamed ⟨rest, rfl⟩
    rw [List.append_assoc] at hnamed
    exact hnamed.not_offends hoffends
  obtain ⟨rfl, rfl⟩ :=
    eq_of_splits (hmodels.symm.trans hmodels') (hnot hoffends hnamed')
    (hnot hoffends' hnamed)
  exact hoffends.unique hoffends'

theorem check_eq_error_iff {name : DuplicateName} :
    scene.check s = .error name ↔ scene.FirstOffence s name := by
  refine ⟨firstOffence_of_check, fun h => ?_⟩
  cases hcheck : scene.check s with
  | ok _ =>
      obtain ⟨before, m, after, hmodels, -, hoffends⟩ := h
      obtain ⟨models⟩ := scene
      cases hmodels
      exact absurd hoffends (check_eq_ok_iff_wellNamed.1 hcheck).not_offends
  | error other => rw [(firstOffence_of_check hcheck).unique h]

/-- A scene has a first offence exactly if it is not well named. -/
theorem exists_firstOffence_iff : (∃ name, scene.FirstOffence s name) ↔
    ¬ scene.WellNamed s := by
  constructor
  · rintro ⟨name, before, m, after, hmodels, -, hoffends⟩ hnamed
    obtain ⟨models⟩ := scene
    cases hmodels
    exact hnamed.not_offends hoffends
  · intro hnot
    cases hcheck : scene.check s with
    | ok _ => exact absurd (check_eq_ok_iff_wellNamed.1 hcheck) hnot
    | error name => exact ⟨name, firstOffence_of_check hcheck⟩

end Check

end Scene

/-! ## Listeners that do not panic -/

namespace World

/-- No listener of the world has a panic among its actions. -/
def Tame (w : World) : Prop := ∀ p ∈ w.players, Action.allTame p.script = true

theorem Tame.within {w : World} (h : w.Tame) : w.TameWithin w.weight :=
  { tame := h, weight := Nat.le_refl _ }

end World

section Tame

variable {ref : StoreRef} {b depth n : Nat} {u v w : World} {s : Store}

theorem Stage.tameWithin_enter (h : w.TameWithin n) (stage : Stage) :
    (stage.enter ref s w).TameWithin n := by
  cases stage with
  | add a => exact h.of_players (Mirror.silent_setStore w ref _).players
  | complete model decl => exact h.of_players rfl

/-- Spawning adds no listeners but those that listeners connect. -/
theorem Staged.tameWithin {stages : List Stage}
    (h : Staged (perform depth) ref b u stages w) (hu : u.TameWithin n)
    (hn : n ≤ depth) : w.TameWithin n := by
  induction h with
  | refl => exact hu
  | @next stages stage v w s m before store follows announced ih =>
      obtain ⟨k, w', hrun, hw'⟩ :=
        emitOn_settles hn b stage.signal _ (Stage.tameWithin_enter ih stage)
      cases announced.symm.trans hrun
      exact hw'

/-- Where no listener panics, no announcement of a scene breaks off. -/
theorem not_interrupted {plan : List Stage} {cause : Panic}
    (hu : u.TameWithin n) (hn : n ≤ depth) :
    ¬ Interrupted (perform depth) ref b u plan cause w := by
  rintro ⟨before, stage, later, rfl, v, s, hstaged, -, -, hbroken⟩
  obtain ⟨k, w', hrun, -⟩ := emitOn_settles hn b stage.signal _
    (Stage.tameWithin_enter (hstaged.tameWithin hu hn) stage)
  cases hbroken.symm.trans hrun

end Tame

/-! ## Spawning -/

section Spawning

variable {ref : StoreRef} {w : World} {s : Store} {scene : Scene}

/-- The scene is well named, and one of the announcements that spawning it makes
breaks off. -/
structure SpawningInterrupted (ref : StoreRef) (b : Nat) (w : World) (s : Store)
    (scene : Scene) (cause : Panic) (v : World) : Prop where
  named : scene.WellNamed s
  interrupted : Interrupted (perform (w.weight + 1)) ref b w
    (scene.stages s) cause v

/-- A scene that is well named goes through its stages, or an announcement
breaks off. -/
theorem proceeds_scene (b : Nat) (hs : w.store? ref = some s)
    (h : scene.WellNamed s) :
    Proceeds (perform (w.weight + 1)) ref b (spawnScene ref b scene) w
      (scene.stages s)
      fun result => ∃ placed : List Placement,
        placed.map Placement.decl = scene.models ∧
        result = .ok (placed.flatMap Placement.plugins) ∧
          scene.stages s = placed.flatMap Placement.stages := by
  have hrun : (spawnScene ref b scene).run w =
      (spawnModels (perform (w.weight + 1)) ref b
        scene.models >>= fun plugins =>
        pure (.ok plugins)).run w := by
    unfold spawnScene
    rw [run_get_bind, hs]
    simp only [Option.getD_some, Scene.check_eq_ok_iff_wellNamed.2 h]
    exact run_settled 0 _ w
  refine Proceeds.of_run hrun ((proceeds_models scene.models hs).map ?_)
  rintro plugins ⟨placed, hdecl, rfl, hstages⟩
  exact ⟨placed, hdecl, rfl, hstages⟩

/-- A scene that is not well named is refused for its first offence, and nothing
happens. -/
theorem run_spawnScene_of_offence (b : Nat) {name : DuplicateName}
    (hs : w.store? ref = some s) (h : scene.FirstOffence s name) :
    (spawnScene ref b scene).run w = .ok (.error name) w := by
  unfold spawnScene
  rw [run_get_bind, hs, Option.getD_some, Scene.check_eq_error_iff.2 h]
  rfl

/-- Only scenes that are well named are spawned. -/
theorem wellNamed_of_run {b : Nat} {plugins : List PendingPlugin} {v : World}
    (hs : w.store? ref = some s)
    (h : (spawnScene ref b scene).run w = .ok (.ok plugins) v) :
    scene.WellNamed s :=
  Scene.check_eq_ok_iff_wellNamed.1 (spawns_of_run hs h).1

/-- Spawning a scene breaks off exactly if one of its announcements does. -/
theorem run_spawnScene_eq_error_iff (b : Nat) {cause : Panic} {v : World}
    (hs : w.store? ref = some s) :
    (spawnScene ref b scene).run w = .error cause v ↔
      SpawningInterrupted ref b w s scene cause v := by
  by_cases hnamed : scene.WellNamed s
  · rw [(proceeds_scene b hs hnamed).eq_error_iff]
    exact ⟨fun h => ⟨hnamed, h⟩, fun h => h.interrupted⟩
  · obtain ⟨name, hname⟩ := Scene.exists_firstOffence_iff.2 hnamed
    rw [run_spawnScene_of_offence b hs hname]
    exact ⟨nofun, fun h => absurd h.named hnamed⟩

theorem not_spawningInterrupted (b : Nat) (h : w.Tame) :
    ¬ ∃ cause v, SpawningInterrupted ref b w s scene cause v :=
  fun ⟨_, _, hbroken⟩ =>
    not_interrupted h.within (Nat.le_succ _) hbroken.interrupted

/-- A scene that is well named is spawned, unless one of its announcements
breaks off. -/
theorem exists_run_of_wellNamed (b : Nat) (hs : w.store? ref = some s)
    (hunbroken : ¬ ∃ cause v, SpawningInterrupted ref b w s scene cause v)
    (h : scene.WellNamed s) :
    ∃ plugins v, (spawnScene ref b scene).run w = .ok (.ok plugins) v := by
  rcases proceeds_scene b hs h with ⟨result, v, hrun, -, placed, -, rfl, -⟩ |
    ⟨cause, v, -, hbroken⟩
  · exact ⟨_, v, hrun⟩
  · exact absurd ⟨cause, v, h, hbroken⟩ hunbroken

end Spawning

/-- Whatever the world and whoever listens, spawning a scene returns an error
exactly if the scene is not well named, and then the error is the first offence
and the world is as it was: nothing has been added and nothing announced. A
scene that is well named is spawned, unless one of its own announcements breaks
off. Spawning breaks off exactly when one of them does, for the same cause and
in the same world; and none does if no listener has a panic among its actions or
those of the listeners that it connects. -/
theorem admission_of_spawnScene {ref : StoreRef} {w : World} {s : Store}
    (hs : w.store? ref = some s) (b : Nat) (scene : Scene) :
    (∀ name v, (spawnScene ref b scene).run w = .ok (.error name) v ↔
      scene.FirstOffence s name ∧ v = w) ∧
    ((∃ name, scene.FirstOffence s name) ↔ ¬ scene.WellNamed s) ∧
    ((¬ ∃ cause v, SpawningInterrupted ref b w s scene cause v) →
      ((∃ plugins v, (spawnScene ref b scene).run w = .ok (.ok plugins) v) ↔
        scene.WellNamed s)) ∧
    (∀ cause v, (spawnScene ref b scene).run w = .error cause v ↔
      SpawningInterrupted ref b w s scene cause v) ∧
    (w.Tame → ¬ ∃ cause v, SpawningInterrupted ref b w s scene cause v) := by
  refine ⟨fun name v => ⟨fun hrun => ?_, ?_⟩, Scene.exists_firstOffence_iff,
    fun hunbroken => ?_,
    fun cause v => run_spawnScene_eq_error_iff b hs, not_spawningInterrupted b⟩
  · by_cases hnamed : scene.WellNamed s
    · obtain ⟨-, placed, -, hresult, -⟩ :=
        (proceeds_scene b hs hnamed).of_ok hrun
      cases hresult
    · obtain ⟨other, hother⟩ := Scene.exists_firstOffence_iff.2 hnamed
      cases hrun.symm.trans (run_spawnScene_of_offence b hs hother)
      exact ⟨hother, rfl⟩
  · rintro ⟨hname, rfl⟩
    exact run_spawnScene_of_offence b hs hname
  · exact ⟨fun ⟨plugins, v, hrun⟩ => wellNamed_of_run hs hrun,
      exists_run_of_wellNamed b hs hunbroken⟩

/-- A store has a crane whose removal has been asked for, and a listener that
connects another. A scene with another crane is refused for a repeated link that
comes before it; without the repeated link it is refused for the crane; without
the crane it is spawned. -/
theorem admission_of_three_scenes :
    let w := Session.after {}
      [⟨.runner 0, .makeRunner (some 0) defaultStep none⟩,
      ⟨.runner 0, .act (.onStore (.spawn "crane" ["hook"] (some "crane")))⟩,
      ⟨.runner 0, .act (.onStore (.remove (.label "crane")))⟩,
      ⟨.runner 0,
        .act (.connect 0 .addToStore "ear"
          [.connect 0 .loadPlugins "late" [] 1] 2)⟩]
    let cart : ModelDecl := { name := "cart", links := ["body", "eye"] }
    let boat : ModelDecl :=
      { name := "boat", links := ["keel", "mast", "keel"] }
    let crane : ModelDecl := { name := "crane" }
    ∃ s, w.store? (.runner 0) = some s ∧ w.Tame ∧
      Scene.FirstOffence ⟨[cart, boat, crane]⟩ s (.link "keel") ∧
      Scene.FirstOffence ⟨[cart, crane]⟩ s (.model "crane") ∧
      Scene.WellNamed ⟨[cart]⟩ s ∧
      ∃ plugins v, (spawnScene (.runner 0) 0 ⟨[cart]⟩).run w =
        .ok (.ok plugins) v := by
  intro w cart boat crane
  have hstore : (w.store? (.runner 0)).isSome = true := by decide +kernel
  obtain ⟨s, hs⟩ := Option.isSome_iff_exists.1 hstore
  have htame : w.Tame := by
    have hall : w.players.all (fun p => Action.allTame p.script) = true := by
      decide +kernel
    exact List.all_eq_true.1 hall
  have hlink : EStateM.run' (spawnScene (.runner 0) 0 ⟨[cart, boat, crane]⟩) w =
      some (.error (.link "keel")) := by decide +kernel
  have hmodel : EStateM.run' (spawnScene (.runner 0) 0 ⟨[cart, crane]⟩) w =
      some (.error (.model "crane")) := by decide +kernel
  have hspawned : EStateM.run' (spawnScene (.runner 0) 0 ⟨[cart]⟩) w =
      some (.ok []) := by
    decide +kernel
  obtain ⟨hoffence, -⟩ := admission_of_spawnScene hs 0 ⟨[cart, boat, crane]⟩
  obtain ⟨hoffence', -⟩ := admission_of_spawnScene hs 0 ⟨[cart, crane]⟩
  obtain ⟨-, -, hadmits, -, hunbroken⟩ := admission_of_spawnScene hs 0 ⟨[cart]⟩
  have hrun := run_of_run' hspawned
  exact ⟨s, hs, htame, ((hoffence _ _).1 (run_of_run' hlink)).1,
    ((hoffence' _ _).1 (run_of_run' hmodel)).1,
    (hadmits (hunbroken htame)).1 ⟨_, _, hrun⟩,
    _, _, hrun⟩

/-- A scene that is well named need not be spawned: a listener that hears of its
first model may panic, and then spawning it does not return. -/
theorem not_spawned_of_panic :
    ¬ ∀ (w : World) (ref : StoreRef) (s : Store) (b : Nat) (scene : Scene),
      w.Reachable →
      w.store? ref = some s → scene.WellNamed s →
        ∃ plugins v, (spawnScene ref b scene).run w = .ok (.ok plugins) v := by
  intro hreturns
  let w := Session.after {} [⟨.runner 0, .makeRunner (some 0) defaultStep none⟩,
    ⟨.runner 0, .act (.connect 0 .addToStore "ear" [.panic "boom"] 1)⟩]
  have hstore : (w.store? (.runner 0)).isSome = true := by decide +kernel
  obtain ⟨s, hs⟩ := Option.isSome_iff_exists.1 hstore
  have hcheck : ∀ s ∈ w.store? (.runner 0),
      Scene.check ⟨[{ name := "cart" }]⟩ s = .ok () := by
    decide +kernel
  obtain ⟨plugins, v, hrun⟩ := hreturns w (.runner 0) s 0 ⟨[{ name := "cart" }]⟩
    (Session.reachable_after _) hs
      (Scene.check_eq_ok_iff_wellNamed.1 (hcheck s hs))
  have hbroken :
      (EStateM.run' (spawnScene (.runner 0) 0 ⟨[{ name := "cart" }]⟩)
        w).isNone = true := by
    decide +kernel
  unfold EStateM.run' at hbroken
  rw [hrun] at hbroken
  cases hbroken

end Linkage
