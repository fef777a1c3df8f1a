import Linkage.Proofs.Scene.Stages

/-!
# Spawning a scene

Spawning a scene goes through many worlds: an entity is added to the store, the
addition is announced, listeners react, and so on for every model and link.
Since listeners cannot touch the store, the additions are those that the scene
asks for, one right after the other, whatever is announced in between.

## Main results

* `Spawns.store`: the store comes from the one before by the additions.
* `spawns_of_run`: what a scene that is accepted adds, and the plugins it gives.
-/

namespace Linkage

open Act World

/-- From one world to another by additions to a store, each of which is
announced, and by the other things that are logged and announced while a scene
is spawned. -/
inductive Spawns (performer : Performer) (ref : StoreRef)
    (b : Nat) (u : World) :
    List Addition → World → Prop
  | refl : Spawns performer ref b u [] u
  | report {as : List Addition} {v : World}
      (before : Spawns performer ref b u as v) (entries : Log) :
      Spawns performer ref b u as (v.report entries)
  | load {as : List Addition} {v w : World} {n : Nat} {e : Entity}
      {element : Element} (before : Spawns performer ref b u as v)
      (announced : (emitOn performer b (.loadPlugins e element)).run v =
        .ok n w) :
      Spawns performer ref b u as w
  | add {as : List Addition} {v w : World} {s : Store} {n : Nat} {name : String}
      {parent : Option Entity} (before : Spawns performer ref b u as v)
      (store : v.store? ref = some s)
      (announced :
        (emitOn performer b (Addition.signal ⟨s.create.1, name, parent⟩)).run
        (v.setStore ref (s.added name parent)) = .ok n w) :
      Spawns performer ref b u (as ++ [⟨s.create.1, name, parent⟩]) w

variable {ref : StoreRef} {b depth : Nat}

namespace Spawns

variable {performer : Performer} {u v w : World} {as bs : List Addition}

theorem trans (h : Spawns performer ref b u as v)
    (h' : Spawns performer ref b v bs w) :
    Spawns performer ref b u (as ++ bs) w := by
  induction h' with
  | refl => rwa [List.append_nil]
  | report _ entries ih => exact .report ih entries
  | load _ announced ih => exact .load ih announced
  | add _ store announced ih =>
      rw [← List.append_assoc]
      exact .add ih store announced

/-- What reactions and changes of the store keep is kept by spawning. -/
theorem keeps {R : World → World → Prop} (hR : Reactive R)
    (hset : ∀ v s, R v (v.setStore ref s))
    (h : Spawns (perform depth) ref b u as w) : R u w := by
  have hemit : ∀ s, Keeps R (emitOn (perform depth) b s) :=
    Session.emit_keeps hR depth b
  induction h with
  | refl => exact hR.refl u
  | report _ entries ih =>
      exact hR.trans ih
        (hR.react (.of_same (.of_buses_eq rfl) rfl rfl rfl rfl rfl rfl rfl))
  | load _ announced ih => exact hR.trans ih ((hemit _).of_ok announced)
  | add _ _ announced ih =>
      exact hR.trans ih (hR.trans (hset _ _) ((hemit _).of_ok announced))

/-- The store comes from the one before by the additions. -/
theorem store {s : Store} (h : Spawns (perform depth) ref b u as w)
    (hs : u.store? ref = some s) :
    ∃ t, w.store? ref = some t ∧ s.Adds as t := by
  have hemit := Session.emit_keeps reaction_reactive depth b
  induction h with
  | refl => exact ⟨s, hs, .nil s⟩
  | report _ entries ih =>
      obtain ⟨t, ht, hadds⟩ := ih
      exact ⟨t, by cases ref <;> exact ht, hadds⟩
  | load _ announced ih =>
      obtain ⟨t, ht, hadds⟩ := ih
      have hreaction := (hemit _).of_ok announced
      exact ⟨t, (hreaction.store? ref).trans ht, hadds⟩
  | @add as v w t n name parent _ store announced ih =>
      obtain ⟨t', ht', hadds⟩ := ih
      rw [store, Option.some.injEq] at ht'
      subst ht'
      have hreaction := (hemit _).of_ok announced
      refine ⟨t.added name parent, ?_, .snoc hadds name parent⟩
      rw [hreaction.store? ref, store?_setStore v store, if_pos rfl]

end Spawns

/-! ## The additions of a scene -/

section Runs

variable {w w' : World} {s : Store}

/-- What goes through stages spawns what is added at them. -/
theorem Staged.spawns {performer : Performer} {stages : List Stage}
    (h : Staged performer ref b w stages w') :
    Spawns performer ref b w (stages.filterMap Stage.addition?) w' := by
  induction h with
  | refl => exact .refl
  | @next stages stage v w s n before store follows announced ih =>
      rw [List.filterMap_append]
      cases stage with
      | add a =>
          obtain ⟨e, name, parent⟩ := a
          cases follows
          exact .add ih store announced
      | complete model decl =>
          rw [List.filterMap_cons_none rfl, List.filterMap_nil, List.append_nil]
          exact .load (.report ih _) announced

theorem spawns_of_model {m : ModelDecl} {plugins : List PendingPlugin}
    (hs : w.store? ref = some s)
    (h : (spawnDeclaredModel (perform depth) ref b m).run w = .ok plugins w') :
    ∃ p : Placement, p.decl = m ∧ plugins = p.plugins ∧
      Spawns (perform depth) ref b w p.additions w' := by
  obtain ⟨hstaged, hplugins⟩ := (proceeds_model m hs).of_ok h
  obtain ⟨p, rfl, hentity, hstages⟩ := m.exists_placement s
  refine ⟨p, rfl, ?_, ?_⟩
  · rw [hplugins, ← hentity]
    rfl
  · rw [← p.filterMap_stages, ← hstages]
    exact hstaged.spawns

theorem spawns_of_models {models : List ModelDecl}
    {plugins : List PendingPlugin} (hs : w.store? ref = some s)
    (h : (spawnModels (perform depth) ref b models).run w = .ok plugins w') :
    ∃ placed : List Placement, placed.map Placement.decl = models ∧
      plugins = placed.flatMap Placement.plugins ∧
      Spawns (perform depth) ref b w
        (placed.flatMap Placement.additions) w' := by
  obtain ⟨hstaged, placed, hdecl, hplugins, hstages⟩ :=
    (proceeds_models models hs).of_ok h
  refine ⟨placed, hdecl, hplugins, ?_⟩
  rw [← filterMap_stages, ← hstages]
  exact hstaged.spawns

/-- A scene that is refused leaves the world alone. -/
theorem eq_of_refused {scene : Scene} {name : DuplicateName}
    (h : (spawnScene ref b scene).run w = .ok (.error name) w') : w' = w := by
  unfold spawnScene at h
  rw [run_get_bind] at h
  cases hcheck : scene.check ((w.store? ref).getD {}) with
  | error taken =>
      rw [hcheck] at h
      cases h
      rfl
  | ok _ =>
      simp only [hcheck] at h
      rw [run_settled] at h
      obtain ⟨plugins, v, -, h⟩ := run_bind_eq_ok_iff.1 h
      cases h

/-- A scene that is accepted has passed its check, and its models are placed in
the store, each followed by its links; the plugins that it gives are those that
the models declare. -/
theorem spawns_of_run {scene : Scene} {plugins : List PendingPlugin}
    (hs : w.store? ref = some s)
    (h : (spawnScene ref b scene).run w = .ok (.ok plugins) w') :
    scene.check s = .ok () ∧ ∃ (depth : Nat) (placed : List Placement),
      placed.map Placement.decl = scene.models ∧
        plugins = placed.flatMap Placement.plugins ∧
        Spawns (perform depth) ref b w
          (placed.flatMap Placement.additions) w' := by
  unfold spawnScene at h
  rw [run_get_bind, hs] at h
  cases hcheck : scene.check s with
  | error taken =>
      simp only [Option.getD_some, hcheck] at h
      cases h
  | ok _ =>
      simp only [Option.getD_some, hcheck] at h
      rw [run_settled] at h
      obtain ⟨found, v, hmodels, h⟩ := run_bind_eq_ok_iff.1 h
      cases h
      exact ⟨rfl, _, spawns_of_models hs hmodels⟩

end Runs

end Linkage
