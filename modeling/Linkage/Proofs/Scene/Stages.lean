import Linkage.Proofs.Scene.Placement
import Linkage.Proofs.World.Paths

/-!
# The stages of spawning a scene

A scene is spawned in stages. At most of them a model or a link is added to the
store and announced; when all links of a model are there, its completion is
logged and its plugins are announced. Listeners react to every announcement, but
they cannot touch the store, so each stage finds the store as the one before it
left it.

Which stages a scene has depends on nothing but the store that it is spawned
into. It goes through all of them, in order, unless a listener breaks one of the
announcements off. Then spawning breaks off there, for the same cause.

## Main results

* `Staged.store`: the store comes from the one before by the additions of the
  stages.
* `Interrupted.unique`: stages are broken off in one way at most.
* `Proceeds.eq_error_iff`: a call that goes through stages breaks off exactly if
  they do.
* `proceeds_models`: models that are spawned go through their stages or break
  off.
-/

namespace Linkage

open Act World

/-- A stage of spawning a scene: a model or a link is added, or a model is
complete. -/
inductive Stage
  | add (a : Addition)
  | complete (model : Entity) (decl : ModelDecl)

namespace Stage

/-- What is announced at the stage. -/
def signal : Stage → Signal
  | .add a => a.signal
  | .complete model decl => .loadPlugins model decl.toElement

/-- The addition of the stage, if there is one. -/
def addition? : Stage → Option Addition
  | .add a => some a
  | .complete _ _ => none

/-- What is added at the stage is the next entity of the store. -/
def Follows (s : Store) : Stage → Prop
  | .add a => a.entity = s.create.1
  | .complete _ _ => True

/-- The world in which the stage is announced. -/
def enter (ref : StoreRef) (s : Store) (w : World) : Stage → World
  | .add a => w.setStore ref (s.added a.name a.parent)
  | .complete _ decl => w.report
      [⟨.debug,
        s!"spawned model '{decl.name}' with {decl.links.length} link(s)"⟩]

/-- The store in which the stage is announced. -/
def storeAfter (s : Store) : Stage → Store
  | .add a => s.added a.name a.parent
  | .complete _ _ => s

theorem store?_enter {ref : StoreRef} {s : Store} {w : World}
    (hs : w.store? ref = some s) (stage : Stage) :
    (stage.enter ref s w).store? ref = some (stage.storeAfter s) := by
  cases stage with
  | add a =>
      show (w.setStore ref (s.added a.name a.parent)).store? ref = _
      rw [store?_setStore w hs, if_pos rfl]
      rfl
  | complete model decl => cases ref <;> exact hs

end Stage

/-! ## Stages and placements -/

/-- The model is added first, then its links, and in the end it is complete. -/
def Placement.stages (p : Placement) : List Stage :=
  p.additions.map .add ++ [.complete p.entity p.decl]

theorem Placement.filterMap_stages (p : Placement) :
    p.stages.filterMap Stage.addition? = p.additions := by
  have hadditions : ∀ as : List Addition,
      (as.map Stage.add).filterMap Stage.addition? = as := by
    intro as
    induction as with
    | nil => rfl
    | cons a as ih => exact congrArg (a :: ·) ih
  rw [stages, List.filterMap_append, hadditions]
  exact List.append_nil _

theorem filterMap_stages (placed : List Placement) :
    (placed.flatMap Placement.stages).filterMap Stage.addition? =
      placed.flatMap Placement.additions := by
  rw [List.filterMap_flatMap]
  exact congrArg (placed.flatMap ·) (funext Placement.filterMap_stages)

/-! ## Going through stages -/

section Stages

variable (performer : Performer) (ref : StoreRef) (b : Nat)

/-- From one world to another through stages, each of them announced. -/
inductive Staged (u : World) : List Stage → World → Prop
  | refl : Staged u [] u
  | next {stages : List Stage} {stage : Stage} {v w : World}
      {s : Store} {n : Nat} (before : Staged u stages v)
      (store : v.store? ref = some s) (follows : stage.Follows s)
      (announced : (emitOn performer b stage.signal).run (stage.enter ref s v) =
        .ok n w) :
      Staged u (stages ++ [stage]) w

/-- After stages the announcement of the next one breaks off. -/
def BreaksAt (u : World) (before : List Stage) (stage : Stage) (cause : Panic)
    (w : World) : Prop :=
  ∃ v s, Staged performer ref b u before v ∧ v.store? ref = some s ∧
    stage.Follows s ∧ (emitOn performer b stage.signal).run
      (stage.enter ref s v) = .error cause w

/-- At one of the stages, after those before it, the announcement breaks off. -/
def Interrupted (u : World) (plan : List Stage) (cause : Panic) (w : World) :
    Prop :=
  ∃ before stage later, plan = before ++ stage :: later ∧
    BreaksAt performer ref b u before stage cause w

/-- A call goes through all stages and returns with a fitting result, or it
breaks off with the announcement at one of them. -/
def Proceeds {α : Type} (m : Act α) (u : World) (plan : List Stage)
    (fits : α → Prop) : Prop :=
  (∃ a w, m.run u = .ok a w ∧ Staged performer ref b u plan w ∧ fits a) ∨
    ∃ cause w, m.run u = .error cause w ∧
      Interrupted performer ref b u plan cause w

variable {performer ref b}

namespace Staged

variable {u v w : World} {stages later : List Stage}

theorem trans (h : Staged performer ref b u stages v)
    (h' : Staged performer ref b v later w) :
    Staged performer ref b u (stages ++ later) w := by
  induction h' with
  | refl => rwa [List.append_nil]
  | next _ store follows announced ih =>
      rw [← List.append_assoc]
      exact .next ih store follows announced

/-- The last stage is announced in the world that those before it lead to. -/
theorem of_concat {stage : Stage}
    (h : Staged performer ref b u (stages ++ [stage]) w) :
    ∃ v s n, Staged performer ref b u stages v ∧ v.store? ref = some s ∧
      (emitOn performer b stage.signal).run (stage.enter ref s v) =
        .ok n w := by
  generalize hall : stages ++ [stage] = all at h
  cases h with
  | refl => simp at hall
  | next before store follows announced =>
      obtain ⟨rfl, hlast⟩ := List.append_inj' hall rfl
      cases hlast
      exact ⟨_, _, _, before, store, announced⟩

/-- The world that stages lead to is determined. -/
theorem unique (h : Staged performer ref b u stages v)
    (h' : Staged performer ref b u stages w) :
    v = w := by
  induction h generalizing w with
  | refl =>
      generalize hnil : ([] : List Stage) = none at h'
      cases h' with
      | refl => rfl
      | next => simp at hnil
  | next before store follows announced ih =>
      obtain ⟨v', s', n', hbefore, hstore, hannounced⟩ := h'.of_concat
      obtain rfl := ih hbefore
      cases store.symm.trans hstore
      cases announced.symm.trans hannounced
      rfl

theorem exists_between (h : Staged performer ref b u (stages ++ later) w) :
    ∃ v, Staged performer ref b u stages v ∧
      Staged performer ref b v later w := by
  induction later using List.reverseRecOn generalizing w with
  | nil => exact ⟨w, by rwa [List.append_nil] at h, .refl⟩
  | append_singleton later last ih =>
      rw [← List.append_assoc] at h
      generalize hall : stages ++ later ++ [last] = all at h
      cases h with
      | refl => simp at hall
      | next before store follows announced =>
          obtain ⟨rfl, hlast⟩ := List.append_inj' hall rfl
          cases hlast
          obtain ⟨v, hfirst, hrest⟩ := ih before
          exact ⟨v, hfirst, .next hrest store follows announced⟩

/-- The store comes from the one before by the additions of the stages. -/
theorem store {depth : Nat} {s : Store}
    (h : Staged (perform depth) ref b u stages w) (hs : u.store? ref = some s) :
    ∃ t, w.store? ref = some t ∧
      s.Adds (stages.filterMap Stage.addition?) t := by
  have hemit := Session.emit_keeps reaction_reactive depth b
  induction h with
  | refl => exact ⟨s, hs, .nil s⟩
  | @next stages stage v w t n before store follows announced ih =>
      obtain ⟨t', ht', hadds⟩ := ih
      rw [store, Option.some.injEq] at ht'
      subst ht'
      have hreaction := (hemit _).of_ok announced
      refine ⟨stage.storeAfter t,
        (hreaction.store? ref).trans (Stage.store?_enter store stage), ?_⟩
      rw [List.filterMap_append]
      cases stage with
      | add a =>
          obtain ⟨e, name, parent⟩ := a
          cases follows
          exact .snoc hadds name parent
      | complete model decl =>
          rw [List.filterMap_cons_none rfl, List.filterMap_nil, List.append_nil]
          exact hadds

end Staged

namespace BreaksAt

variable {u v w w' : World} {before first later : List Stage} {stage : Stage}
  {cause cause' : Panic}

theorem after (h : BreaksAt performer ref b v before stage cause w)
    (hv : Staged performer ref b u first v) :
    BreaksAt performer ref b u (first ++ before) stage cause w := by
  obtain ⟨v', s, hbefore, hbroken⟩ := h
  exact ⟨v', s, hv.trans hbefore, hbroken⟩

/-- No stages go on from one at which the announcement breaks off. -/
theorem not_staged (h : BreaksAt performer ref b u before stage cause w) :
    ¬ Staged performer ref b u (before ++ stage :: later) w' := by
  obtain ⟨v, s, hbefore, hs, -, hbroken⟩ := h
  intro hall
  rw [List.append_cons] at hall
  obtain ⟨v', hstage, -⟩ := hall.exists_between
  obtain ⟨u', s', n, hbefore', hs', hannounced⟩ := hstage.of_concat
  obtain rfl := hbefore.unique hbefore'
  cases hs.symm.trans hs'
  cases hbroken.symm.trans hannounced

/-- What is reached elsewhere lies before the break. -/
theorem not_prefix {other : List Stage} {stage' : Stage}
    (h : BreaksAt performer ref b u before stage cause w)
    (h' : BreaksAt performer ref b u other stage' cause' w') :
    ¬ before ++ [stage] <+: other := by
  rintro ⟨later, rfl⟩
  obtain ⟨v, s, hreached, -⟩ := h'
  rw [List.append_assoc] at hreached
  exact h.not_staged hreached

theorem unique (h : BreaksAt performer ref b u before stage cause w)
    (h' : BreaksAt performer ref b u before stage cause' w') :
    cause = cause' ∧ w = w' := by
  obtain ⟨v, s, hbefore, hs, -, hbroken⟩ := h
  obtain ⟨v', s', hbefore', hs', -, hbroken'⟩ := h'
  obtain rfl := hbefore.unique hbefore'
  cases hs.symm.trans hs'
  cases hbroken.symm.trans hbroken'
  exact ⟨rfl, rfl⟩

end BreaksAt

namespace Interrupted

variable {u v w w' : World} {plan first later : List Stage}
  {cause cause' : Panic}

theorem append (h : Interrupted performer ref b u plan cause w)
    (later : List Stage) :
    Interrupted performer ref b u (plan ++ later) cause w := by
  obtain ⟨before, stage, after, rfl, hbroken⟩ := h
  exact ⟨before, stage, after ++ later, by simp, hbroken⟩

theorem after (h : Interrupted performer ref b v later cause w)
    (hv : Staged performer ref b u first v) :
    Interrupted performer ref b u (first ++ later) cause w := by
  obtain ⟨before, stage, after, rfl, hbroken⟩ := h
  exact ⟨first ++ before, stage, after, by simp, hbroken.after hv⟩

/-- Stages at one of which the announcement breaks off lead nowhere. -/
theorem not_staged (h : Interrupted performer ref b u plan cause w) :
    ¬ Staged performer ref b u plan w' := by
  obtain ⟨before, stage, after, rfl, hbroken⟩ := h
  exact hbroken.not_staged

/-- It breaks off in one way only. -/
theorem unique (h : Interrupted performer ref b u plan cause w)
    (h' : Interrupted performer ref b u plan cause' w') :
    cause = cause' ∧ w = w' := by
  obtain ⟨before, stage, later, hplan, hbroken⟩ := h
  obtain ⟨before', stage', later', hplan', hbroken'⟩ := h'
  obtain ⟨rfl, rfl⟩ := eq_of_splits (hplan.symm.trans hplan')
    (hbroken.not_prefix hbroken') (hbroken'.not_prefix hbroken)
  exact hbroken.unique hbroken'

end Interrupted

namespace Proceeds

variable {α β : Type} {u w : World} {plan later : List Stage} {fits : α → Prop}

theorem pure {a : α} (h : fits a) :
    Proceeds performer ref b (Pure.pure a : Act α) u [] fits :=
  .inl ⟨a, u, rfl, .refl, h⟩

theorem of_ok {m : Act α} {a : α} (h : Proceeds performer ref b m u plan fits)
    (hrun : m.run u = .ok a w) : Staged performer ref b u plan w ∧ fits a := by
  rcases h with ⟨a', w', hrun', hstaged, ha⟩ | ⟨cause, w', hrun', -⟩
  · cases hrun.symm.trans hrun'
    exact ⟨hstaged, ha⟩
  · cases hrun.symm.trans hrun'

/-- A call breaks off exactly if the announcement at one of its stages does. -/
theorem eq_error_iff {m : Act α} {cause : Panic}
    (h : Proceeds performer ref b m u plan fits) :
    m.run u = .error cause w ↔ Interrupted performer ref b u plan cause w := by
  rcases h with ⟨a, v, hrun, hstaged, -⟩ | ⟨cause', v, hrun, hbroken⟩
  · rw [hrun]
    exact ⟨nofun, fun hbroken => absurd hstaged hbroken.not_staged⟩
  · constructor
    · intro herror
      cases hrun.symm.trans herror
      exact hbroken
    · intro hbroken'
      obtain ⟨rfl, rfl⟩ := hbroken.unique hbroken'
      exact hrun

/-- What follows goes on from the stages that the first part went through. -/
theorem bind {m : Act α} {f : α → Act β} {fits' : β → Prop}
    (hm : Proceeds performer ref b m u plan fits)
    (hf : ∀ a v, Staged performer ref b u plan v → fits a →
      Proceeds performer ref b (f a) v later fits') :
    Proceeds performer ref b (m >>= f) u (plan ++ later) fits' := by
  rcases hm with ⟨a, v, hrun, hstaged, ha⟩ | ⟨cause, w, hrun, hbroken⟩
  · rcases hf a v hstaged ha with ⟨c, w, hrest, hlater, hc⟩ |
      ⟨cause, w, hrest, h⟩
    · exact .inl ⟨c, w, by rw [run_bind_of_ok hrun, hrest],
        hstaged.trans hlater, hc⟩
    · exact .inr ⟨cause, w, by rw [run_bind_of_ok hrun, hrest], h.after hstaged⟩
  · exact .inr ⟨cause, w, by rw [run_bind, hrun], hbroken.append later⟩

theorem of_run {m m' : Act α} (hrun : m.run u = m'.run u)
    (h : Proceeds performer ref b m' u plan fits) :
    Proceeds performer ref b m u plan fits := by
  unfold Proceeds at h ⊢
  rwa [hrun]

/-- What is made of the result in the end is no further stage. -/
theorem map {m : Act α} {f : α → β} {fits' : β → Prop}
    (hm : Proceeds performer ref b m u plan fits)
    (hf : ∀ a, fits a → fits' (f a)) :
    Proceeds performer ref b (m >>= fun a => Pure.pure (f a)) u plan fits' := by
  have h := hm.bind fun a v _ ha => Proceeds.pure (hf a ha)
  rwa [List.append_nil] at h

/-- A call that announces a stage first goes on from there. -/
theorem stage {m : Act α} {s : Store} (stage : Stage) {k : Nat → Act α}
    (hs : u.store? ref = some s) (hstage : stage.Follows s)
    (hrun : m.run u =
      (emitOn performer b stage.signal >>= k).run (stage.enter ref s u))
    (hrest : ∀ n v, Staged performer ref b u [stage] v →
      Proceeds performer ref b (k n) v later fits) :
    Proceeds performer ref b m u (stage :: later) fits := by
  -- the announcement returns, and the rest goes on from there, or it is the one
  -- that breaks off
  cases hemit : (emitOn performer b stage.signal).run (stage.enter ref s u) with
  | ok n v =>
      have hstaged : Staged performer ref b u [stage] v :=
        .next .refl hs hstage hemit
      rw [run_bind_of_ok hemit] at hrun
      rcases hrest n v hstaged with ⟨a, w, hrest, hlater, ha⟩ |
        ⟨cause, w, hrest, h⟩
      · exact .inl ⟨a, w, hrun.trans hrest, hstaged.trans hlater, ha⟩
      · exact .inr ⟨cause, w, hrun.trans hrest, h.after hstaged⟩
  | error cause w =>
      rw [run_bind, hemit] at hrun
      exact .inr ⟨cause, w, hrun,
        ⟨[], stage, later, rfl, u, s, .refl, hs, hstage, hemit⟩⟩

end Proceeds

end Stages

/-! ## The stages of a scene -/

theorem PluginDecl.name_toElement (d : PluginDecl) :
    d.toElement.name = "plugin" := by
  have hfold : ∀ (params : List (String × Scalar)) (e : Element),
      (params.foldl (fun e param => e.withParam param.1 param.2) e).name =
        e.name := by
    intro params
    induction params with
    | nil => exact fun _ => rfl
    | cons param params ih => exact fun e => ih _
  exact hfold _ _

theorem ModelDecl.childrenNamed_plugin (m : ModelDecl) :
    m.toElement.childrenNamed "plugin" =
      m.plugins.map PluginDecl.toElement := by
  unfold Element.childrenNamed
  rw [ModelDecl.toElement_children, List.filter_eq_self]
  intro e he
  obtain ⟨d, -, rfl⟩ := List.mem_map.1 he
  simp [PluginDecl.name_toElement]

/-- The stages of links that are added to a model, one after the other. -/
def linkStages (model : Entity) : Store → List String → List Stage
  | _, [] => []
  | s, name :: names =>
      .add ⟨s.create.1, name, some model⟩ ::
        linkStages model (s.added name (some model)) names

/-- The stages that a model goes through when it is spawned into a store. -/
def ModelDecl.stages (m : ModelDecl) (s : Store) : List Stage :=
  .add ⟨s.create.1, m.name, none⟩ ::
    (linkStages s.create.1 (s.added m.name none) m.links ++
      [.complete s.create.1 m])

/-- The stages of models that are spawned one after the other. -/
def modelStages : Store → List ModelDecl → List Stage
  | _, [] => []
  | s, m :: models =>
      m.stages s ++ modelStages
        (s.addedAll ((m.stages s).filterMap Stage.addition?)) models

/-- The stages that a scene goes through when it is spawned into a store. -/
def Scene.stages (scene : Scene) (s : Store) : List Stage :=
  modelStages s scene.models

theorem exists_links (model : Entity) (s : Store) (names : List String) :
    ∃ links : List Entity, links.length = names.length ∧
      linkStages model s names =
      (List.zipWith (fun name e => (⟨e, name, some model⟩ : Addition)) names
        links).map .add := by
  induction names generalizing s with
  | nil => exact ⟨[], rfl, rfl⟩
  | cons name names ih =>
      obtain ⟨links, hlength, hstages⟩ := ih (s.added name (some model))
      exact ⟨s.create.1 :: links, by simp [hlength],
        by rw [linkStages, hstages]; rfl⟩

theorem ModelDecl.exists_placement (m : ModelDecl) (s : Store) :
    ∃ p : Placement,
    p.decl = m ∧ p.entity = s.create.1 ∧ m.stages s = p.stages := by
  obtain ⟨links, hlength, hstages⟩ :=
    exists_links s.create.1 (s.added m.name none) m.links
  exact ⟨⟨m, s.create.1, links, hlength⟩, rfl, rfl,
    by rw [ModelDecl.stages, hstages]; rfl⟩

section Scenes

variable {ref : StoreRef} {b depth : Nat} {u v : World} {s : Store}

/-- Where stages lead the store is the one before with all additions. -/
theorem Staged.store?_eq {stages : List Stage}
    (h : Staged (perform depth) ref b u stages v) (hs : u.store? ref = some s) :
    v.store? ref = some (s.addedAll (stages.filterMap Stage.addition?)) := by
  obtain ⟨t, ht, hadds⟩ := h.store hs
  rw [ht, hadds.eq_addedAll]

/-- Spawning a link adds it and announces it. -/
theorem run_spawnDeclaredLink (performer : Performer) (b : Nat) (model : Entity)
    (name : String) (hs : u.store? ref = some s) :
    let stage : Stage := .add ⟨s.create.1, name, some model⟩
    (spawnDeclaredLink performer ref b model name).run u =
      (emitOn performer b stage.signal >>= fun _ => pure ()).run
        (stage.enter ref s u) := by
  intro stage
  unfold spawnDeclaredLink
  rw [run_bind, run_change]
  simp only [hs]
  rfl

/-- What spawning a model goes on with once the model has been announced: its
links are spawned, and then its plugins are announced. -/
def spawnParts (performer : Performer) (ref : StoreRef) (b : Nat)
    (model : Entity) (m : ModelDecl) : Act (List PendingPlugin) := do
  m.links.forM (spawnDeclaredLink performer ref b model)
  log .debug s!"spawned model '{m.name}' with {m.links.length} link(s)"
  let _ ← emitOn performer b (.loadPlugins model m.toElement)
  return (m.toElement.childrenNamed "plugin").map (PendingPlugin.mk model)

/-- Spawning a model adds it, announces it, and goes on with its parts. -/
theorem run_spawnDeclaredModel (performer : Performer) (b : Nat) (m : ModelDecl)
    (hs : u.store? ref = some s) :
    let stage : Stage := .add ⟨s.create.1, m.name, none⟩
    (spawnDeclaredModel performer ref b m).run u =
      (emitOn performer b stage.signal >>= fun _ =>
        spawnParts performer ref b s.create.1 m).run (stage.enter ref s u) := by
  intro stage
  unfold spawnDeclaredModel
  rw [run_bind, run_change]
  simp only [hs]
  rfl

theorem proceeds_link (model : Entity) (name : String)
    (hs : u.store? ref = some s) :
    Proceeds (perform depth) ref b
      (spawnDeclaredLink (perform depth) ref b model name) u
      [.add ⟨s.create.1, name, some model⟩] fun _ => True := by
  exact Proceeds.stage _ hs rfl (run_spawnDeclaredLink _ b model name hs)
    fun _ _ _ => .pure trivial

theorem proceeds_links (model : Entity) :
    ∀ (names : List String) {u : World} {s : Store},
    u.store? ref = some s → Proceeds (perform depth) ref b
      (names.forM (spawnDeclaredLink (perform depth) ref b model)) u
        (linkStages model s names) fun _ => True
  | [], _, _, _ => .pure trivial
  | name :: names, _, _, hs =>
      (proceeds_link model name hs).bind fun _ _ hstaged _ =>
        proceeds_links model names (hstaged.store?_eq hs)

theorem proceeds_model (m : ModelDecl) (hs : u.store? ref = some s) :
    Proceeds (perform depth) ref b (spawnDeclaredModel (perform depth) ref b m)
      u (m.stages s)
      fun plugins => plugins = m.plugins.map fun d =>
        ⟨s.create.1, d.toElement⟩ := by
  refine Proceeds.stage _ hs rfl (run_spawnDeclaredModel _ b m hs) ?_
  intro n v hstaged
  have ht := hstaged.store?_eq hs
  refine (proceeds_links s.create.1 m.links ht).bind fun _ v' hstaged' _ => ?_
  refine Proceeds.stage (.complete s.create.1 m) (hstaged'.store?_eq ht)
    trivial rfl ?_
  intro n v _
  exact .pure (by simp [ModelDecl.childrenNamed_plugin, Function.comp_def])

/-- Models that are spawned go through the stages of each, or an announcement
breaks off. -/
theorem proceeds_models : ∀ (models : List ModelDecl) {u : World} {s : Store},
    u.store? ref = some s →
    Proceeds (perform depth) ref b (spawnModels (perform depth) ref b models) u
      (modelStages s models) fun plugins => ∃ placed : List Placement,
        placed.map Placement.decl = models ∧
          plugins = placed.flatMap Placement.plugins ∧
          modelStages s models = placed.flatMap Placement.stages
  | [], _, _, _ => .pure ⟨[], rfl, rfl, rfl⟩
  | m :: models, _, s, hs => by
      refine (proceeds_model m hs).bind fun first v hstaged hfirst => ?_
      refine (proceeds_models models (hstaged.store?_eq hs)).map ?_
      rintro rest ⟨placed, rfl, rfl, hstages⟩
      obtain ⟨p, rfl, hentity, hown⟩ := m.exists_placement s
      refine ⟨p :: placed, rfl, ?_, ?_⟩
      · rw [hfirst, ← hentity]
        rfl
      · rw [modelStages, hstages, hown]
        rfl

end Scenes

end Linkage
