import Linkage.Proofs.Bus.Connections
import Linkage.Proofs.Joint.Churn
import Linkage.Proofs.Scene.Spawning

/-!
# A copy of a store made from announcements

A run of a runner goes on by scenes that are spawned into its store and
announced on its bus, by steps, by turns of joints, by requests for removals,
and by whatever else leaves the store alone. Two listeners hear every addition
and every removal of the run exactly once and in order, and nothing else, so a
table that is kept by what they hear tells of the same models and links as the
store, under the same numbers, with the same names and parents. Whoever shows
the scene need not look into the store.

The agreement is carried by one invariant, `Fit`. That the two listeners are
connected at the end of every part of a run is asked for; that they were
connected all through it follows, for a connection that is gone does not come
back.

## Main results

* `Mirror.passes_of_spawns`, `Mirror.exists_of_duties`: what is heard of a scene
  and of a step.
* `Mirror.Fit.next`: what keeps the mirror in agreement with the store.
* `Mirror.agrees_of_run`: the table and the store agree after every run.
-/

namespace Linkage

open Act World

/-- How many entities a scene has: its models and their links. -/
def Scene.size (scene : Scene) : Nat :=
  scene.models.length + (scene.models.flatMap ModelDecl.links).length

theorem Placement.length_additions (p : Placement) :
    p.additions.length = p.decl.links.length + 1 := by
  simp [Placement.additions, p.length_links]

theorem Scene.length_additions {scene : Scene} {placed : List Placement}
    (h : placed.map Placement.decl = scene.models) :
    (placed.flatMap Placement.additions).length = scene.size := by
  rw [Scene.size, ← h]
  clear h
  induction placed with
  | nil => rfl
  | cons p placed ih =>
      simp only [List.flatMap_cons, List.map_cons, List.length_append,
        List.length_cons, p.length_additions, ih]
      omega

namespace Mirror

variable {m : Mirror} {u v w : World} {signals : List Signal} {n : Nat}

/-- A world in which a run can begin or go on: the runner is on the bus of the
mirror, its scripts and those of all listeners leave models, links and the
mirror alone, and the mirror listens. -/
structure Ready (m : Mirror) (w : World) : Prop where
  reachable : w.Reachable
  runner : ∃ a, w.runner? m.runner = some a ∧ a.bus = m.bus ∧
    ∀ system ∈ a.systems, m.Modest system
  tuned : m.Tuned w
  connected : m.Connected w

/-- Joints leave models, links and the mirror alone. -/
theorem Ready.of_joints (hw : w.Reachable)
    (hjoints : (w.runner? m.runner).any (fun a =>
      a.bus == m.bus && a.systems.all fun s =>
        s.joint?.isSome) = true) (ht : m.Tuned w)
    (hc : m.Connected w) : m.Ready w := by
  obtain ⟨a, ha, hall⟩ := (Option.any_eq_true _ _).1 hjoints
  obtain ⟨hbus, hsystems⟩ := Bool.and_eq_true_iff.1 hall
  refine { reachable := hw,
           runner := ⟨a, ha, beq_iff_eq.1 hbus, fun system hs => ?_⟩,
           tuned := ht, connected := hc }
  obtain ⟨j, hj⟩ :=
    Option.isSome_iff_exists.1 (List.all_eq_true.1 hsystems system hs)
  rw [System.eq_joint hj]
  exact trivial

/-- A run of the runner has led to a world, the mirror has heard some signals,
and a number of entities were created. The run begins with an empty store. It
goes on by a scene that is accepted or refused, by a step that is done, by a
step in which a system breaks off or at last the clock, by a turn of a joint, or
by anything that leaves the store alone but for requests for removals and that
the mirror does not hear. -/
inductive Run (m : Mirror) : World → List Signal → Nat → Prop
  | start {w : World} (ready : m.Ready w)
      (empty : w.store? (.runner m.runner) = some {}) :
      Run m w [] 0
  | spawn {w v : World} {signals : List Signal} {n : Nat} {scene : Scene}
      {plugins : List PendingPlugin} (before : Run m w signals n)
      (accepted : (spawnScene (.runner m.runner) m.bus scene).run w =
        .ok (.ok plugins) v)
      (connected : m.Connected v) :
      Run m v (signals ++ m.heardSince w v) (n + scene.size)
  | refuse {w v : World} {signals : List Signal} {n : Nat} {scene : Scene}
      {name : DuplicateName} (before : Run m w signals n)
      (refused : (spawnScene (.runner m.runner) m.bus scene).run w =
        .ok (.error name) v) :
      Run m v (signals ++ m.heardSince w v) n
  | step {w v : World} {signals : List Signal} {n : Nat} {done : Bool}
      (before : Run m w signals n)
      (completed : (step m.runner).run w = .ok done v)
      (connected : m.Connected v) :
      Run m v (signals ++ m.heardSince w v) (n + (v.attached - w.attached))
  | broken {w v : World} {signals : List Signal} {n depth : Nat} {a : Runner}
      {cause : Panic} (before : Run m w signals n)
      (runner : w.runner? m.runner = some a)
      (breaks :
        (a.systems.forM (updateSystem (perform depth) m.runner a.info)).run w =
        .error cause v) (connected : m.Connected v) :
      Run m v (signals ++ m.heardSince w v) (n + (v.attached - w.attached))
  | overrun {w v : World} {signals : List Signal} {n depth : Nat} {a : Runner}
      (before : Run m w signals n) (runner : w.runner? m.runner = some a)
      (duties : (stepDuties (perform depth) m.runner a).run w = .ok () v)
      (connected : m.Connected ((advance m.runner).left v)) :
      Run m ((advance m.runner).left v)
        (signals ++ m.heardSince w ((advance m.runner).left v))
        (n + (((advance m.runner).left v).attached - w.attached))
  | turn {w v : World} {signals : List Signal} {n j : Nat}
      (before : Run m w signals n)
      (taken : (updateJoint j (.runner m.runner)).run w = .ok () v) :
      Run m v (signals ++ m.heardSince w v) (n + (v.attached - w.attached))
  | other {w v : World} {signals : List Signal} {n : Nat} (asked : List Entity)
      (before : Run m w signals n) (ready : m.Ready v)
      (store : v.store? (.runner m.runner) =
        (w.store? (.runner m.runner)).map (asked.foldl Store.requestRemoval))
      (unheard : m.heardSince w v = []) : Run m v signals n

/-! ## What is heard of a scene -/

theorem Connected.between (hu : BusesSound u.buses) (huv : u.Rewired v)
    (hvw : v.Rewired w) (h : m.Connected u) (hlast : m.Connected w) :
    m.Connected v :=
  fun e ear he => mem_listeners_between hu huv hvw (h e ear he) (hlast e ear he)

theorem Connected.congr (h : m.Connected w) (hb : v.buses = w.buses) :
    m.Connected v := by
  intro e ear he
  rw [World.listeners, hb]
  exact h e ear he

theorem rewired_reactive : Reactive Rewired :=
  { rewired_chained with react := fun h => h.buses }

section Spawning

variable {ref : StoreRef} {depth b : Nat} {as : List Addition}

theorem rewired_of_spawns (h : Spawns (perform depth) ref b u as w) :
    u.Rewired w :=
  h.keeps rewired_reactive fun v s => .of_buses_eq (buses_setStore v ref s)

/-- The additions of a scene are heard in their order. -/
theorem passes_of_spawns (hbuses : BusesSound u.buses) (hu : m.Tuned u)
    (hstart : m.Connected u) (hend : m.Connected w)
    (h : Spawns (perform depth) ref m.bus u as w) :
    m.Passes u (as.map Addition.signal) w := by
  have hquiet := fun a (ha : m.Quiet a) => perform_hushed depth none a ha
  have hemits : ∀ s, Keeps Rewired (emitOn (perform depth) m.bus s) :=
    Session.emit_keeps rewired_reactive depth m.bus
  induction h with
  | refl => exact .refl hu
  | report before entries ih =>
      exact (ih hend).hushed (Silent.hushed ⟨rfl, rfl, rfl, rfl⟩)
  | load before announced ih =>
      have hlast := (hemits _).of_ok announced
      have hbefore := hstart.between hbuses
        (rewired_of_spawns before) hlast hend
      refine (ih hbefore).hushed
        ((emitOn_hushed hquiet fun ear he => ?_).of_ok announced)
      cases he
  | @add as v w s n name parent before store announced ih =>
      have hset : v.Rewired (v.setStore ref (s.added name parent)) :=
        .of_buses_eq (buses_setStore v ref _)
      have hlast := (hemits _).of_ok announced
      have hto := rewired_chained.trans (rewired_of_spawns before) hset
      have hbefore := hstart.between hbuses (rewired_of_spawns before)
        (rewired_chained.trans hset hlast) hend
      have hpasses := (ih hbefore).hushed
        (silent_setStore v ref (s.added name parent)).hushed
      have hheard := passes_of_emitOn rfl (hto.sound hbuses) hpasses.tuned
        (hstart.between hbuses hto hlast hend) hend announced
      rw [List.map_append]
      exact hpasses.trans hheard

end Spawning

/-! ## What is heard of a step -/

section Steps

variable {r depth : Nat}

/-- What systems do that leave models, links and the mirror alone, whether they
return or not. -/
theorem systems_keep {a : Runner} (ha : w.runner? r = some a)
    (hmodest : ∀ system ∈ a.systems, m.Modest system) (depth : Nat)
    (info : StepInfo) :
    Works r w ((a.systems.forM (updateSystem (perform depth) r info)).left w) ∧
      m.Hushed w
        ((a.systems.forM (updateSystem (perform depth) r info)).left w) ∧
        w.Rewired
          ((a.systems.forM (updateSystem (perform depth) r info)).left w) := by
  refine ⟨?_, ?_, ?_⟩
  · exact Keeps.forM (works_reactive r).toChained a.systems
      (fun system hs => updateSystem_works (hmodest system hs) depth r info) w
  · exact Keeps.forM (hushed_chained m) a.systems
      (fun system hs => updateSystem_hushed (hmodest system hs) depth r info) w
  · have hstepping :=
      Keeps.forM (stepping_reactive r a.systems).toChained a.systems
      (fun system hs => updateSystem_stepping depth info hs) w ⟨a, ha, rfl⟩
    exact hstepping.1.rewired

/-- The removals of a step are heard in their order. -/
theorem passes_of_removals (hbuses : BusesSound u.buses)
    (hstart : m.Connected u) (hend : m.Connected w) :
    ∀ {removed : List Entity} {v : World}, u.Rewired v → m.Tuned v →
      (removed.forM (announceRemoval (perform depth) m.bus)).run v = .ok () w →
      m.Passes v (removed.map fun e => .removeFromStore e.raw) w
  | [], v, _, hv, h => by
      cases h
      exact .refl hv
  | e :: removed, v, huv, hv, h => by
      have hcons : (announceRemoval (perform depth) m.bus e >>= fun _ =>
        removed.forM (announceRemoval (perform depth) m.bus)).run v =
          .ok () w := h
      obtain ⟨⟨⟩, v₁, hfirst, hrest⟩ := run_bind_eq_ok_iff.1 hcons
      have hv₁ :=
        (announceRemoval_keeps rewired_reactive depth m.bus e).of_ok hfirst
      have hlast := (Keeps.forM rewired_chained removed fun e _ =>
        announceRemoval_keeps rewired_reactive depth m.bus e).of_ok hrest
      obtain ⟨⟨⟩, v₂, hlog, hemit⟩ := run_bind_eq_ok_iff.1 hfirst
      obtain ⟨k, v₃, hemit, hdone⟩ := run_bind_eq_ok_iff.1 hemit
      cases hlog
      cases hdone
      have hreported :
          m.Passes v [] (v.report [⟨.debug, s!"removed entity {e.text}"⟩]) :=
        Silent.hushed ⟨rfl, rfl, rfl, rfl⟩ hv
      have hbegin := hstart.between hbuses huv
        (rewired_chained.trans hv₁ hlast) hend
      have hafter := hstart.between hbuses
        (rewired_chained.trans huv hv₁) hlast hend
      have hheard := passes_of_emitOn (m := m) (w := v.report _) rfl
        (huv.sound hbuses) hreported.tuned hbegin hafter hemit
      have hlater := passes_of_removals hbuses hstart hend
        (rewired_chained.trans huv hv₁) hheard.tuned hrest
      exact hreported.trans (hheard.trans hlater)

theorem announceSnapshot_hushed (depth r b : Nat) (info : StepInfo) :
    Keeps m.Hushed (announceSnapshot (perform depth) r b info) := by
  have hR := hushed_chained m
  refine Keeps.get_bind fun w => ?_
  by_cases h : 0 < (w.bus b).listenerCount .syncStoreToGui
  · simp only [h, if_true]
    cases w.store? (.runner r) with
    | none => exact hR.refl w
    | some s =>
        refine Keeps.bind hR
          (emitOn_hushed (fun a ha => perform_hushed depth none a ha)
          fun ear he => ?_) (fun _ => Keeps.pure hR ()) w
        cases he
  · simp only [h, if_false]
    exact hR.refl w

theorem silent_setClock (w : World) (r : Nat) (info : StepInfo) :
    Silent w (w.setClock r info) := by
  unfold setClock
  cases w.runner? r <;> exact ⟨rfl, rfl, rfl, rfl⟩

theorem silent_advance (r : Nat) (w : World) :
    Silent w ((advance r).left w) := by
  obtain ⟨info, heq⟩ := left_advance r w
  rw [heq]
  exact silent_setClock w r info

/-- The end of a step applies the removals that were asked for, and they are
heard. -/
theorem passes_of_sweep {s : Store} {info : StepInfo}
    (hbuses : BusesSound u.buses) (hstart : m.Connected u)
    (hend : m.Connected w) (huv : u.Rewired v) (hv : m.Tuned v)
    (hs : v.store? (.runner r) = some s)
    (h : (applyRemovals r >>= fun removed =>
      removed.forM (announceRemoval (perform depth) m.bus)
      >>= fun _ => announceSnapshot (perform depth) r m.bus info).run v =
        .ok () w) :
    v.Rewired w ∧ Stays r v w ∧ w.store? (.runner r) = some s.applyRemovals.2 ∧
      w.attached = v.attached ∧
      m.Passes v (s.pending.map fun e => .removeFromStore e.raw) w := by
  obtain ⟨removed, v₁, hsweep, h⟩ := run_bind_eq_ok_iff.1 h
  obtain ⟨⟨⟩, v₂, hremovals, hsnapshot⟩ := run_bind_eq_ok_iff.1 h
  cases (run_applyRemovals hs).symm.trans hsweep
  have hR := reaction_reactive
  have hremoved := (Keeps.forM hR.toChained s.pending fun e _ =>
    announceRemoval_keeps hR depth m.bus e).of_ok hremovals
  have hshown := (announceSnapshot_keeps hR depth r m.bus info).of_ok hsnapshot
  have hreaction := reaction_chained.trans hremoved hshown
  have hset : v.Rewired (v.setStore (.runner r) s.applyRemovals.2) :=
    .of_buses_eq (buses_setStore v _ _)
  refine ⟨rewired_chained.trans hset hreaction.buses, ?_, ?_, ?_, ?_⟩
  · exact (stays_reactive r).trans
      (stays_setStore v r (.runner r) s.applyRemovals.2)
      ((stays_reactive r).react hreaction)
  · rw [hreaction.store?, store?_setStore v hs, if_pos rfl]
  · exact (attached_of_still hreaction.joints).trans
      (congrArg (List.countP _) (joints_setStore v _ _))
  · have hto := rewired_chained.trans huv hset
    have hbegin := hstart.between hbuses hto hreaction.buses hend
    have hmiddle := hstart.between hbuses
      (rewired_chained.trans hto hremoved.buses) hshown.buses hend
    have hswept : m.Passes v [] (v.setStore (.runner r) s.applyRemovals.2) :=
      (silent_setStore v _ _).hushed hv
    have hheard := passes_of_removals (hto.sound hbuses) hbegin hmiddle
      (rewired_chained.refl _) hswept.tuned hremovals
    have hunheard : m.Hushed v₂ w :=
      (announceSnapshot_hushed depth r m.bus info).of_ok hsnapshot
    exact hswept.trans (hheard.hushed hunheard)

/-- Before the clock is advanced the systems do their part, and then the
removals that were asked for are applied and heard. -/
theorem exists_of_duties {a : Runner} (hbuses : BusesSound w.buses)
    (hw : m.Tuned w) (hstart : m.Connected w) (hend : m.Connected v)
    (ha : w.runner? m.runner = some a) (hbus : a.bus = m.bus)
    (hmodest : ∀ system ∈ a.systems, m.Modest system)
    (h : (stepDuties (perform depth) m.runner a).run w = .ok () v) :
    w.Rewired v ∧ Stays m.runner w v ∧ ∃ s n, a.store.Churns n s ∧
      v.store? (.runner m.runner) = some s.applyRemovals.2 ∧
        v.attached = w.attached + n ∧
        m.Passes w (s.pending.map fun e => .removeFromStore e.raw) v := by
  obtain ⟨⟨⟩, w₁, hsystems, hrest⟩ := run_bind_eq_ok_iff.1 h
  rw [hbus] at hrest
  obtain ⟨hworks, hhushed, hrewired⟩ := systems_keep ha hmodest depth a.info
  rw [left_of_ok hsystems] at hworks hhushed hrewired
  obtain ⟨s, n, hs, hcount, hchurns⟩ :=
    hworks.store a.store (store?_of_runner? ha)
  have hturned := hhushed hw
  obtain ⟨hrewired', hstays, hstore, hsame, hheard⟩ :=
    passes_of_sweep hbuses hstart hend hrewired hturned.tuned hs hrest
  exact ⟨rewired_chained.trans hrewired hrewired',
    (stays_reactive m.runner).trans hworks.stays hstays, s, n, hchurns, hstore,
    hsame.trans hcount, hturned.trans hheard⟩

/-- A step that is done is skipped, or its duties are done and the clock is
advanced. -/
theorem duties_of_step {a : Runner} {done : Bool} (ha : w.runner? r = some a)
    (h : (step r).run w = .ok done v) : v = w ∨ ∃ depth u,
      (stepDuties (perform depth) r a).run w = .ok () u ∧
      v = (advance r).left u := by
  cases hgo : a.stopped || a.paused with
  | true =>
      rw [run_step_skipped fun b hb => by
        rw [ha] at hb; cases hb; exact hgo] at h
      cases h
      exact .inl rfl
  | false =>
      rw [run_step ha hgo] at h
      obtain ⟨⟨⟩, v', hphases, hdone⟩ := run_bind_eq_ok_iff.1 h
      cases hdone
      rw [stepPhases_eq] at hphases
      obtain ⟨⟨⟩, u, hduties, hadvance⟩ := run_bind_eq_ok_iff.1 hphases
      exact .inr ⟨_, u, hduties, (left_of_ok hadvance).symm⟩

end Steps

/-! ## The agreement -/

/-- After a number of creations: the runner is on the bus of the mirror, nobody
interferes, the mirror listens, and what it has heard tells of the store. -/
structure Fit (m : Mirror) (w : World) (signals : List Signal) (n : Nat) :
    Prop where
  buses : BusesSound w.buses
  runner : ∃ a, w.runner? m.runner = some a ∧ a.bus = m.bus ∧
    ∀ system ∈ a.systems, m.Modest system
  tuned : m.Tuned w
  connected : m.Connected w
  store : n < 2 ^ 31 → ∃ s, w.store? (.runner m.runner) = some s ∧
    s.Mirrored signals n

namespace Fit

variable {heard : List Signal} {n' : Nat}

theorem of_ready (h : m.Ready w) (hstore : n < 2 ^ 31 →
    ∃ s, w.store? (.runner m.runner) = some s ∧ s.Mirrored signals n) :
    m.Fit w signals n :=
  { buses := h.reachable.sound.buses
    runner := h.runner
    tuned := h.tuned
    connected := h.connected
    store := hstore }

/-- The agreement is kept if the runner stays, and if what is heard tells of
what is done to the store. -/
theorem next (h : m.Fit w signals n) (hrewired : w.Rewired v)
    (hstays : Stays m.runner w v) (hpasses : m.Passes w heard v)
    (hconnected : m.Connected v) (hle : n ≤ n')
    (hstore : n' < 2 ^ 31 → ∀ s, w.store? (.runner m.runner) = some s →
      s.Mirrored signals n →
      ∃ t, v.store? (.runner m.runner) = some t ∧
        t.Mirrored (signals ++ heard) n') :
    m.Fit v (signals ++ m.heardSince w v) n' := by
  obtain ⟨a, ha, hbus, hmodest⟩ := h.runner
  obtain ⟨b, hb, hbus', hsystems⟩ := hstays a ha
  refine { buses := hrewired.sound h.buses
           runner := ⟨b, hb, hbus'.trans hbus, hsystems ▸ hmodest⟩
           tuned := hpasses.tuned
           connected := hconnected
           store := fun hn => ?_ }
  obtain ⟨s, hs, hmirrored⟩ := h.store (by omega)
  rw [hpasses.heardSince_eq]
  exact hstore hn s hs hmirrored

/-- A scene that is accepted. -/
theorem spawn (h : m.Fit w signals n) {scene : Scene}
    {plugins : List PendingPlugin}
    (hrun : (spawnScene (.runner m.runner) m.bus scene).run w =
      .ok (.ok plugins) v)
    (hconnected : m.Connected v) :
    m.Fit v (signals ++ m.heardSince w v) (n + scene.size) := by
  obtain ⟨a, ha, -⟩ := h.runner
  have hs := store?_of_runner? ha
  obtain ⟨-, depth, placed, hdecl, -, hspawns⟩ := spawns_of_run hs hrun
  have hstays := hspawns.keeps (stays_reactive m.runner) fun v s =>
    stays_setStore v _ _ s
  refine h.next (rewired_of_spawns hspawns) hstays
    (passes_of_spawns h.buses h.tuned h.connected hconnected hspawns)
      hconnected (by omega) ?_
  intro hn s hs' hmirrored
  obtain ⟨t, ht, hadds⟩ := hspawns.store hs'
  rw [← Scene.length_additions hdecl] at hn ⊢
  exact ⟨t, ht, hmirrored.adds hadds hn⟩

/-- A step of which only the clock was left, whether it is advanced or breaks
off. -/
theorem duties (h : m.Fit w signals n) {depth : Nat} {a : Runner}
    (ha : w.runner? m.runner = some a)
    (hrun : (stepDuties (perform depth) m.runner a).run w = .ok () v)
    (hconnected : m.Connected ((advance m.runner).left v)) :
    m.Fit ((advance m.runner).left v)
      (signals ++ m.heardSince w ((advance m.runner).left v))
      (n + (((advance m.runner).left v).attached - w.attached)) := by
  obtain ⟨b, hb, hbus, hmodest⟩ := h.runner
  cases ha.symm.trans hb
  have hsilent := silent_advance m.runner v
  obtain ⟨hrewired, hstays, s, k, hchurns, hstore, hcount, hpasses⟩ :=
    exists_of_duties h.buses
    h.tuned h.connected (hconnected.congr hsilent.buses.symm) ha
      hbus hmodest hrun
  obtain ⟨info, hclock⟩ := left_advance m.runner v
  have hsame : ((advance m.runner).left v).attached = v.attached := by
    rw [hclock, attached, joints_setClock]
    rfl
  rw [hsame, hcount, Nat.add_sub_cancel_left]
  refine h.next (rewired_chained.trans hrewired (.of_buses_eq hsilent.buses)) ?_
    (hpasses.hushed hsilent.hushed) hconnected (by omega)
      fun hn t ht hmirrored => ?_
  · rw [hclock]
    exact (stays_reactive _).trans hstays (stays_setClock v _ info)
  · cases (store?_of_runner? ha).symm.trans ht
    rw [hclock, store?_setClock]
    exact ⟨_, hstore, (hmirrored.churns hchurns hn).sweep hn⟩

/-- A step that is done. -/
theorem step (h : m.Fit w signals n) {done : Bool}
    (hrun : (step m.runner).run w = .ok done v) (hconnected : m.Connected v) :
    m.Fit v (signals ++ m.heardSince w v) (n + (v.attached - w.attached)) := by
  obtain ⟨a, ha, -⟩ := h.runner
  rcases duties_of_step ha hrun with rfl | ⟨depth, u, hduties, rfl⟩
  · refine h.next (rewired_chained.refl _) ((stays_reactive _).refl _)
      (.refl h.tuned) hconnected (by omega) fun hn s hs hmirrored => ⟨s, hs, ?_⟩
    rwa [Nat.sub_self, Nat.add_zero, List.append_nil]
  · exact h.duties ha hduties hconnected

/-- Something that the mirror does not hear and that does no more to the store
than systems do. -/
theorem works (h : m.Fit w signals n) (hrewired : w.Rewired v)
    (hworks : Works m.runner w v) (hhushed : m.Hushed w v)
    (hconnected : m.Connected v) :
    m.Fit v (signals ++ m.heardSince w v) (n + (v.attached - w.attached)) := by
  refine h.next hrewired hworks.stays (hhushed h.tuned) hconnected (by omega) ?_
  intro hn s hs hmirrored
  obtain ⟨t, k, ht, hcount, hchurns⟩ := hworks.store s hs
  rw [hcount, Nat.add_sub_cancel_left] at hn ⊢
  rw [List.append_nil]
  exact ⟨t, ht, hmirrored.churns hchurns hn⟩

end Fit

/-- What a mirror knows fits all along a run. -/
theorem Run.fit (h : m.Run w signals n) : m.Fit w signals n := by
  induction h with
  | start ready empty =>
      exact .of_ready ready fun _ => ⟨{}, empty, Store.mirrored_empty⟩
  | spawn _ accepted connected ih => exact ih.spawn accepted connected
  | refuse _ refused ih =>
      rw [eq_of_refused refused]
      refine ih.next (rewired_chained.refl _) ((stays_reactive _).refl _)
        (.refl ih.tuned)
        ih.connected (Nat.le_refl _) fun _ s hs hmirrored => ⟨s, hs, ?_⟩
      rwa [List.append_nil]
  | step _ completed connected ih => exact ih.step completed connected
  | overrun _ runner duties connected ih =>
      exact ih.duties runner duties connected
  | @broken w v signals n depth a cause _ runner breaks connected ih =>
      obtain ⟨b, hb, -, hmodest⟩ := ih.runner
      rw [runner, Option.some.injEq] at hb
      subst hb
      obtain ⟨hworks, hhushed, hrewired⟩ :=
        systems_keep runner hmodest depth a.info
      rw [left_of_error breaks] at hworks hhushed hrewired
      exact ih.works hrewired hworks hhushed connected
  | @turn w v signals n j _ taken ih =>
      have hworks := (works_turn j m.runner).of_ok taken
      have hsilent := silent_turn j (.runner m.runner) w
      rw [left_of_ok taken] at hsilent
      exact ih.works (.of_buses_eq hsilent.buses) hworks hsilent.hushed
        (ih.connected.congr hsilent.buses)
  | @other w v signals n asked _ ready store _ ih =>
      refine .of_ready ready fun hn => ?_
      obtain ⟨s, hs, hmirrored⟩ := ih.store hn
      refine ⟨_, by rw [store, hs]; rfl, ?_⟩
      exact hmirrored.churns (Store.Churns.requestAll s asked) hn

/-- After every run in which fewer than `2 ^ 31` entities were created, the
table that is kept by what two listeners hear tells of the live models and links
of the store, and of nothing else, each under its number with the name and the
number of the parent that the store holds; and no number was announced as added
twice. -/
theorem agrees_of_run (h : m.Run w signals n) (hn : n < 2 ^ 31) :
    ∃ s, w.store? (.runner m.runner) = some s ∧
      Signal.listing signals = s.listing ∧
      (signals.filterMap Signal.added?).Nodup := by
  obtain ⟨s, hs, hmirrored⟩ := h.fit.store hn
  exact ⟨s, hs, hmirrored.listing_eq hn, hmirrored.once⟩

/-- Two models with a link each are spawned, and a joint attaches between the
links. The first model is removed, and a third model takes its place under
another number. -/
theorem agrees_of_run_of_reused_slot :
    let requests : List Request :=
      [⟨.runner 0, .makeRunner (some 0) defaultStep none⟩,
      ⟨.runner 0, .act (.connect 0 .addToStore "added" [] 0)⟩,
      ⟨.runner 0, .act (.connect 0 .removeFromStore "removed" [] 0)⟩]
    let m : Mirror := ⟨0, 0, [0], ⟨0, "added", 0⟩, ⟨1, "removed", 0⟩⟩
    let scene : Scene := ⟨[⟨"crane", ["hook"], []⟩, ⟨"cart", ["eye"], []⟩]⟩
    let later : Scene := ⟨[⟨"tug", [], []⟩]⟩
    let w₀ := Session.after {} requests
    let w₁ := (spawnScene (.runner 0) 0 scene).left w₀
    let w₂ := (Deed.enrol 0 none (.numbered 0) ⟨1, 0⟩
      (Session.jointElement "hook" "cart" "eye")).apply w₁
    let w₃ := (step 0).left w₂
    let w₄ := (Deed.call (.runner 0) (.remove (.handle ⟨1, 0⟩))).apply w₃
    let w₅ := (step 0).left w₄
    let w₆ := (spawnScene (.runner 0) 0 later).left w₅
    ∃ signals, m.Run w₆ signals 6 ∧ ∃ s, w₆.store? (.runner 0) = some s ∧
      Signal.listing signals = s.listing ∧
        (signals.filterMap Signal.added?).Nodup ∧
        s.listing = .ofList
          [(Entity.raw ⟨2, 0⟩, ⟨some "hook", Entity.raw ⟨1, 0⟩⟩),
          (Entity.raw ⟨3, 0⟩, ⟨some "cart", 0⟩),
          (Entity.raw ⟨4, 0⟩, ⟨some "eye", Entity.raw ⟨3, 0⟩⟩),
          (Entity.raw ⟨1, 1⟩, ⟨some "tug", 0⟩)] := by
  intro requests m scene later w₀ w₁ w₂ w₃ w₄ w₅ w₆
  have h₀ : w₀.Reachable := Session.reachable_after requests
  have h₂ : w₂.Reachable := (h₀.spawnScene _ _ scene).deed _
  have h₄ : w₄.Reachable := (h₂.step 0).deed _
  have hready₀ : m.Ready w₀ :=
    .of_joints h₀ (by decide +kernel) (by decide +kernel) (by decide +kernel)
  have hready₂ : m.Ready w₂ :=
    .of_joints h₂ (by decide +kernel) (by decide +kernel) (by decide +kernel)
  have hready₄ : m.Ready w₄ :=
    .of_joints h₄ (by decide +kernel) (by decide +kernel) (by decide +kernel)
  have hfirst : EStateM.run' (spawnScene (.runner 0) 0 scene) w₀ =
      some (.ok []) := by
    decide +kernel
  have hsecond : EStateM.run' (step 0) w₂ = some true := by decide +kernel
  have hthird : EStateM.run' (step 0) w₄ = some true := by decide +kernel
  have hlast : EStateM.run' (spawnScene (.runner 0) 0 later) w₅ =
      some (.ok []) := by
    decide +kernel
  have hrun₀ : m.Run w₀ [] 0 := .start hready₀ (by decide +kernel)
  have hrun₁ := hrun₀.spawn (run_of_run' hfirst) (by decide +kernel)
  have hrun₂ := hrun₁.other [] hready₂ (by decide +kernel) (by decide +kernel)
  have hrun₃ := hrun₂.step (run_of_run' hsecond) (by decide +kernel)
  have hrun₄ := hrun₃.other [⟨1, 0⟩] hready₄ (by decide +kernel)
    (by decide +kernel)
  have hrun₅ := hrun₄.step (run_of_run' hthird) (by decide +kernel)
  have hrun₆ := hrun₅.spawn (run_of_run' hlast) (by decide +kernel)
  have hcreated : 0 + scene.size + (w₃.attached - w₂.attached) +
      (w₅.attached - w₄.attached) + later.size = 6 := by decide +kernel
  rw [hcreated] at hrun₆
  obtain ⟨s, hs, hagrees, honce⟩ := agrees_of_run hrun₆ (by decide)
  have hlisting : (w₆.store? (.runner 0)).map Store.listing =
      some (.ofList [(Entity.raw ⟨2, 0⟩, ⟨some "hook", Entity.raw ⟨1, 0⟩⟩),
        (Entity.raw ⟨3, 0⟩, ⟨some "cart", 0⟩),
        (Entity.raw ⟨4, 0⟩, ⟨some "eye", Entity.raw ⟨3, 0⟩⟩),
        (Entity.raw ⟨1, 1⟩, ⟨some "tug", 0⟩)]) := by decide +kernel
  rw [hs, Option.map_some, Option.some.injEq] at hlisting
  exact ⟨_, hrun₆, s, hs, hagrees, honce, hlisting⟩

end Mirror

end Linkage
