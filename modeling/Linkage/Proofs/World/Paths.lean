import Linkage.Proofs.World.Deeds

/-!
# Paths

An operation takes a world along a path of reactions and deeds. Which deeds it
can do is part of the path: a step of a runner, for instance, takes turns with
the joints of that runner only, on its store only. What every deed on a path
keeps is therefore kept by the operation, whether it returns or breaks off.

## Main results

* `step_path`: a step is a path of turns, calls, a sweep and a setting of the
  clock.
* `Session.perform_path`: every operation is a path of its own deeds.
* `Session.stepWorld_path`: so is what a session makes of a request.
-/

namespace Linkage

open Act

namespace World

/-- From one world to another by reactions, and by deeds that are allowed where
they are done. -/
inductive Path (P : World → Deed → Prop) : World → World → Prop
  | refl (w : World) : Path P w w
  | react {u v w : World} (before : Path P u v)
      (reaction : v.Reaction w) : Path P u w
  | deed {u v : World} {d : Deed} (before : Path P u v) (allowed : P v d) :
      Path P u (d.apply v)

namespace Path

variable {P Q : World → Deed → Prop} {u v w : World}

theorem trans (h : Path P u v) (h' : Path P v w) : Path P u w := by
  induction h' with
  | refl => exact h
  | react _ reaction ih => exact .react ih reaction
  | deed _ allowed ih => exact .deed ih allowed

theorem of_reaction (h : u.Reaction v) : Path P u v := .react (.refl u) h

theorem of_deed {d : Deed} (h : P u d) : Path P u (d.apply u) :=
  .deed (.refl u) h

theorem sound (h : Path P u v) (hu : u.Sound) : v.Sound := by
  induction h with
  | refl => exact hu
  | react _ reaction ih => exact ih.reaction reaction
  | deed _ allowed ih => exact ih.deed _

/-- On a path it is enough to know what is allowed in the worlds that the path
goes through. -/
theorem imp (h : Path P u v) (hPQ : ∀ w d, Path P u w → P w d → Q w d) :
    Path Q u v := by
  induction h with
  | refl => exact .refl u
  | react _ reaction ih => exact .react ih reaction
  | deed before allowed ih => exact .deed ih (hPQ _ _ before allowed)

theorem mono (h : Path P u v) (hPQ : ∀ w d, P w d → Q w d) : Path Q u v :=
  h.imp fun w d _ => hPQ w d

/-- What reactions and allowed deeds keep is kept along a path. -/
theorem keeps {R : World → World → Prop} (hR : Chained R)
    (hreact : ∀ {v w : World}, v.Sound → v.Reaction w → R v w)
    (hdeed : ∀ {v : World} {d : Deed}, v.Sound → P v d → R v (d.apply v))
    (h : Path P u v) (hu : u.Sound) : R u v := by
  induction h with
  | refl => exact hR.refl u
  | react before reaction ih =>
      exact hR.trans ih (hreact (before.sound hu) reaction)
  | deed before allowed ih =>
      exact hR.trans ih (hdeed (before.sound hu) allowed)

end Path

/-- Some reactions and deeds lead from the empty world to a world. -/
def Reachable (w : World) : Prop := Path (fun _ _ => True) {} w

namespace Reachable

variable {P : World → Deed → Prop} {u v : World}

theorem path (h : u.Reachable) (h' : Path P u v) : v.Reachable :=
  h.trans (h'.mono fun _ _ _ => trivial)

theorem deed (h : u.Reachable) (d : Deed) : (d.apply u).Reachable :=
  Path.deed h trivial

theorem sound (h : u.Reachable) : u.Sound := Path.sound h sound_empty

end Reachable

end World

open World

/-- A relation that links up and allows all reactions. -/
structure Reactive (R : World → World → Prop) : Prop extends Chained R where
  react : ∀ {w w' : World}, w.Reaction w' → R w w'

theorem path_reactive (P : World → Deed → Prop) : Reactive (Path P) :=
  { refl := .refl
    trans := .trans
    react := .of_reaction }

theorem reaction_reactive : Reactive Reaction :=
  { reaction_chained with react := id }

theorem Reactive.keeps {R : World → World → Prop} (hR : Reactive R)
    {α : Type} {m : Act α} (h : Keeps Reaction m) : Keeps R m :=
  fun w => hR.react (h w)

/-! ## Systems -/

section Systems

variable {R : World → World → Prop} (hR : Reactive R)
include hR

theorem record_keeps (entry : TraceEntry) : Keeps R (Act.record entry) :=
  fun w => hR.react (reaction_callable.record w entry)

theorem log_keeps (level : Level) (text : String) :
    Keeps R (Act.log level text) :=
  fun _ => hR.react (.of_same (.of_buses_eq rfl) rfl rfl rfl rfl rfl rfl rfl)

omit hR in
/-- Only calls on stores look at the store that an action is meant for. -/
theorem performWith_some (performer : Performer) (ref : StoreRef) {a : Action}
    (h : ∀ op, a ≠ .onStore op) :
    performWith performer (some ref) a = performWith performer none a := by
  cases a with
  | onStore op => exact absurd rfl (h op)
  | _ => rfl

/-- An action on a store is a call on the store or a reaction. -/
theorem perform_keeps {ref : StoreRef} {a : Action}
    (h : ∀ op, a = .onStore op → Keeps R (callStore ref op)) (depth : Nat) :
    Keeps R (perform depth (some ref) a) := by
  cases depth with
  | zero => exact Keeps.throw hR.toChained _
  | succ depth =>
      by_cases hstore : ∃ op, a = .onStore op
      · obtain ⟨op, rfl⟩ := hstore
        exact h op rfl
      · have hsame : perform (depth + 1) (some ref) a =
            performWith (perform depth) none a :=
          performWith_some _ ref fun op heq => hstore ⟨op, heq⟩
        rw [hsame]
        exact hR.keeps (performWith_reaction (perform_reaction depth) a)

theorem playSystem_keeps {r : Nat} (name : String) (iteration : Option Nat)
    (depth : Nat) :
    ∀ (index : Nat) (script : List Scheduled),
      (∀ a ∈ script, ∀ op, a.action = .onStore op →
        Keeps R (callStore (.runner r) op)) →
      Keeps R (playSystem (perform depth) r name iteration index script)
  | _, [], _ => Keeps.pure hR.toChained ()
  | index, a :: rest, h => by
      have hrest := playSystem_keeps name iteration depth (index + 1) rest
        fun b hb => h b (by simp [hb])
      have hfirst := perform_keeps hR (h a (by simp)) depth
      unfold playSystem
      by_cases hnow : a.only = none ∨ a.only = iteration
      · simp only [hnow, if_true]
        refine hfirst.bind hR.toChained fun reply => ?_
        exact (record_keeps hR _).bind hR.toChained fun _ => hrest
      · simp only [hnow, if_false]
        exact hrest

theorem announceRemoval_keeps (depth b : Nat) (e : Entity) :
    Keeps R (announceRemoval (perform depth) b e) := by
  refine (log_keeps hR _ _).bind hR.toChained fun _ => ?_
  refine (hR.keeps (emitOn_reaction (perform_reaction depth) b _)).bind
    hR.toChained fun _ => ?_
  exact Keeps.pure hR.toChained ()

theorem announceSnapshot_keeps (depth r b : Nat) (info : StepInfo) :
    Keeps R (announceSnapshot (perform depth) r b info) := by
  refine Keeps.get_bind fun w => ?_
  by_cases h : 0 < (w.bus b).listenerCount .syncStoreToGui
  · simp only [h, if_true]
    cases w.store? (.runner r) with
    | none => exact hR.refl w
    | some s =>
        refine Keeps.bind hR.toChained
          (hR.keeps (emitOn_reaction (perform_reaction depth) b
          (.syncStoreToGui s info))) (fun _ => Keeps.pure hR.toChained ()) w
  · simp only [h, if_false]
    exact hR.refl w

end Systems

/-! ## Steps -/

/-- A deed of a step of a runner. -/
inductive StepDeed (r : Nat) (w : World) : Deed → Prop
  | turn {runner : Runner} {j : Nat} (runner? : w.runner? r = some runner)
      (owns : j ∈ runner.jointIds) : StepDeed r w (.turn j (.runner r))
  | call {runner : Runner} {name : String} {update : List Scheduled}
      {a : Scheduled} {op : StoreAction} (runner? : w.runner? r = some runner)
      (system : .script name update ∈ runner.systems) (scheduled : a ∈ update)
      (action : a.action = .onStore op) : StepDeed r w (.call (.runner r) op)
  | sweep : StepDeed r w (.sweep r)
  | clock (info : StepInfo) : StepDeed r w (.clock r info)

/-- The runner has these systems. -/
def Running (r : Nat) (systems : List System) (w : World) : Prop :=
  ∃ runner, w.runner? r = some runner ∧ runner.systems = systems

/-- The second world is reached by deeds of a step, if the runner has these
systems, and the runner has them still. -/
def Stepping (r : Nat) (systems : List System) (w w' : World) : Prop :=
  Running r systems w → Path (StepDeed r) w w' ∧ Running r systems w'

section Stepping

variable {r : Nat} {systems : List System} {w w' : World}

theorem Running.reaction (h : Running r systems w) (hr : w.Limited w') :
    Running r systems w' := by
  obtain ⟨runner, hrunner, rfl⟩ := h
  obtain ⟨after, hafter, hstill⟩ := hr.symm_runner? hrunner
  exact ⟨after, hafter, Runner.systems_of_still hstill⟩

theorem Running.setStore (h : Running r systems w)
    (ref : StoreRef) (s : Store) :
    Running r systems (w.setStore ref s) := by
  obtain ⟨runner, hrunner, rfl⟩ := h
  refine ⟨_, by rw [runner?_setStore, hrunner]; rfl, ?_⟩
  split <;> rfl

theorem Running.setClock (h : Running r systems w) (info : StepInfo) :
    Running r systems (w.setClock r info) := by
  obtain ⟨runner, hrunner, rfl⟩ := h
  refine ⟨{ runner with info }, ?_, rfl⟩
  simp [World.setClock, hrunner, runner?_setRunner_of hrunner]

theorem Running.turn (h : Running r systems w) (j : Nat) (ref : StoreRef) :
    Running r systems ((updateJoint j ref).left w) := by
  rcases left_updateJoint j ref w with heq | ⟨slot, s, y, -, -, -, heq⟩
  · rwa [heq]
  · rw [heq]
    unfold Running
    rw [runner?_settle]
    exact h.setStore ref y.store

theorem Running.callStore (h : Running r systems w) (ref : StoreRef)
    (op : StoreAction) :
    Running r systems ((callStore ref op).left w) := by
  rcases left_callStore ref op w with heq | ⟨s, reply, names, s', -, -, heq⟩
  · rwa [heq]
  · rw [heq]
    exact h.setStore ref s'

theorem Running.sweep (h : Running r systems w) (q : Nat) :
    Running r systems ((applyRemovals q).left w) := by
  rcases left_applyRemovals q w with ⟨-, heq⟩ | ⟨s, -, heq⟩
  · rwa [heq]
  · rw [heq]
    exact h.setStore (.runner q) _

theorem stepping_reactive (r : Nat) (systems : List System) :
    Reactive (Stepping r systems) :=
  { refl := fun w h => ⟨.refl w, h⟩
    trans := fun h h' hw =>
      have first := h hw
      have second := h' first.2
      ⟨first.1.trans second.1, second.2⟩
    react := fun h hw => ⟨.of_reaction h, hw.reaction h.toLimited⟩ }

theorem callStore_stepping {name : String} {update : List Scheduled}
    {a : Scheduled} {op : StoreAction} (hs : .script name update ∈ systems)
    (ha : a ∈ update) (hop : a.action = .onStore op) :
    Keeps (Stepping r systems) (callStore (.runner r) op) := by
  intro w hw
  obtain ⟨runner, hrunner, rfl⟩ := hw
  exact ⟨.of_deed (d := .call _ op) (.call hrunner hs ha hop),
    Running.callStore ⟨runner, hrunner, rfl⟩ _ op⟩

theorem updateSystem_stepping (depth : Nat) (info : StepInfo) {system : System}
    (hs : system ∈ systems) :
    Keeps (Stepping r systems)
      (updateSystem (perform depth) r info system) := by
  cases system with
  | joint j =>
      intro w hw
      obtain ⟨runner, hrunner, rfl⟩ := hw
      have hj : j ∈ runner.jointIds := List.mem_filterMap.2 ⟨.joint j, hs, rfl⟩
      exact ⟨.of_deed (d := .turn j _) (.turn hrunner hj),
        Running.turn ⟨runner, hrunner, rfl⟩ j _⟩
  | inert => exact Keeps.pure (stepping_reactive r systems).toChained ()
  | script name update =>
      have hR := stepping_reactive r systems
      refine (record_keeps hR _).bind hR.toChained fun _ => ?_
      exact playSystem_keeps hR name _ depth 0 update fun a ha op hop =>
        callStore_stepping hs ha hop

theorem applyRemovals_stepping : Keeps (Stepping r systems) (applyRemovals r) :=
  fun _ hw => ⟨.of_deed (d := .sweep r) .sweep, hw.sweep r⟩

/-- Advancing the clock sets it, even if that breaks off. -/
theorem left_advance (r : Nat) (w : World) :
    ∃ info, (advance r).left w = w.setClock r info := by
  unfold advance
  rw [left_get_bind]
  cases hr : w.runner? r with
  | none => exact ⟨default, by simp [setClock, hr]⟩
  | some runner =>
      cases ht : runner.info.count.simTime.add? runner.info.count.dt with
      | none => exact ⟨runner.info.count, by simp [setClock, hr, ht]; rfl⟩
      | some simTime =>
          exact ⟨{ runner.info.count with simTime },
            by simp [setClock, hr, ht]; rfl⟩

theorem advance_stepping : Keeps (Stepping r systems) (advance r) := by
  intro w hw
  obtain ⟨info, heq⟩ := left_advance r w
  rw [heq]
  exact ⟨.of_deed (d := .clock r info) (.clock info), hw.setClock info⟩

/-- What is to be done in a step before the clock is advanced. -/
def stepDuties (performer : Performer) (r : Nat) (a : Runner) : Act Unit := do
  a.systems.forM (updateSystem performer r a.info)
  let removed ← applyRemovals r
  removed.forM (announceRemoval performer a.bus)
  announceSnapshot performer r a.bus a.info

theorem stepPhases_eq (performer : Performer) (r : Nat) (a : Runner) :
    stepPhases performer r a = stepDuties performer r a >>= fun _ =>
      advance r := by
  simp only [stepPhases, stepDuties, bind_assoc]

theorem stepDuties_stepping (depth : Nat) (runner : Runner) :
    Keeps (Stepping r runner.systems)
      (stepDuties (perform depth) r runner) := by
  have hR := stepping_reactive r runner.systems
  refine (Keeps.forM hR.toChained runner.systems fun system hs =>
    updateSystem_stepping depth runner.info hs).bind hR.toChained fun _ => ?_
  refine applyRemovals_stepping.bind hR.toChained fun removed => ?_
  refine (Keeps.forM hR.toChained removed fun e _ =>
    announceRemoval_keeps hR depth runner.bus e).bind hR.toChained fun _ => ?_
  exact announceSnapshot_keeps hR depth r runner.bus runner.info

theorem stepPhases_stepping (depth : Nat) (runner : Runner) :
    Keeps (Stepping r runner.systems)
      (stepPhases (perform depth) r runner) := by
  rw [stepPhases_eq]
  exact (stepDuties_stepping depth runner).bind
    (stepping_reactive r runner.systems).toChained fun _ => advance_stepping

end Stepping

theorem run_settled {α : Type} (weight : Nat)
    (body : Performer → Act α) (w : World) :
    (settled weight body).run w =
      (body (perform (w.weight + weight + 1))).run w := rfl

/-- A step of a runner that is neither paused nor stopped goes through its
phases. -/
theorem run_step {r : Nat} {w : World} {runner : Runner}
    (hr : w.runner? r = some runner)
    (hgo : (runner.stopped || runner.paused) = false) :
    (step r).run w =
      (stepPhases (perform (w.weight + systemsWeight runner.systems + 1))
        r runner
      >>= fun _ => pure true).run w := by
  unfold step
  rw [run_get_bind, hr]
  simp only [hgo, Bool.false_eq_true, if_false]
  rw [run_bind, run_bind, run_settled]

/-- A runner that is paused, stopped or gone does not step. -/
theorem run_step_skipped {r : Nat} {w : World}
    (h : ∀ runner, w.runner? r = some runner →
      (runner.stopped || runner.paused) = true) :
    (step r).run w = .ok false w := by
  unfold step
  rw [run_get_bind]
  cases hr : w.runner? r with
  | none => rfl
  | some runner =>
      simp only [h runner hr, if_true]
      rfl

/-- A step is a path of its deeds, and the runner keeps its systems. -/
theorem step_stepping {r : Nat} {w : World} {runner : Runner}
    (hr : w.runner? r = some runner) :
    Path (StepDeed r) w ((step r).left w) ∧
    Running r runner.systems ((step r).left w) := by
  cases hgo : runner.stopped || runner.paused with
  | false =>
      have hR := stepping_reactive r runner.systems
      have hphases := stepPhases_stepping (r := r)
        (w.weight + systemsWeight runner.systems + 1) runner
      unfold Act.left
      rw [run_step hr hgo]
      exact hphases.bind hR.toChained (fun _ => Keeps.pure hR.toChained true) w
        ⟨runner, hr, rfl⟩
  | true =>
      have hskip := run_step_skipped (r := r) (w := w) fun x hx => by
        rw [hr] at hx
        cases hx
        exact hgo
      rw [left_of_ok hskip]
      exact ⟨.refl w, runner, hr, rfl⟩

theorem run_step_of_none {r : Nat} {w : World} (hr : w.runner? r = none) :
    (step r).run w = .ok false w :=
  run_step_skipped fun runner hrunner => by rw [hr] at hrunner; cases hrunner

theorem step_path (r : Nat) : Keeps (Path (StepDeed r)) (step r) := by
  intro w
  cases hr : w.runner? r with
  | none =>
      rw [left_of_ok (run_step_of_none hr)]
      exact .refl w
  | some runner => exact (step_stepping hr).1

theorem World.Reachable.step {w : World} (h : w.Reachable) (r : Nat) :
    ((step r).left w).Reachable := h.path (step_path r w)

/-- The phases of a step that is done: the systems take their turns, the
removals asked for are applied, listeners react to the announcements, and the
clock is set. -/
theorem phases_of_step {r : Nat} {w w' : World}
    (h : (step r).run w = .ok true w') :
    ∃ runner w₁ w₂ info, w.runner? r = some runner ∧
      (runner.stopped || runner.paused) = false ∧
      (runner.systems.forM (updateSystem
        (perform (w.weight + systemsWeight runner.systems + 1)) r
          runner.info)).run w = .ok () w₁ ∧
      ((applyRemovals r).left w₁).Reaction w₂ ∧ w' = w₂.setClock r info := by
  by_cases hgo : ∃ runner, w.runner? r = some runner ∧
    (runner.stopped || runner.paused) = false
  · obtain ⟨runner, hr, hgo⟩ := hgo
    rw [run_step hr hgo] at h
    obtain ⟨⟨⟩, v, hphases, h⟩ := run_bind_eq_ok_iff.1 h
    cases h
    obtain ⟨⟨⟩, w₁, hturns, h₁⟩ := run_bind_eq_ok_iff.1 hphases
    obtain ⟨removed, w₂, hsweep, h₂⟩ := run_bind_eq_ok_iff.1 h₁
    obtain ⟨⟨⟩, w₃, hremoved, h₃⟩ := run_bind_eq_ok_iff.1 h₂
    obtain ⟨⟨⟩, w₄, hsnapshot, h₄⟩ := run_bind_eq_ok_iff.1 h₃
    have hR := reaction_reactive
    have hannounce := (Keeps.forM hR.toChained removed fun e _ =>
      announceRemoval_keeps hR _ runner.bus e).of_ok hremoved
    have hshow :=
      (announceSnapshot_keeps hR _ r runner.bus runner.info).of_ok hsnapshot
    obtain ⟨info, hinfo⟩ := left_advance r w₄
    rw [left_of_ok h₄] at hinfo
    refine ⟨runner, w₁, w₄, info, hr, hgo, hturns, ?_, hinfo⟩
    rw [left_of_ok hsweep]
    exact reaction_chained.trans hannounce hshow
  · have hskip := run_step_skipped (r := r) (w := w) fun runner hr => by
      by_contra hno
      exact hgo ⟨runner, hr, by simpa using hno⟩
    rw [hskip] at h
    cases h

theorem runSteps_path (r : Nat) :
    ∀ n count : Nat, Keeps (Path (StepDeed r)) (runSteps r n count)
  | 0, _ => Keeps.pure (path_reactive _).toChained _
  | n + 1, count => by
      refine (step_path r).bind (path_reactive _).toChained fun done => ?_
      cases done with
      | true => exact runSteps_path r n (count + 1)
      | false => exact Keeps.pure (path_reactive _).toChained _

/-! ## Operations -/

/-- A deed of an operation that is meant for a store and begins in a world. -/
inductive RequestDeed (start : World) (ref : StoreRef) :
    Operation → World → Deed → Prop
  | call (op : StoreAction) :
      RequestDeed start ref (.act (.onStore op)) start (.call ref op)
  | copy (target : Nat) (v : World) :
      RequestDeed start ref (.copyStore target) v (.copy ref target)
  | makeRunner {bus own : Option Nat} {dt : Duration} (b : Nat) (v : World) :
      RequestDeed start ref (.makeRunner bus dt own) v (.makeRunner b dt)
  | dropRunner (r : Nat) (v : World) :
      RequestDeed start ref (.dropRunner r) v (.dropRunner r)
  | step {r : Nat} {v : World} {d : Deed} (deed : StepDeed r v d) :
      RequestDeed start ref (.step r) v d
  | run {r n : Nat} {v : World} {d : Deed} (deed : StepDeed r v d) :
      RequestDeed start ref (.run r n) v d
  | enrol {r : Nat} {label : Option String} {transport : TransportRef}
      {eref : EntityRef} {element : Element} (e : Entity) (v : World) :
      RequestDeed start ref
        (.addSystem r (.joint label transport) eref element) v
        (.enrol r label transport e element)
  | configureCall {r : Nat} {name : String} {configure update : List Scheduled}
      {eref : EntityRef} {element : Element} {a : Scheduled}
      {op : StoreAction} {v : World} (scheduled : a ∈ configure)
      (action : a.action = .onStore op) :
      RequestDeed start ref
        (.addSystem r (.script name configure update) eref element) v
        (.call (.runner r) op)
  | enlistScript {r : Nat} {name : String} {configure update : List Scheduled}
      {eref : EntityRef} {element : Element} (v : World) :
      RequestDeed start ref
        (.addSystem r (.script name configure update) eref element) v
        (.enlistScript r name update)
  | enlistInert {r : Nat} {eref : EntityRef} {element : Element} (v : World) :
      RequestDeed start ref (.addSystem r .inert eref element) v
        (.enlistInert r)
  | makeJoint (label : String) (transport : TransportRef) (v : World) :
      RequestDeed start ref (.makeJoint label transport) v
        (.makeJoint (some label) transport)
  | configure {label : String} {eref : EntityRef} {element : Element}
      {j : Nat} (e : Entity) (v : World)
      (joint : start.names.joints.get? label = some j) :
      RequestDeed start ref (.configureJoint label eref element) v
        (.configure j ref e element)
  | turn {label : String} {j : Nat}
      (joint : start.names.joints.get? label = some j) :
      RequestDeed start ref (.updateJoint label) start (.turn j ref)
  | spawnModel {f : Format} {text : String} {bus : Option Nat}
      {plan : Option JointPlan} (name : String) (v : World) :
      RequestDeed start ref (.spawnScene f text bus plan) v
        (.call ref (.spawnModel name none))
  | spawnLink {f : Format} {text : String} {bus : Option Nat}
      {plan : Option JointPlan} (model : Entity) (name : String) (v : World) :
      RequestDeed start ref (.spawnScene f text bus plan) v
        (.call ref (.spawnLink (.handle model) name none))
  | sceneJoint {f : Format} {text : String} {bus : Option Nat}
      {plan : JointPlan} {r : Nat} (runner : ref = .runner r) (label : String)
      (e : Entity) (element : Element) (v : World) :
      RequestDeed start ref (.spawnScene f text bus (some plan)) v
        (.enrol r (some label) plan.transport e element)

namespace Session

section Parts

variable {R : World → World → Prop} (hR : Reactive R)
include hR

theorem onEntity_keeps {ref : EntityRef} {f : Entity → Act Reply}
    (h : ∀ e, Keeps R (f e)) :
    Keeps R (onEntity ref f) := by
  refine Keeps.get_bind fun w => ?_
  cases w.names.entity? ref with
  | none => exact hR.refl w
  | some e => exact h e w

theorem onRunner_keeps {r : Nat} {f : Runner → Act Reply}
    (h : ∀ x, Keeps R (f x)) :
    Keeps R (onRunner r f) := by
  refine Keeps.get_bind fun w => ?_
  cases w.runner? r with
  | none => exact hR.refl w
  | some x => exact h x w

theorem replyJoint_keeps (j : Nat) : Keeps R (replyJoint j) := by
  refine Keeps.get_bind fun w => ?_
  cases w.joints[j]? with
  | none => exact hR.refl w
  | some slot => exact hR.refl w

theorem onBus_keeps {α : Type} {number : Nat} {f : Nat → Act α}
    (h : ∀ b, Keeps R (f b)) :
    Keeps R (onBus number f) :=
  Keeps.bind hR.toChained
    (Keeps.change fun w => hR.react (busNumbered_reaction w number)) h

omit hR in
theorem settled_keeps {α : Type} {weight : Nat} {body : Performer → Act α}
    (h : ∀ depth, Keeps R (body (Linkage.perform depth))) :
    Keeps R (settled weight body) :=
  Keeps.get_bind fun w => h _ w

theorem emit_keeps (depth b : Nat) (s : Signal) :
    Keeps R (emitOn (Linkage.perform depth) b s) :=
  hR.keeps (emitOn_reaction (perform_reaction depth) b s)

end Parts

/-! ## Scenes -/

section Scenes

variable {P : World → Deed → Prop} {ref : StoreRef}
  (hmodel : ∀ name v, P v (.call ref (.spawnModel name none)))
  (hlink : ∀ model name v,
    P v (.call ref (.spawnLink (.handle model) name none)))
include hlink

/-- Spawning a link of a scene is the call of a scenario on the store. -/
theorem spawnLink_path (model : Entity) (name : String) :
    Keeps (Path P) (change fun w =>
      match w.store? ref with
      | none => (Entity.null, w)
      | some s =>
          let made := s.spawnLink model name;
              (made.1, w.setStore ref made.2)) := by
  intro w
  have hcall : (Deed.call ref (.spawnLink (.handle model) name none)).apply w =
      match w.store? ref with
      | none => w
      | some s => w.setStore ref (s.spawnLink model name).2 := by
    simp only [Deed.apply, callStore, left_change]
    cases hs : w.store? ref with
    | none => rfl
    | some s =>
        show ({ w.setStore ref (s.spawnLink model name).2 with names :=
                                                                 w.names } :
                                                                 World) = _
        rw [← names_setStore w ref (s.spawnLink model name).2]
  have hpath := Path.of_deed (P := P) (hlink model name w)
  rw [hcall] at hpath
  rw [left_change]
  cases hs : w.store? ref with
  | none => exact .refl w
  | some s => simpa [hs] using hpath

theorem spawnDeclaredLink_path (depth b : Nat) (model : Entity)
    (name : String) :
    Keeps (Path P)
      (spawnDeclaredLink (Linkage.perform depth) ref b model name) := by
  have hR := path_reactive P
  refine (spawnLink_path hlink model name).bind hR.toChained fun link => ?_
  exact (emit_keeps hR depth b _).bind hR.toChained fun _ =>
    Keeps.pure hR.toChained ()

include hmodel

omit hlink in
/-- Spawning a model of a scene is the call of a scenario on the store. -/
theorem spawnModel_path (name : String) :
    Keeps (Path P) (change fun w =>
      match w.store? ref with
      | none => (Entity.null, w)
      | some s =>
          let made := s.spawnModel name; (made.1, w.setStore ref made.2)) := by
  intro w
  have hcall : (Deed.call ref (.spawnModel name none)).apply w =
      match w.store? ref with
      | none => w
      | some s => w.setStore ref (s.spawnModel name).2 := by
    simp only [Deed.apply, callStore, left_change]
    cases hs : w.store? ref with
    | none => rfl
    | some s =>
        show ({ w.setStore ref (s.spawnModel name).2 with names := w.names } :
          World) = _
        rw [← names_setStore w ref (s.spawnModel name).2]
  have hpath := Path.of_deed (P := P) (hmodel name w)
  rw [hcall] at hpath
  rw [left_change]
  cases hs : w.store? ref with
  | none => exact .refl w
  | some s => simpa [hs] using hpath

theorem spawnDeclaredModel_path (depth b : Nat) (m : ModelDecl) :
    Keeps (Path P) (spawnDeclaredModel (Linkage.perform depth) ref b m) := by
  have hR := path_reactive P
  refine (spawnModel_path hmodel m.name).bind hR.toChained fun model => ?_
  refine (emit_keeps hR depth b _).bind hR.toChained fun _ => ?_
  refine (Keeps.forM hR.toChained m.links fun name _ =>
    spawnDeclaredLink_path hlink depth b model name).bind
      hR.toChained fun _ => ?_
  refine (log_keeps hR _ _).bind hR.toChained fun _ => ?_
  exact (emit_keeps hR depth b _).bind hR.toChained fun _ =>
    Keeps.pure hR.toChained _

theorem spawnModels_path (depth b : Nat) :
    ∀ models, Keeps (Path P) (spawnModels (Linkage.perform depth) ref b models)
  | [] => Keeps.pure (path_reactive P).toChained _
  | m :: rest => by
      have hR := path_reactive P
      refine (spawnDeclaredModel_path hmodel hlink depth b m).bind hR.toChained
        fun plugins => ?_
      exact (spawnModels_path depth b rest).bind hR.toChained fun _ =>
        Keeps.pure hR.toChained _

theorem spawnScene_path (b : Nat) (scene : Scene) :
    Keeps (Path P) (spawnScene ref b scene) := by
  have hR := path_reactive P
  refine Keeps.get_bind fun w => ?_
  cases scene.check ((w.store? ref).getD {}) with
  | error e => exact .refl w
  | ok _ =>
      refine settled_keeps (fun depth => ?_) w
      exact (spawnModels_path hmodel hlink depth b scene.models).bind
        hR.toChained fun _ => Keeps.pure hR.toChained _

end Scenes

/-- Adding the joints that plugins describe enrols one after the other. -/
theorem addJoints_path {P : World → Deed → Prop} (r : Nat) (plan : JointPlan)
    (henrol : ∀ label e element v,
      P v (.enrol r (some label) plan.transport e element)) :
    ∀ count plugins, Keeps (Path P) (addJoints r plan count plugins)
  | _, [] => Keeps.pure (path_reactive P).toChained _
  | count, p :: rest => by
      have hR := path_reactive P
      unfold addJoints
      split
      · intro w
        have hassoc :
              (addJoint (some (plan.labelStem ++ toString count))
                plan.transport >>=
              fun j => addSystem r (.joint j) p.model p.element >>=
                fun _ => addJoints r plan (count + 1) rest) =
            ((addJoint (some (plan.labelStem ++ toString count))
              plan.transport >>=
              fun j => addSystem r (.joint j) p.model p.element) >>=
                fun _ => addJoints r plan (count + 1) rest) :=
          (bind_assoc _ _ _).symm
        rw [hassoc]
        refine Keeps.bind hR.toChained (fun v => ?_)
          (fun _ => addJoints_path r plan henrol (count + 1) rest) w
        exact Path.of_deed
          (henrol (plan.labelStem ++ toString count) p.model p.element v)
      · exact addJoints_path r plan henrol count rest

/-! ## Every operation -/

/-- Adding a system that is no joint configures it and registers it. -/
theorem left_addSystem {P : World → Deed → Prop} {r : Nat}
    {new : NewSystem} {e : Entity} {element : Element}
    (hconfigure : ∀ depth, Keeps (Path P)
      (configureSystem (Linkage.perform depth) r e element new))
    (hregister : ∀ v, Path P v (v.register r new.system)) :
    Keeps (Path P) (addSystem r new e element) := by
  have hR := path_reactive P
  refine (log_keeps hR _ _).bind hR.toChained fun _ => ?_
  refine (settled_keeps hconfigure).bind hR.toChained fun _ => ?_
  refine Keeps.change fun v => ?_
  have hpath := hregister v
  unfold World.register at hpath
  cases hr : v.runner? r with
  | none => exact .refl v
  | some runner =>
      rw [hr] at hpath
      exact hpath

theorem addSystem_path (start : World) (ref : StoreRef) (r : Nat)
    (request : SystemRequest) (eref : EntityRef) (element : Element)
    (e : Entity) :
    Keeps (Path (RequestDeed start ref (.addSystem r request eref element)))
      (prepare request >>= fun new => addSystem r new e element >>= fun n =>
        pure (Reply.count n)) := by
  have hR :=
    path_reactive (RequestDeed start ref (.addSystem r request eref element))
  cases request with
  | joint label transport =>
      have hsame : (prepare (.joint label transport) >>= fun new =>
            addSystem r new e element >>= fun n => pure (Reply.count n)) =
          ((addJoint label transport >>= fun j =>
            addSystem r (.joint j) e element) >>=
            fun n => pure (Reply.count n)) := by
        show ((addJoint label transport >>= fun j =>
          pure (NewSystem.joint j)) >>= fun new =>
          addSystem r new e element >>= fun n => pure (Reply.count n)) = _
        simp only [bind_assoc, pure_bind]
      rw [hsame]
      refine Keeps.bind hR.toChained (fun v => ?_) fun _ =>
        Keeps.pure hR.toChained _
      exact Path.of_deed (d := .enrol r label transport e element) (.enrol e v)
  | script name configure update =>
      show Keeps _
          (addSystem r (.script name configure update) e element >>= fun n =>
        pure (Reply.count n))
      refine (left_addSystem (fun depth => ?_) fun v => ?_).bind hR.toChained
        fun _ => Keeps.pure hR.toChained _
      · refine Keeps.get_bind fun v => ?_
        refine Keeps.bind hR.toChained (record_keeps hR _) (fun _ => ?_) v
        refine playSystem_keeps hR name none depth 0 configure
          fun a ha op hop => ?_
        exact fun u => Path.of_deed (d := .call (.runner r) op)
          (.configureCall ha hop)
      · exact Path.of_deed (d := .enlistScript r name update) (.enlistScript v)
  | inert =>
      show Keeps _ (addSystem r .inert e element >>= fun n =>
        pure (Reply.count n))
      refine (left_addSystem (fun depth => Keeps.pure hR.toChained ()) fun v =>
        ?_).bind hR.toChained fun _ => Keeps.pure hR.toChained _
      exact Path.of_deed (d := .enlistInert r) (.enlistInert v)

theorem spawnText_path (start : World) (ref : StoreRef) (f : Format)
    (text : String) (b : Nat) (bus : Option Nat) (plan : Option JointPlan) :
    Keeps (Path (RequestDeed start ref (.spawnScene f text bus plan)))
      (spawnText ref f text b plan) := by
  have hR := path_reactive (RequestDeed start ref (.spawnScene f text bus plan))
  unfold spawnText
  cases f.read? Schema.scene text with
  | none => exact Keeps.pure hR.toChained _
  | some scene =>
      refine (spawnScene_path (fun name v => .spawnModel name v)
        (fun model name v => .spawnLink model name v) b scene).bind hR.toChained
          fun result => ?_
      cases result with
      | error e => exact Keeps.pure hR.toChained _
      | ok plugins =>
          cases ref with
          | standalone n => exact Keeps.pure hR.toChained _
          | runner r =>
              cases plan with
              | none => exact Keeps.pure hR.toChained _
              | some plan =>
                  exact (addJoints_path r plan (fun label e element v =>
                    .sceneJoint rfl label e element v) 0
                      plugins).bind hR.toChained
                      fun _ => Keeps.pure hR.toChained _

/-- Every operation is a path of its own deeds. -/
theorem perform_path (ref : StoreRef) (op : Operation) (w : World) :
    Path (RequestDeed w ref op) w ((perform ref op).left w) := by
  have hR := path_reactive (RequestDeed w ref op)
  cases op with
  | act action =>
      by_cases hstore : ∃ op, action = .onStore op
      · obtain ⟨op, rfl⟩ := hstore
        exact Path.of_deed (d := .call ref op) (.call op)
      · have hkeeps : ∀ depth, Keeps (Path (RequestDeed w ref (.act action)))
            (performWith (Linkage.perform depth) (some ref) action) := by
          intro depth
          rw [performWith_some _ ref fun op heq => hstore ⟨op, heq⟩]
          exact hR.keeps (performWith_reaction (perform_reaction depth) action)
        have hsettled : Keeps (Path (RequestDeed w ref (.act action)))
            (settled action.weight fun performer =>
              performWith performer (some ref) action) :=
          settled_keeps hkeeps
        exact hsettled w
  | copyStore target =>
      have hpath : Path (RequestDeed w ref (.copyStore target)) w
          ((Deed.copy ref target).apply w) := .of_deed (.copy target w)
      show Path _ w (match w.store? ref with
        | none => (Reply.unknown "store", w)
        | some s => (.nothing, w.setStore (.standalone target) s)).2
      simp only [Deed.apply] at hpath
      cases hs : w.store? ref with
      | none => exact .refl w
      | some s =>
          rw [hs] at hpath
          exact hpath
  | makeRunner bus dt own =>
      have hbus : Keeps (Path (RequestDeed w ref (.makeRunner bus dt own)))
          (busFor bus) := by
        refine Keeps.change fun v => ?_
        cases bus with
        | none => exact .of_reaction (addBus_reaction v)
        | some n => exact .of_reaction (busNumbered_reaction v n)
      refine Keeps.bind hR.toChained hbus (fun b => ?_) w
      refine Keeps.bind hR.toChained
        (fun v => Path.of_deed (d := .makeRunner b dt)
        (.makeRunner b v)) fun r => ?_
      refine Keeps.bind hR.toChained (Keeps.modify fun v => ?_) fun _ =>
        Keeps.pure hR.toChained _
      cases own with
      | none => exact .refl v
      | some n =>
          exact .of_reaction
            (.of_same (.of_buses_eq rfl) rfl rfl rfl rfl rfl rfl rfl)
  | dropRunner r =>
      refine Keeps.bind hR.toChained (fun v => ?_)
        (fun _ => Keeps.pure hR.toChained _) w
      exact Path.of_deed (d := .dropRunner r) (.dropRunner r v)
  | step r =>
      refine onRunner_keeps hR (fun _ => ?_) w
      refine Keeps.bind hR.toChained (fun v => ?_) fun _ =>
        Keeps.pure hR.toChained _
      exact (step_path r v).mono fun u d h => .step h
  | run r n =>
      refine onRunner_keeps hR (fun _ => ?_) w
      refine Keeps.bind hR.toChained (fun v => ?_) fun _ =>
        Keeps.pure hR.toChained _
      exact (runSteps_path r n 0 v).mono fun u d h => .run h
  | pause r paused =>
      refine onRunner_keeps hR (fun _ => ?_) w
      refine Keeps.bind hR.toChained (Keeps.get_bind fun v => ?_)
        fun _ => Keeps.pure hR.toChained _
      cases v.runner? r with
      | none => exact .refl v
      | some runner =>
          refine settled_keeps (fun depth => ?_) v
          exact (emit_keeps hR depth _ _).bind hR.toChained fun _ =>
            Keeps.pure hR.toChained ()
  | info r => exact onRunner_keeps hR (fun _ => Keeps.pure hR.toChained _) w
  | addSystem r request eref element =>
      refine onRunner_keeps hR (fun _ => onEntity_keeps hR fun e => ?_) w
      exact addSystem_path w ref r request eref element e
  | systemKind r index =>
      exact onRunner_keeps hR (fun _ => Keeps.pure hR.toChained _) w
  | makeJoint label transport =>
      refine Keeps.bind hR.toChained (fun v => ?_)
        (fun _ => Keeps.pure hR.toChained _) w
      exact Path.of_deed (d := .makeJoint (some label) transport)
        (.makeJoint label transport v)
  | configureJoint label eref element =>
      show Path _ w ((onJoint label _).left w)
      unfold onJoint
      rw [left_get_bind]
      cases hl : w.names.joints.get? label with
      | none => exact .refl w
      | some j =>
          refine onEntity_keeps hR (fun e => ?_) w
          refine Keeps.bind hR.toChained (fun v => ?_) fun _ =>
            replyJoint_keeps hR j
          exact Path.of_deed (d := .configure j ref e element)
            (.configure e v hl)
  | updateJoint label =>
      show Path _ w ((onJoint label _).left w)
      unfold onJoint
      rw [left_get_bind]
      cases hl : w.names.joints.get? label with
      | none => exact .refl w
      | some j =>
          have hturn : Path (RequestDeed w ref (.updateJoint label)) w
              ((updateJoint j ref).left w) :=
            Path.of_deed (d := .turn j ref) (.turn hl)
          exact hturn.trans (replyJoint_keeps hR j _)
  | jointState label =>
      show Path _ w ((onJoint label _).left w)
      unfold onJoint
      rw [left_get_bind]
      cases w.names.joints.get? label with
      | none => exact .refl w
      | some j => exact replyJoint_keeps hR j w
  | spawnScene f text bus plan =>
      cases ref with
      | standalone n =>
          exact onBus_keeps hR (fun b => spawnText_path w _ f text b bus plan) w
      | runner r =>
          cases bus with
          | none =>
              exact onRunner_keeps hR
                (fun x => spawnText_path w _ f text x.bus none plan) w
          | some n =>
              exact onRunner_keeps hR (fun _ => onBus_keeps hR fun b =>
                spawnText_path w _ f text b (some n) plan) w

/-- One operation of a session is a path of its own deeds. -/
theorem stepWorld_path (w : World) (request : Request) :
    Path (RequestDeed w request.store request.operation) w
      (stepWorld w request).2 := by
  have hpath := perform_path request.store request.operation w
  unfold Act.left at hpath
  unfold stepWorld
  cases hrun : (perform request.store request.operation).run w with
  | ok reply after =>
      rw [hrun] at hpath
      exact .react hpath
        (.of_same (.of_buses_eq rfl) rfl rfl rfl rfl rfl rfl rfl)
  | error cause after =>
      rw [hrun] at hpath
      exact .react hpath
        (.of_same (.of_buses_eq rfl) rfl rfl rfl rfl rfl rfl rfl)

end Session

theorem World.Reachable.spawnScene {w : World} (h : w.Reachable)
    (ref : StoreRef) (b : Nat) (scene : Scene) :
    ((spawnScene ref b scene).left w).Reachable :=
  h.path (P := fun _ _ => True)
    (Session.spawnScene_path (fun _ _ => trivial)
      (fun _ _ _ => trivial) b scene w)

end Linkage
