import Linkage.World.Perform

/-!
# Stepping

A runner drives systems over one store. A step calls every system in
registration order, applies the removals asked for so far and announces each,
hands a snapshot of the store to whoever listens for it, and then advances the
clock. A runner that is paused or stopped refuses to step. Its switches are
listeners of its bus, so several runners on one bus are paused and stopped
together.

The iteration count is raised before the simulated time, and a time past the
bound breaks the step off between the two.

## Main results

* `advance_ok`: advancing the clock counts the step and adds its length.
-/

namespace Linkage

open Act

/-- The length of a step unless another is asked for. -/
def defaultStep : Duration := ⟨tenTo 6⟩

/-- What a runner's clock cannot pass. -/
def clockOverflow : Panic := ⟨"overflow when adding durations"⟩

/-- Make a runner on a bus and connect its switches, pause before stop. -/
def makeRunner (b : Nat) (dt : Duration) : Act Nat :=
  change fun w =>
    let r := w.runners.length
    let pause := (w.bus b).connect .pause (.pauseSwitch r)
    let stop := pause.2.connect .stop (.stopSwitch r)
    let runner : Runner :=
      { bus := b, pauseConnection := pause.1, stopConnection := stop.1,
        info := { dt } }
    let w := w.setBus b stop.2
    (r, { w with runners := w.runners ++ [some runner] })

/-- Drop a runner, disconnecting its switches, and tell whether there was
one. -/
def dropRunner (r : Nat) : Act Bool :=
  change fun w =>
    match w.runner? r with
    | none => (false, w)
    | some runner =>
        let pause := (w.bus runner.bus).disconnect ⟨.pause,
          runner.pauseConnection⟩
        let stop := pause.2.disconnect ⟨.stop, runner.stopConnection⟩
        (true, (w.setBus runner.bus stop.2).setRunner r none)

/-- Perform the actions of a system on the store of its runner, recording each.
An action that is meant for one step is performed in that step only, so never
outside of one. -/
def playSystem (performer : Performer) (r : Nat) (name : String)
    (iteration : Option Nat) :
    Nat → List Scheduled → Act Unit
  | _, [] => pure ()
  | index, a :: rest => do
      if a.only = none ∨ a.only = iteration then
        let reply ← performer (some (.runner r)) a.action
        record (.systemActed name index reply)
      playSystem performer r name iteration (index + 1) rest

/-- Configure a joint with an element, on a store. -/
def configureJoint (j : Nat) (ref : StoreRef) (e : Entity) (element : Element) :
    Act Unit :=
  modify fun w =>
    match w.joints[j]?, w.store? ref with
    | some slot, some s =>
        let configured := slot.controller.configure e element s
        (w.setController j configured.1).report configured.2
    | _, _ => w

/-- Let a joint do its part of a step, on a store. -/
def updateJoint (j : Nat) (ref : StoreRef) : Act Unit :=
  modify fun w =>
    match w.joints[j]?, w.store? ref with
    | some slot, some s =>
        let before : Controller.Situation Callback :=
          { controller := slot.controller, store := s,
            endpoint := w.endpoint slot.transport }
        let after := Controller.preUpdate (.detach j) before
        (((w.setController j after.controller).setStore ref
          after.store).setEndpoint
          slot.transport after.endpoint).report after.log
    | _, _ => w

/-- A system to be added: a joint that exists already, a script, or one that
does nothing. -/
inductive NewSystem
  | joint (id : Nat)
  | script (name : String) (configure : List Scheduled)
      (update : List Scheduled)
  | inert

namespace NewSystem

/-- The system that is registered once it is configured. -/
def system : NewSystem → System
  | .joint id => .joint id
  | .script name _ update => .script name update
  | .inert => .inert

/-- How many runs of actions configuring can give rise to. -/
def weight : NewSystem → Nat
  | .script _ configure _ => Action.weightAll (configure.map Scheduled.action)
  | _ => 0

end NewSystem

/-- Configure a system. -/
def configureSystem (performer : Performer) (r : Nat) (e : Entity)
    (element : Element) :
    NewSystem → Act Unit
  | .joint j => configureJoint j (.runner r) e element
  | .inert => pure ()
  | .script name configure _ => do
      let w ← get
      let pauseListeners := match w.runner? r with
        | some runner => (w.bus runner.bus).listenerCount .pause
        | none => 0
      record (.configured name e element pauseListeners)
      playSystem performer r name none 0 configure

/-- Configure a system, register it with a runner, and give its position. A
system whose configuration breaks off is not registered. -/
def addSystem (r : Nat) (new : NewSystem) (e : Entity) (element : Element) :
    Act Nat := do
  log .debug s!"configuring system '{new.system.name}'"
  settled new.weight fun performer => configureSystem performer r e element new
  change fun w =>
    match w.runner? r with
    | none => (0, w)
    | some runner =>
        (runner.systems.length,
          w.setRunner r
            (some { runner with systems := runner.systems ++ [new.system] }))

/-- Let a system do its part of a step. -/
def updateSystem (performer : Performer) (r : Nat) (info : StepInfo) :
    System → Act Unit
  | .joint j => updateJoint j (.runner r)
  | .inert => pure ()
  | .script name update => do
      record (.updated name info)
      playSystem performer r name (some info.iterations) 0 update

/-- Apply the removals asked for and give the removed entities. -/
def applyRemovals (r : Nat) : Act (List Entity) :=
  change fun w =>
    match w.store? (.runner r) with
    | none => ([], w)
    | some s => (s.applyRemovals.1, w.setStore (.runner r) s.applyRemovals.2)

/-- Report and announce that an entity was removed. -/
def announceRemoval (performer : Performer) (b : Nat) (e : Entity) :
    Act Unit := do
  log .debug s!"removed entity {e.text}"
  let _ ← emitOn performer b (.removeFromStore e.raw)

/-- Hand a snapshot of the store to the listeners, if there are any. -/
def announceSnapshot (performer : Performer) (r b : Nat) (info : StepInfo) :
    Act Unit := do
  let w ← get
  if 0 < (w.bus b).listenerCount .syncStoreToGui then
    match w.store? (.runner r) with
    | none => pure ()
    | some s =>
        let _ ← emitOn performer b (.syncStoreToGui s info)

/-- Count a completed step. -/
def StepInfo.count (i : StepInfo) : StepInfo :=
  { i with iterations := i.iterations + 1 }

/-- Advance the clock of a runner by one step. -/
def advance (r : Nat) : Act Unit := do
  let w ← get
  match w.runner? r with
  | none => pure ()
  | some runner =>
      let counted := runner.info.count
      set (w.setRunner r (some { runner with info := counted }))
      match counted.simTime.add? counted.dt with
      | none => throw clockOverflow
      | some simTime =>
          set (w.setRunner r
            (some { runner with info := { counted with simTime } }))

/-- The phases of a step of a runner that is neither paused nor stopped. -/
def stepPhases (performer : Performer) (r : Nat) (runner : Runner) :
    Act Unit := do
  runner.systems.forM (updateSystem performer r runner.info)
  let removed ← applyRemovals r
  removed.forM (announceRemoval performer runner.bus)
  announceSnapshot performer r runner.bus runner.info
  advance r

/-- How many runs of actions a step of the systems can give rise to. -/
def systemsWeight : List System → Nat
  | [] => 0
  | .script _ update :: rest =>
      Action.weightAll (update.map Scheduled.action) + systemsWeight rest
  | _ :: rest => systemsWeight rest

/-- Step a runner and tell whether it did. -/
def step (r : Nat) : Act Bool := do
  match (← get).runner? r with
  | none => return false
  | some runner =>
      if runner.stopped || runner.paused then return false
      settled (systemsWeight runner.systems) fun performer =>
        stepPhases performer r runner
      return true

/-- Step a runner up to a number of times and count the steps it did. -/
def runSteps (r : Nat) : Nat → Nat → Act Nat
  | 0, count => return count
  | n + 1, count => do
      if ← step r then runSteps r n (count + 1) else return count

/-- Announce pausing or resuming on the bus of a runner. -/
def announcePause (r : Nat) (paused : Bool) : Act Unit := do
  match (← get).runner? r with
  | none => pure ()
  | some runner =>
      settled 0 fun performer => do
        let _ ← emitOn performer runner.bus (.pause paused)

/-- Spawn a link of a scene and announce it. -/
def spawnDeclaredLink (performer : Performer) (ref : StoreRef) (b : Nat)
    (model : Entity) (name : String) : Act Unit := do
  let link ← change fun w =>
    match w.store? ref with
    | none => (Entity.null, w)
    | some s =>
        let made := s.spawnLink model name; (made.1, w.setStore ref made.2)
  let _ ← emitOn performer b (.addToStore link.raw name model.raw)

/-- Spawn a model of a scene with its links, announcing each, and give its
plugins. -/
def spawnDeclaredModel (performer : Performer) (ref : StoreRef) (b : Nat)
    (m : ModelDecl) :
    Act (List PendingPlugin) := do
  let model ← change fun w =>
    match w.store? ref with
    | none => (Entity.null, w)
    | some s => let made := s.spawnModel m.name; (made.1, w.setStore ref made.2)
  let _ ← emitOn performer b (.addToStore model.raw m.name 0)
  m.links.forM (spawnDeclaredLink performer ref b model)
  log .debug s!"spawned model '{m.name}' with {m.links.length} link(s)"
  let element := m.toElement
  let _ ← emitOn performer b (.loadPlugins model element)
  return (element.childrenNamed "plugin").map (PendingPlugin.mk model)

/-- Spawn the models of a scene, in order. -/
def spawnModels (performer : Performer) (ref : StoreRef) (b : Nat) :
    List ModelDecl → Act (List PendingPlugin)
  | [] => return []
  | m :: rest => do
      let plugins ← spawnDeclaredModel performer ref b m
      return plugins ++ (← spawnModels performer ref b rest)

/-- Spawn a scene into a store, announcing on a bus, unless one of its names is
taken. -/
def spawnScene (ref : StoreRef) (b : Nat) (scene : Scene) :
    Act (Except DuplicateName (List PendingPlugin)) := do
  match scene.check (((← get).store? ref).getD {}) with
  | .error e => return .error e
  | .ok () =>
      settled 0 fun performer =>
        return .ok (← spawnModels performer ref b scene.models)

theorem advance_ok {w : World} {r : Nat} {runner : Runner} {t : Duration}
    (h : w.runner? r = some runner)
    (ht : runner.info.simTime.add? runner.info.dt = some t) :
    (advance r).run w = .ok () (w.setRunner r (some
      { runner with info := { runner.info.count with simTime := t } })) := by
  show (match w.runner? r with
    | none => (pure () : Act Unit)
    | some runner => do
        set (w.setRunner r (some { runner with info := runner.info.count }))
        match runner.info.simTime.add? runner.info.dt with
        | none => throw clockOverflow
        | some simTime =>
            set (w.setRunner r
              (some { runner with info :=
                                    { runner.info.count with simTime } }))) w
    = _
  rw [h]
  show (match runner.info.simTime.add? runner.info.dt with
    | none => (throw clockOverflow : Act Unit)
    | some simTime =>
        set (w.setRunner r
          (some { runner with info := { runner.info.count with simTime } })))
    (w.setRunner r (some { runner with info := runner.info.count })) = _
  rw [ht]
  rfl

end Linkage
