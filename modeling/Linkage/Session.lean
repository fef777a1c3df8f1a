import Linkage.Format
import Linkage.World.Stepping

/-!
# Sessions

A session is a list of operations on one world. Each gives a reply, the size and
revision of the store it was meant for, and what was logged and traced while it
ran. An operation that breaks off replies with the reason, and what it did up to
then stays done.

## Main results

* `Session.run_length`: every operation has a step.
-/

namespace Linkage

/-- A system that an operation adds. -/
inductive SystemRequest
  | joint (label : Option String) (transport : TransportRef)
  | script (name : String) (configure update : List Scheduled)
  | inert

/-- How the plugins of a scene that describe joints are added to a runner. -/
structure JointPlan where
  labelStem : String
  transport : TransportRef

/-- An operation of a session. -/
inductive Operation
  | act (action : Action)
  | copyStore (target : Nat)
  | makeRunner (bus : Option Nat) (dt : Duration) (own : Option Nat)
  | dropRunner (runner : Nat)
  | step (runner : Nat)
  | run (runner : Nat) (steps : Nat)
  | pause (runner : Nat) (paused : Bool)
  | info (runner : Nat)
  | addSystem (runner : Nat) (system : SystemRequest) (e : EntityRef)
      (element : Element)
  | systemKind (runner : Nat) (index : Nat)
  | makeJoint (label : String) (transport : TransportRef)
  | configureJoint (label : String) (e : EntityRef) (element : Element)
  | updateJoint (label : String)
  | jointState (label : String)
  | spawnScene (format : Format) (text : String) (bus : Option Nat)
      (joints : Option JointPlan)

/-- An operation and the store it is meant for. -/
structure Request where
  store : StoreRef
  operation : Operation

/-- What an operation replied and left behind. -/
structure SessionStep where
  reply : Reply
  counts : Option (Nat × Nat)
  log : Log
  trace : List TraceEntry

namespace Session

open Act

/-- The element of a joint described by its three required parameters. -/
def jointElement (parentLink childModel childLink : String) : Element :=
  ((({ name := "plugin" } : Element).withParam "parent_link"
    (.text parentLink)).withParam
    "child_model" (.text childModel)).withParam "child_link" (.text childLink)

/-- Do something with an entity that a scenario means. -/
def onEntity (ref : EntityRef) (f : Entity → Act Reply) : Act Reply := do
  match (← get).names.entity? ref with
  | none => return .unknown "entity"
  | some e => f e

/-- Do something with a runner. -/
def onRunner (r : Nat) (f : Runner → Act Reply) : Act Reply := do
  match (← get).runner? r with
  | none => return .unknown "runner"
  | some runner => f runner

/-- Reply with the state of a joint. -/
def replyJoint (j : Nat) : Act Reply := do
  match (← get).joints[j]? with
  | none => return .unknown "joint"
  | some slot => return .controller slot.controller

/-- The bus of a new runner: one that a number calls, or a new one. -/
def busFor (number : Option Nat) : Act Nat :=
  change fun w =>
    match number with
    | some n => w.busNumbered n
    | none => w.addBus

/-- Make a joint and label it. -/
def addJoint (label : Option String) (transport : TransportRef) : Act Nat :=
  change fun w =>
    let made := w.addJoint transport
    (made.1, match label with
      | some l => made.2.labelJoint l made.1
      | none => made.2)

/-- The system that an operation asks for, with its joint made. -/
def prepare : SystemRequest → Act NewSystem
  | .joint label transport => do return .joint (← addJoint label transport)
  | .script name configure update => return .script name configure update
  | .inert => return .inert

/-- The plugin name that stands for a detachable joint. -/
def jointPlugin : String := "detachable_joint"

/-- Add the plugins that describe joints to a runner, labelling them by their
count. -/
def addJoints (r : Nat) (plan : JointPlan) : Nat → List PendingPlugin → Act Unit
  | _, [] => return
  | count, p :: rest => do
      if p.element.text? "name" = some jointPlugin then
        let j ← addJoint (some (plan.labelStem ++ toString count))
            plan.transport
        let _ ← addSystem r (.joint j) p.model p.element
        addJoints r plan (count + 1) rest
      else addJoints r plan count rest

/-- Parse and spawn a scene, then add its joints if that is asked for. -/
def spawnText (store : StoreRef) (f : Format) (text : String) (b : Nat)
    (plan : Option JointPlan) : Act Reply := do
  match f.read? Schema.scene text with
  | none => return .refused (.unreadable "inline")
  | some scene =>
      match ← spawnScene store b scene with
      | .error e => return .refused (.duplicateName e)
      | .ok plugins =>
          match store, plan with
          | .runner r, some plan => addJoints r plan 0 plugins
          | _, _ => pure ()
          return .plugins plugins

/-- The kind of a system, if there is one. -/
def kindOf : Option System → KindView
  | some (.joint _) => ⟨true, false, false⟩
  | some (.script ..) => ⟨false, true, false⟩
  | some .inert => ⟨false, false, true⟩
  | none => ⟨false, false, false⟩

/-- Carry out an operation. -/
def perform (store : StoreRef) : Operation → Act Reply
  | .act action =>
      settled action.weight fun performer =>
        performWith performer (some store) action
  | .copyStore target => change fun w =>
      match w.store? store with
      | none => (.unknown "store", w)
      | some s => (.nothing, w.setStore (.standalone target) s)
  | .makeRunner bus dt own => do
      let b ← busFor bus
      let r ← makeRunner b dt
      modify fun w => match own with
        | some n => { w with busNumbers := w.busNumbers.insert n b }
        | none => w
      return .count r
  | .dropRunner r => return .flag (← dropRunner r)
  | .step r => onRunner r fun _ => return .flag (← step r)
  | .run r n => onRunner r fun _ => return .count (← runSteps r n 0)
  | .pause r paused => onRunner r fun _ => do
      announcePause r paused
      return .nothing
  | .info r => onRunner r fun runner =>
      return .runner runner.info runner.paused runner.stopped
        runner.systems.length
  | .addSystem r request e element => onRunner r fun _ => onEntity e fun e => do
      let new ← prepare request
      return .count (← addSystem r new e element)
  | .systemKind r index =>
      onRunner r fun runner => return .kind (kindOf runner.systems[index]?)
  | .makeJoint label transport => do
      let _ ← addJoint (some label) transport
      return .nothing
  | .configureJoint label e element =>
      onJoint label fun j => onEntity e fun e => do
      configureJoint j store e element
      replyJoint j
  | .updateJoint label => onJoint label fun j => do
      updateJoint j store
      replyJoint j
  | .jointState label => onJoint label replyJoint
  | .spawnScene f text bus joints =>
      match store, bus with
      | .runner r, none =>
          onRunner r fun runner => spawnText store f text runner.bus joints
      | .runner r, some n =>
          onRunner r fun _ => onBus n fun b => spawnText store f text b joints
      | .standalone _, n =>
          onBus (n.getD 0) fun b => spawnText store f text b joints

/-- Carry out one operation on a world and take what it logged and traced. -/
def stepWorld (w : World) (request : Request) : SessionStep × World :=
  let finish := fun (reply : Reply) (after : World) =>
    let counts := (after.store? request.store).map fun s => (s.size, s.revision)
    (({ reply, counts, log := after.log, trace := after.trace } : SessionStep),
      { after with log := [], trace := [] })
  match (perform request.store request.operation).run w with
  | .ok reply after => finish reply after
  | .error cause after => finish (.panicked cause.text) after

/-- The steps of operations carried out in a world, one after the other. -/
def runFrom (w : World) : List Request → List SessionStep
  | [] => []
  | request :: rest =>
      let done := stepWorld w request
      done.1 :: runFrom done.2 rest

/-- The steps of a session in a new world. -/
def run (requests : List Request) : List SessionStep := runFrom {} requests

theorem runFrom_length (w : World) (requests : List Request) :
    (runFrom w requests).length = requests.length := by
  induction requests generalizing w with
  | nil => rfl
  | cons request rest ih => simp [runFrom, ih]

theorem run_length (requests : List Request) :
    (run requests).length = requests.length :=
  runFrom_length _ _

end Session

end Linkage
