import Linkage.World.Reply

/-!
# The world of a scenario

A world holds everything that the calls of a scenario act on. Callbacks are
values: what a channel or a topic stores is the name of a scripted player, of a
runner's pause or stop switch, or of a joint's command flag, and the thing named
lives in the world. So the world is plain data, and a call is a function that
takes a world to a result and a world.

A call can break off. What it changed before stays changed.

## Main results

* `Player.forall_response`: what holds of all actions of a player holds of its
  responses.
* `World.runner?_setRunner`: a runner that is put in place is found there.
-/

namespace Linkage

/-- What is called when a signal or a message is delivered. -/
inductive Callback
  | player (id : Nat)
  | pauseSwitch (runner : Nat)
  | stopSwitch (runner : Nat)
  | detach (joint : Nat)
  deriving DecidableEq, Repr, Inhabited

/-- A scripted listener or subscriber, and how often it still runs its
actions. -/
structure Player where
  label : String
  script : List Action
  remaining : Nat

/-- What a player performs when it is told something and has so many runs
left. -/
def Player.response (p : Player) (left : Nat) (what : Delivery) : List Action :=
  p.script.filterMap (Action.chosen left what)

namespace Player

variable {p : Player} {left : Nat} {what : Delivery}

/-- What passes from guarded actions to the actions that they guard passes from
the script to the response. -/
theorem forall_response {P : Action → Prop}
    (hP : ∀ heeds a, P (.ifTold heeds a) → P a) (h : ∀ a ∈ p.script, P a) :
    ∀ a ∈ p.response left what, P a := by
  intro b hb
  obtain ⟨a, ha, hchosen⟩ := List.mem_filterMap.1 hb
  exact Action.of_chosen hP hchosen (h a ha)

theorem weightAll_response_le (p : Player) (left : Nat) (what : Delivery) :
    Action.weightAll (p.response left what) ≤ Action.weightAll p.script :=
  Action.weightAll_chosen_le p.script

end Player

/-- A system of a runner. -/
inductive System
  | joint (id : Nat)
  | script (name : String) (update : List Scheduled)
  | inert

namespace System

/-- The name that a runner reports for a system, given that a joint goes by the
controller's. -/
def name : System → String
  | .joint _ => Controller.systemName
  | .script name _ => name
  | .inert => "inert"

end System

/-- A step driver: its store, its systems in registration order, its clock, its
switches, and the signals that the switches have heard, the latest first.
Nothing reads what was heard; laws about whole runs are stated with it. -/
structure Runner where
  bus : Nat
  pauseConnection : Nat
  stopConnection : Nat
  info : StepInfo
  store : Store := {}
  systems : List System := []
  paused : Bool := false
  stopped : Bool := false
  heard : List Signal := []

/-- A joint and the transport that it subscribes on. -/
structure JointSlot where
  controller : Controller := {}
  transport : TransportRef

/-- What labels stand for. -/
structure Names where
  entities : SortedMap String Entity := .empty
  connections : SortedMap String Connection := .empty
  joints : SortedMap String Nat := .empty

/-- A command on its way to a joint: one that was given through a handle, or a
message that was handed to a subscriber. -/
inductive Occurrence
  | asked (joint : Nat)
  | handed (transport : Nat) (topic : String) (subscriber : Callback)
  deriving DecidableEq, Repr

/-- Everything that a scenario acts on. The history tells what happened so far,
the latest first; no call reads it, and laws about whole runs are stated with
it. -/
structure World where
  buses : List (Bus Callback) := []
  busNumbers : SortedMap Nat Nat := .empty
  transports : SortedMap Nat (Transport Callback) := .empty
  stores : SortedMap Nat Store := .empty
  runners : List (Option Runner) := []
  joints : List JointSlot := []
  players : List Player := []
  names : Names := {}
  log : Log := []
  trace : List TraceEntry := []
  history : List Occurrence := []

instance : Inhabited World := ⟨{}⟩

/-- Why a call broke off. -/
structure Panic where
  text : String
  deriving DecidableEq, Repr

/-- A call: it changes the world and gives a result, or breaks off in the world
it got to. -/
abbrev Act := EStateM Panic World

namespace Names

/-- The entity that a scenario means. -/
def entity? (n : Names) : EntityRef → Option Entity
  | .handle e => some e
  | .label l => n.entities.get? l

/-- Let a label, if there is one, stand for an entity. -/
def labelEntity (n : Names) (label : Option String) (e : Entity) : Names :=
  match label with
  | some l => { n with entities := n.entities.insert l e }
  | none => n

end Names

namespace World

/-- The runner of a number, unless it was dropped. -/
def runner? (w : World) (r : Nat) : Option Runner := (w.runners[r]?).join

/-- Put a runner in the place of a number. -/
def setRunner (w : World) (r : Nat) (runner : Option Runner) : World :=
  { w with runners := w.runners.set r runner }

/-- The store that a scenario means; a standalone store exists from its first
use. -/
def store? (w : World) : StoreRef → Option Store
  | .standalone n => some ((w.stores.get? n).getD {})
  | .runner r => (w.runner? r).map Runner.store

/-- Put a store in place. -/
def setStore (w : World) (ref : StoreRef) (s : Store) : World :=
  match ref with
  | .standalone n => { w with stores := w.stores.insert n s }
  | .runner r =>
      match w.runner? r with
      | some runner => w.setRunner r (some { runner with store := s })
      | none => w

/-- The bus at a place. -/
def bus (w : World) (b : Nat) : Bus Callback := (w.buses[b]?).getD {}

/-- Put a bus in place. -/
def setBus (w : World) (b : Nat) (bus : Bus Callback) : World :=
  { w with buses := w.buses.set b bus }

/-- Add a bus and give its place. -/
def addBus (w : World) : Nat × World :=
  (w.buses.length, { w with buses := w.buses ++ [{}] })

/-- The place of the bus that a scenario numbers, made on first use. -/
def busNumbered (w : World) (number : Nat) : Nat × World :=
  match w.busNumbers.get? number with
  | some b => (b, w)
  | none =>
      let made := w.addBus
      (made.1, { made.2 with busNumbers :=
                               made.2.busNumbers.insert number made.1 })

/-- The transport of a number, which exists from its first use. -/
def transport (w : World) (number : Nat) : Transport Callback :=
  (w.transports.get? number).getD {}

/-- Put a transport in place. -/
def setTransport (w : World) (number : Nat) (t : Transport Callback) : World :=
  { w with transports := w.transports.insert number t }

/-- The endpoint that a scenario means. -/
def endpoint (w : World) : TransportRef → Endpoint Callback
  | .numbered n => .connected (w.transport n)
  | .refusing => .refusing

/-- Put an endpoint in place. -/
def setEndpoint (w : World) (ref : TransportRef)
    (e : Endpoint Callback) : World :=
  match ref, e with
  | .numbered n, .connected t => w.setTransport n t
  | _, _ => w

/-- Put the controller of a joint in place. -/
def setController (w : World) (j : Nat) (c : Controller) : World :=
  { w with joints := w.joints.modify j fun slot =>
             { slot with controller := c } }

/-- Add a joint and give its place. -/
def addJoint (w : World) (transport : TransportRef) : Nat × World :=
  (w.joints.length, { w with joints := w.joints ++ [{ transport }] })

/-- Let a label stand for a joint. -/
def labelJoint (w : World) (label : String) (j : Nat) : World :=
  { w with names := { w.names with joints := w.names.joints.insert label j } }

/-- Raise the command flag of a joint. -/
def requestDetach (w : World) (j : Nat) : World :=
  { w with joints := w.joints.modify j fun slot =>
      { slot with controller := slot.controller.request } }

/-- Add a player and give its place. -/
def addPlayer (w : World) (p : Player) : Nat × World :=
  (w.players.length, { w with players := w.players ++ [p] })

/-- Add entries to the log. -/
def report (w : World) (entries : Log) : World :=
  { w with log := w.log ++ entries }

/-- Add a record to the trace. -/
def record (w : World) (entry : TraceEntry) : World :=
  { w with trace := w.trace ++ [entry] }

/-- Add an occurrence to the history. -/
def note (w : World) (o : Occurrence) : World :=
  { w with history := o :: w.history }

/-- How many runs of actions the players of a world can still make. -/
def weight (w : World) : Nat :=
  w.players.foldl (fun n p =>
    n + p.remaining * (1 + Action.weightAll p.script)) 0

/-- Set the pause switch of a runner, reporting a change. -/
def switchPause (w : World) (r : Nat) (paused : Bool) : World :=
  match w.runner? r with
  | none => w
  | some runner =>
      let w' := w.setRunner r
        (some { runner with paused, heard := .pause paused :: runner.heard })
      if runner.paused = paused then w'
      else w'.report [⟨.info,
        if paused then "simulation paused" else "simulation resumed"⟩]

/-- Set the stop switch of a runner, reporting the first time. -/
def switchStop (w : World) (r : Nat) : World :=
  match w.runner? r with
  | none => w
  | some runner =>
      let w' := w.setRunner r
        (some { runner with stopped := true, heard := .stop :: runner.heard })
      if runner.stopped then w' else
        w'.report [⟨.info, "simulation stop requested"⟩]

theorem runner?_setRunner {w : World} {r : Nat} (h : r < w.runners.length)
    (runner : Option Runner) : (w.setRunner r runner).runner? r = runner := by
  simp [setRunner, runner?, h]

end World

end Linkage
