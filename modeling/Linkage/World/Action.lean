import Linkage.Bus
import Linkage.Store.Query
import Linkage.Transport

/-!
# Actions

A scenario is written as data. Entities, connections and joints are called by
labels given to them when they appear, buses, transports, stores and runners by
numbers. An action is one call on the store, a bus, a transport or a joint; the
listeners and systems of a scenario carry lists of actions to run when they are
called, and those may connect further listeners, so actions nest.

What a listener does is bounded: it runs its actions on a stated number of
calls and then only records. Which of them it performs may depend on the run and
on what it is told in it. The weight of an action counts the runs that it can
give rise to, which bounds how deep calls can nest.

## Main results

* `Action.weight_connect`, `Action.weight_subscribe`: a listener weighs its
  actions once per run.
* `Action.of_chosen`: what holds of an action holds of what a listener makes of
  it.
* `Action.weightAll_chosen_le`: what is performed in a run weighs no more than
  the whole script.
-/

namespace Linkage

/-- An entity as a scenario calls it. -/
inductive EntityRef
  | label (name : String)
  | handle (e : Entity)
  deriving DecidableEq, Repr, Inhabited

/-- A store as a scenario calls it. -/
inductive StoreRef
  | standalone (number : Nat)
  | runner (number : Nat)
  deriving DecidableEq, Repr, Inhabited

/-- A transport as a scenario calls it. -/
inductive TransportRef
  | numbered (number : Nat)
  | refusing
  deriving DecidableEq, Repr, Inhabited

/-- What a callback receives. -/
inductive Delivery
  | signal (s : Signal)
  | message (bytes : List UInt8)

/-- A value to announce, with entities as a scenario calls them. A snapshot is
announced of a new store with a number of empty entities. -/
inductive Payload
  | pause (paused : Bool)
  | stop
  | loadPlugins (entity : EntityRef) (element : Element)
  | render
  | enableSensors (enabled : Bool)
  | removeFromStore (entity : Nat)
  | addToStore (entity : Nat) (name : String) (parent : Nat)
  | syncStoreToGui (entities : Nat) (info : StepInfo)

/-- A query with its parent as a scenario calls it. -/
structure QueryRef where
  model : Bool := false
  link : Bool := false
  name : Option String := none
  parent : Option EntityRef := none

/-- A call on a store. -/
inductive StoreAction
  | create (label : Option String)
  | spawnModel (name : String) (label : Option String)
  | spawnLink (model : EntityRef) (name : String) (label : Option String)
  | spawn (name : String) (links : List String) (label : Option String)
  | addModel (e : EntityRef)
  | addLink (e : EntityRef)
  | setName (e : EntityRef) (name : String)
  | setParent (e parent : EntityRef)
  | setJoint (e parentLink childLink : EntityRef) (kind : String)
  | has (e : EntityRef)
  | isModel (e : EntityRef)
  | isLink (e : EntityRef)
  | nameOf (e : EntityRef)
  | parentOf (e : EntityRef)
  | jointOf (e : EntityRef)
  | joints
  | raw (e : EntityRef)
  | query (q : QueryRef)
  | find (q : QueryRef) (label : Option String)
  | remove (e : EntityRef)
  | isPending (e : EntityRef)
  | pending
  | process
  | dump
  | view (e : EntityRef) (link : Option String)

/-- A call that a listener or a system can make. A listener may make a call only
when it heeds what it is told; that may differ from run to run, so it also
covers what a listener remembers. -/
inductive Action
  | connect (bus : Nat) (event : Event) (label : String)
      (script : List Action) (runs : Nat)
  | emit (bus : Nat) (payload : Payload)
  | listeners (bus : Nat) (event : Event)
  | disconnect (bus : Nat) (connection : String)
  | isConnected (bus : Nat) (connection : String)
  | same (connection other : String)
  | describeBus (bus : Nat)
  | describeChannel (bus : Nat) (event : Event) (fresh : Bool)
  | subscribe (transport : TransportRef) (topic label : String)
      (script : List Action) (runs : Nat)
  | publish (transport : Nat) (topic : String) (message : List UInt8)
  | subscribers (transport : Nat) (topic : String)
  | topics (transport : Nat)
  | describeTransport (transport : Nat)
  | request (joint : String)
  | message (joint : String)
  | panic (text : String)
  | onStore (op : StoreAction)
  | ifTold (heeds : (left : Nat) → Delivery → Bool) (action : Action)

namespace Action

mutual

/-- How many runs of actions an action can give rise to. -/
def weight : Action → Nat
  | .connect _ _ _ script runs => runs * (1 + weightAll script)
  | .subscribe _ _ _ script runs => runs * (1 + weightAll script)
  | .ifTold _ a => weight a
  | _ => 0

/-- How many runs of actions a list of actions can give rise to. -/
def weightAll : List Action → Nat
  | [] => 0
  | a :: rest => weight a + weightAll rest

end

theorem weight_connect (bus : Nat) (event : Event) (label : String)
    (script : List Action) (runs : Nat) :
    (Action.connect bus event label script runs).weight =
      runs * (1 + weightAll script) := by
  simp [weight]

theorem weight_subscribe (t : TransportRef) (topic label : String)
    (script : List Action) (runs : Nat) :
    (Action.subscribe t topic label script runs).weight =
      runs * (1 + weightAll script) := by
  simp [weight]

/-- What a listener makes of an action when it is told something and has so many
runs left: a guarded action is left out unless the listener heeds what it is
told. -/
def chosen (left : Nat) (what : Delivery) : Action → Option Action
  | .ifTold heeds a => if heeds left what then chosen left what a else none
  | a => some a

section Chosen

variable {left : Nat} {what : Delivery}

/-- What passes from guarded actions to the actions that they guard passes to
what a listener makes of an action. -/
theorem of_chosen {P : Action → Prop}
    (hP : ∀ heeds a, P (.ifTold heeds a) → P a) {a b : Action}
    (h : a.chosen left what = some b) (ha : P a) : P b := by
  fun_induction chosen left what a with
  | case1 heeds a _ ih => exact ih h (hP heeds a ha)
  | case2 => cases h
  | case3 => exact Option.some.inj h ▸ ha

theorem weight_of_chosen {a b : Action} (h : a.chosen left what = some b) :
    b.weight = a.weight :=
  of_chosen (P := fun c => c.weight = a.weight) (fun _ _ hc => hc) h rfl

/-- What is performed of a script weighs no more than the script. -/
theorem weightAll_chosen_le : ∀ script : List Action,
    weightAll (script.filterMap (chosen left what)) ≤ weightAll script
  | [] => Nat.le_refl _
  | a :: rest => by
      have hrest := weightAll_chosen_le rest
      cases h : a.chosen left what with
      | none =>
          rw [List.filterMap_cons_none h]
          exact Nat.le_add_left_of_le hrest
      | some b =>
          rw [List.filterMap_cons_some h]
          exact Nat.add_le_add (Nat.le_of_eq (weight_of_chosen h)) hrest

end Chosen

end Action

/-- An action of a system, possibly meant for one step only. -/
structure Scheduled where
  action : Action
  only : Option Nat := none

end Linkage
