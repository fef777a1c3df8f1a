import Linkage.Clock
import Linkage.Element
import Linkage.Store

/-!
# Signals

Eight kinds of event are announced on a bus, each on a channel of its own even
where two carry the same kind of value. A signal is an event together with the
value that its listeners receive.
-/

namespace Linkage

/-- The events that have a channel. -/
inductive Event
  | pause
  | stop
  | loadPlugins
  | render
  | enableSensors
  | removeFromStore
  | addToStore
  | syncStoreToGui
  deriving DecidableEq, Repr, Inhabited

namespace Event

/-- The position of an event in the list of all events. -/
def rank : Event → Nat
  | .pause => 0
  | .stop => 1
  | .loadPlugins => 2
  | .render => 3
  | .enableSensors => 4
  | .removeFromStore => 5
  | .addToStore => 6
  | .syncStoreToGui => 7

instance : LT Event := ⟨fun a b => a.rank < b.rank⟩

instance : DecidableLT Event :=
  fun a b => inferInstanceAs (Decidable (a.rank < b.rank))

theorem rank_injective {a b : Event} (h : a.rank = b.rank) : a = b := by
  cases a <;> cases b <;> first | rfl | (exact absurd h (by decide))

instance : KeyOrder Event where
  irrefl a := Nat.lt_irrefl a.rank
  trans {a b c} h k := Nat.lt_trans (m := b.rank) h k
  connected {a b} h k := rank_injective (by
    have h' : ¬ a.rank < b.rank := h
    have k' : ¬ b.rank < a.rank := k
    omega)

/-- The name of the marker that stands for an event. -/
def marker : Event → String
  | .pause => "Pause"
  | .stop => "Stop"
  | .loadPlugins => "LoadPlugins"
  | .render => "Render"
  | .enableSensors => "EnableSensors"
  | .removeFromStore => "RemoveFromStore"
  | .addToStore => "AddToStore"
  | .syncStoreToGui => "SyncStoreToGui"

/-- The full name of the marker, as it appears in descriptions of channels and
connections. -/
def qualifiedName (e : Event) : String := "hitch_core::events::" ++ e.marker

end Event

/-- An event with the value its listeners receive. -/
inductive Signal
  | pause (paused : Bool)
  | stop
  | loadPlugins (entity : Entity) (element : Element)
  | render
  | enableSensors (enabled : Bool)
  | removeFromStore (entity : Nat)
  | addToStore (entity : Nat) (name : String) (parent : Nat)
  | syncStoreToGui (snapshot : Store) (info : StepInfo)
  deriving DecidableEq

namespace Signal

/-- The event that a signal announces. -/
def event : Signal → Event
  | .pause _ => .pause
  | .stop => .stop
  | .loadPlugins .. => .loadPlugins
  | .render => .render
  | .enableSensors _ => .enableSensors
  | .removeFromStore _ => .removeFromStore
  | .addToStore .. => .addToStore
  | .syncStoreToGui .. => .syncStoreToGui

end Signal

end Linkage
