import Linkage.Bus.Channel
import Linkage.Bus.Signal
import Linkage.Text.Quoted

/-!
# Buses

A bus has one channel per event, made when it is first needed: connecting to
an event or asking for its channel makes it, announcing or counting does not.

## Main results

* `Bus.channel?_update`: an operation on one channel leaves the others alone.
-/

namespace Linkage

/-- The channels of a bus that were needed so far. -/
structure Bus (κ : Type) where
  channels : SortedMap Event (Channel κ) := .empty

/-- A listener's place: an event and a number in its channel. -/
structure Connection where
  event : Event
  id : Nat
  deriving DecidableEq, Repr, Inhabited

namespace Bus

variable {κ : Type}

instance [DecidableEq κ] : DecidableEq (Bus κ) := fun a b =>
  if h : a.channels = b.channels then .isTrue (by cases a; cases b; simp_all)
  else .isFalse fun e => h (e ▸ rfl)

instance : Inhabited (Bus κ) := ⟨{}⟩

/-- The channel of an event, if it was made. -/
def channel? (b : Bus κ) (e : Event) : Option (Channel κ) := b.channels.get? e

/-- The channel of an event, empty if it was not made. -/
def channel (b : Bus κ) (e : Event) : Channel κ := (b.channel? e).getD {}

/-- Put a channel in place. -/
def update (b : Bus κ) (e : Event) (c : Channel κ) : Bus κ :=
  ⟨b.channels.insert e c⟩

theorem channel?_update (b : Bus κ) (e f : Event) (c : Channel κ) :
    (b.update e c).channel? f = if f = e then some c else b.channel? f :=
  SortedMap.get?_insert _ _ _ _

/-- Make the channel of an event if there is none. -/
def ensure (b : Bus κ) (e : Event) : Bus κ := b.update e (b.channel e)

/-- Connect a listener to an event. -/
def connect (b : Bus κ) (e : Event) (k : κ) : Nat × Bus κ :=
  let made := (b.channel e).connect k
  (made.1, b.update e made.2)

/-- Disconnect a listener and tell whether there was one. -/
def disconnect (b : Bus κ) (c : Connection) : Bool × Bus κ :=
  match b.channel? c.event with
  | none => (false, b)
  | some channel =>
      let done := channel.disconnect c.id
      (done.1, b.update c.event done.2)

/-- Whether a connection is in place. -/
def isConnected (b : Bus κ) (c : Connection) : Bool :=
  (b.channel c.event).isConnected c.id

/-- Whether the flag of a connection is up. -/
def flag (b : Bus κ) (c : Connection) : Bool := (b.channel c.event).flag c.id

/-- How many listeners an event has. -/
def listenerCount (b : Bus κ) (e : Event) : Nat := (b.channel e).count

/-- How many channels were made. -/
def channelCount (b : Bus κ) : Nat := b.channels.entries.length

/-- The description of a bus. -/
def describe (b : Bus κ) : String :=
  "EventManager \x7b channels: " ++ toString b.channelCount ++ " \x7d"

/-- The description of a channel with a count of listeners. -/
def describeChannel (e : Event) (count : Nat) : String :=
  "EventChannel \x7b event: " ++ Text.quoted e.qualifiedName ++
    ", listeners: " ++ toString count ++ " \x7d"

end Bus

/-- The description of a connection. -/
def Connection.describe (c : Connection) : String :=
  "Connection \x7b event: " ++ Text.quoted c.event.qualifiedName ++ ", id: " ++
    toString c.id ++ " \x7d"

end Linkage
