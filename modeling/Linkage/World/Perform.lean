import Linkage.World.Basic

/-!
# Performing actions

Announcing a signal calls listeners, a listener may perform actions, and an
action may announce again. The knot is tied once: every function here takes the
way in which nested actions are performed as an argument, and `perform` supplies
itself with one less level of nesting.

Each level of nesting uses up one run of some player, so as many levels as the
world and the action weigh are enough; `settled` supplies them.

## Main results

* `emitOn_unknown`: announcing on a channel that was never made calls nobody.
-/

namespace Linkage

/-- A way to perform an action, on the store it is meant for if it is meant for
one. -/
abbrev Performer := Option StoreRef → Action → Act Reply

namespace Act

/-- Change the world by a function that also gives a result. -/
def change {α : Type} (f : World → α × World) : Act α := modifyGet f

/-- Add an entry to the log. -/
def log (level : Level) (text : String) : Act Unit :=
  modify (·.report [⟨level, text⟩])

/-- Add a record to the trace. -/
def record (entry : TraceEntry) : Act Unit := modify (·.record entry)

end Act

open Act

/-- Perform the actions of a listener, recording each. -/
def playScript (performer : Performer) (label : String) :
    Nat → List Action → Act Unit
  | _, [] => pure ()
  | index, a :: rest => do
      let reply ← performer none a
      record (.acted label index reply)
      playScript performer label (index + 1) rest

/-- Let a player receive something: it records it, and responds to it if it has
runs left. -/
def play (performer : Performer) (id : Nat) (what : Delivery) : Act Unit := do
  let w ← get
  match w.players[id]? with
  | none => pure ()
  | some p =>
      record (.heard p.label what)
      match p.remaining with
      | 0 => pure ()
      | n + 1 =>
          modify fun w =>
            { w with players := w.players.set id { p with remaining := n } }
          playScript performer p.label 0 (p.response n what)

/-- Call a callback. -/
def call (performer : Performer) (k : Callback) (what : Delivery) : Act Unit :=
  match k, what with
  | .player id, _ => play performer id what
  | .pauseSwitch r, .signal (.pause paused) => modify (·.switchPause r paused)
  | .stopSwitch r, .signal .stop => modify (·.switchStop r)
  | .detach j, .message _ => modify (·.requestDetach j)
  | _, _ => pure ()

/-- Whether the flag of a connection of a bus is up now. -/
def flagNow (b : Nat) (event : Event) (id : Nat) : Act Bool := do
  return ((← get).bus b).flag ⟨event, id⟩

/-- Announce a signal on a bus and count the listeners called. -/
def emitOn (performer : Performer) (b : Nat) (s : Signal) : Act Nat := do
  match ((← get).bus b).channel? s.event with
  | none => pure 0
  | some channel =>
      Channel.deliver (flagNow b s.event)
        (fun k => call performer k (.signal s)) channel.listeners

/-- Hand a message that was published under a name to a subscriber. -/
def hand (performer : Performer) (number : Nat) (topic : String)
    (bytes : List UInt8) (k : Callback) : Act Unit := do
  modify (·.note (.handed number topic k))
  call performer k (.message bytes)

/-- Publish a message and count the callbacks called. -/
def publishOn (performer : Performer) (number : Nat) (topic : String)
    (bytes : List UInt8) :
    Act (Except InvalidTopic Nat) := do
  match ((← get).transport number).receivers topic with
  | .error e => pure (.error e)
  | .ok receivers =>
      receivers.forM (hand performer number topic bytes)
      pure (.ok receivers.length)

/-- The signal that a scenario means. -/
def Payload.signal? (names : Names) : Payload → Option Signal
  | .pause paused => some (.pause paused)
  | .stop => some .stop
  | .loadPlugins e element =>
      (names.entity? e).map fun e => .loadPlugins e element
  | .render => some .render
  | .enableSensors enabled => some (.enableSensors enabled)
  | .removeFromStore e => some (.removeFromStore e)
  | .addToStore e name parent => some (.addToStore e name parent)
  | .syncStoreToGui entities info =>
      some (.syncStoreToGui (Store.withEntities entities) info)

namespace StoreAction

/-- The query that a scenario means. -/
def query? (names : Names) (q : QueryRef) : Option Query :=
  match q.parent with
  | none => some { model := q.model, link := q.link, name := q.name }
  | some ref => (names.entity? ref).map fun p =>
      { model := q.model, link := q.link, name := q.name, parent := some p }

/-- Label a model and its links, the links by the model's name and their own. -/
def labelSpawned (names : Names) (label : Option String) (model : Entity)
    (name : String) (links : List (String × Entity)) : Names :=
  links.foldl (fun n l => n.labelEntity (some (name ++ "." ++ l.1)) l.2)
    (names.labelEntity label model)

/-- The reply to a call on a store with what it leaves behind, unless a label is
unknown. -/
def run? (names : Names) (s : Store) :
    StoreAction → Option (Reply × Names × Store)
  | .create label =>
      let made := s.create
      some (.maybeEntity (some made.1), names.labelEntity label made.1, made.2)
  | .spawnModel name label =>
      let made := s.spawnModel name
      some (.maybeEntity (some made.1), names.labelEntity label made.1, made.2)
  | .spawnLink model name label => do
      let made := s.spawnLink (← names.entity? model) name
      some (.maybeEntity (some made.1), names.labelEntity label made.1, made.2)
  | .spawn name links label =>
      let made := s.spawnModelWithLinks name links
      some (.spawned made.1 made.2.1,
        labelSpawned names label made.1 name (links.zip made.2.1),
        made.2.2)
  | .addModel e => do some (.nothing, names, s.addModel (← names.entity? e))
  | .addLink e => do some (.nothing, names, s.addLink (← names.entity? e))
  | .setName e name =>
      do some (.nothing, names, s.setName (← names.entity? e) name)
  | .setParent e parent => do
      some (.nothing, names,
        s.setParent (← names.entity? e) (← names.entity? parent))
  | .setJoint e parentLink childLink kind => do
      some (.nothing, names, s.setJoint (← names.entity? e)
        ⟨← names.entity? parentLink, ← names.entity? childLink, kind⟩)
  | .has e => do some (.flag (s.has (← names.entity? e)), names, s)
  | .isModel e => do some (.flag (s.isModel (← names.entity? e)), names, s)
  | .isLink e => do some (.flag (s.isLink (← names.entity? e)), names, s)
  | .nameOf e => do some (.maybeText (s.name? (← names.entity? e)), names, s)
  | .parentOf e =>
      do some (.maybeEntity (s.parent? (← names.entity? e)), names, s)
  | .jointOf e => do some (.joint (s.joint? (← names.entity? e)), names, s)
  | .joints => some (.joints s.joints, names, s)
  | .raw e => do
      let e ← names.entity? e
      some (.handle e.raw e.text, names, s)
  | .query q => do some (.entities (s.select (← query? names q)), names, s)
  | .find q label => do
      let found := s.first? (← query? names q)
      let names := match found with
        | some e => names.labelEntity label e
        | none => names
      some (.maybeEntity found, names, s)
  | .remove e => do some (.nothing, names, s.requestRemoval (← names.entity? e))
  | .isPending e => do some (.flag (s.isPending (← names.entity? e)), names, s)
  | .pending => some (.entities s.pending, names, s)
  | .process => some (.entities s.applyRemovals.1, names, s.applyRemovals.2)
  | .dump => some (.rows s.rows, names, s)
  | .view e link => do some (.model (s.view (← names.entity? e) link), names, s)

end StoreAction

/-- Make a call on a store. -/
def callStore (ref : StoreRef) (op : StoreAction) : Act Reply :=
  change fun w =>
    match w.store? ref with
    | none => (.unknown "store", w)
    | some s =>
        match op.run? w.names s with
        | none => (.unknown "entity", w)
        | some (reply, names, s') => (reply, { w.setStore ref s' with names })

/-- Connect a player to an event and label the connection. -/
def connectPlayer (number : Nat) (event : Event) (p : Player) : Act Reply :=
  change fun w =>
    let (b, w) := w.busNumbered number
    let (id, w) := w.addPlayer p
    let (n, bus) := (w.bus b).connect event (.player id)
    let connection : Connection := ⟨event, n⟩
    let names :=
      { w.names with connections :=
                       w.names.connections.insert p.label connection }
    (.text connection.describe, { w.setBus b bus with names })

/-- Subscribe a player to a topic. -/
def subscribePlayer (ref : TransportRef) (topic : String) (p : Player) :
    Act Reply :=
  change fun w =>
    let (id, added) := w.addPlayer p
    match (w.endpoint ref).subscribe topic (.player id) with
    | .ok e => (.done, added.setEndpoint ref e)
    | .error e => (.refused (.invalidTopic e), w)

/-- Do something with the bus of a number. -/
def onBus {α : Type} (number : Nat) (f : Nat → Act α) : Act α := do
  let b ← change fun w => w.busNumbered number
  f b

/-- Do something with the connection of a label. -/
def onConnection (label : String) (f : Connection → Act Reply) : Act Reply := do
  match (← get).names.connections.get? label with
  | none => pure (.unknown "connection")
  | some c => f c

/-- Do something with the joint of a label. -/
def onJoint (label : String) (f : Nat → Act Reply) : Act Reply := do
  match (← get).names.joints.get? label with
  | none => pure (.unknown "joint")
  | some j => f j

/-- Raise the command flag of a labelled joint. -/
def requestJoint (label : String) : Act Reply :=
  onJoint label fun j => do
    modify fun w => (w.note (.asked j)).requestDetach j
    pure .nothing

/-- Perform one action, performing nested ones in the given way. -/
def performWith (performer : Performer) : Performer
  | _, .connect bus event label script runs =>
      connectPlayer bus event ⟨label, script, runs⟩
  | _, .emit bus payload => onBus bus fun b => do
      match payload.signal? (← get).names with
      | none => pure (.unknown "entity")
      | some s => return .count (← emitOn performer b s)
  | _, .listeners bus event => onBus bus fun b => do
      return .count (((← get).bus b).listenerCount event)
  | _, .disconnect bus label => onBus bus fun b => onConnection label fun c =>
      change fun w =>
        let done := (w.bus b).disconnect c
        (.flag done.1, w.setBus b done.2)
  | _, .isConnected bus label => onBus bus fun b => onConnection label fun c =>
      change fun w =>
        let made := (w.bus b).ensure c.event
        (.flag (made.isConnected c), w.setBus b made)
  | _, .same label other =>
      onConnection label fun c => onConnection other fun d =>
      pure (.maybeFlag (if c.event = d.event then some (c.id = d.id) else none))
  | _, .describeBus bus => onBus bus fun b => do
      return .text ((← get).bus b).describe
  | _, .describeChannel bus event fresh =>
      if fresh then pure (.text (Bus.describeChannel event 0))
      else onBus bus fun b => change fun w =>
        let made := (w.bus b).ensure event
        (.text (Bus.describeChannel event (made.listenerCount event)),
          w.setBus b made)
  | _, .subscribe ref topic label script runs =>
      subscribePlayer ref topic ⟨label, script, runs⟩
  | _, .publish t topic bytes => do
      match ← publishOn performer t topic bytes with
      | .ok n => pure (.count n)
      | .error e => pure (.refused (.invalidTopic e))
  | _, .subscribers t topic => do
      return .count (((← get).transport t).subscribers topic).length
  | _, .topics t => do return .texts ((← get).transport t).topicNames
  | _, .describeTransport t => do return .text ((← get).transport t).describe
  | _, .request label => requestJoint label
  | _, .message label => requestJoint label
  | _, .panic text => throw ⟨text⟩
  | some ref, .onStore op => callStore ref op
  | none, .onStore _ => pure (.unknown "store")
  | _, .ifTold _ _ => pure (.unknown "delivery")

/-- Perform an action with a bounded depth of nesting. -/
def perform : Nat → Performer
  | 0, _, _ => throw ⟨"nesting exceeds the weight of the world"⟩
  | depth + 1, ref, a => performWith (perform depth) ref a

/-- Run something that performs actions of a total weight with enough depth for
the world. -/
def settled {α : Type} (weight : Nat) (body : Performer → Act α) : Act α := do
  let w ← get
  body (perform (w.weight + weight + 1))

theorem emitOn_unknown (performer : Performer) {w : World}
    {b : Nat} {s : Signal} (h : (w.bus b).channel? s.event = none) :
    (emitOn performer b s).run w = .ok 0 w := by
  show (match (w.bus b).channel? s.event with
    | none => (pure 0 : Act Nat)
    | some channel => Channel.deliver (flagNow b s.event)
        (fun k => call performer k (.signal s)) channel.listeners) w = _
  rw [h]
  rfl

end Linkage
