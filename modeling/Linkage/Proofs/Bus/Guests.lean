import Linkage.Proofs.Bus.Connections
import Linkage.Proofs.World.Driver

/-!
# Guests on a bus that runners share

A runner has two listeners on its bus, one for each of its switches. Everybody
else who listens there is a guest. A guest keeps its manners if it disconnects
listeners by labels that were given to guests of this bus only, and announces
neither a pause nor a stop there.

Whatever guests with manners do when they are called, to any depth, the
listeners that are not guests stay the seats of the runners, in the order in
which these were made, and no runner hears anything.

## Main results

* `Bus.filter_serve`: a call of a guest leaves the listeners alone that are not
  guests.
* `Hub.perform_civil`: what guests with manners do, at any depth, is a visit.
* `Hub.emitOn_civil`: so is an announcement that only guests listen for.
-/

namespace Linkage

open Act World

/-! ## Seats -/

/-- The two switches of a runner. -/
inductive Switch
  | pause
  | stop
  deriving DecidableEq, Repr

namespace Switch

/-- The event that a switch listens for. -/
def event : Switch → Event
  | .pause => .pause
  | .stop => .stop

/-- What is called at a switch of a runner. -/
def callback (r : Nat) : Switch → Callback
  | .pause => .pauseSwitch r
  | .stop => .stopSwitch r

end Switch

/-- The switch that listens for an event. -/
def Event.switch? : Event → Option Switch
  | .pause => some .pause
  | .stop => some .stop
  | _ => none

/-- The listener is no switch of a runner. -/
def Callback.isGuest : Callback → Bool
  | .player _ => true
  | _ => false

namespace Runner

/-- The number of the connection of a switch. -/
def connection (a : Runner) : Switch → Nat
  | .pause => a.pauseConnection
  | .stop => a.stopConnection

/-- The listener of a runner of a number for an event, on a bus. -/
def seat? (a : Runner) (r b : Nat) (e : Event) : Option (Nat × Callback) :=
  if a.bus = b then e.switch?.map fun s =>
    (a.connection s, s.callback r) else none

/-- What connects a runner to its bus. -/
def fitting (a : Runner) : Runner := a.driver.still

theorem bus_of_fitting {a a' : Runner} (h : a.fitting = a'.fitting) :
    a.bus = a'.bus := by
  show a.fitting.bus = a'.fitting.bus
  rw [h]

theorem seat?_of_fitting {a a' : Runner} (h : a.fitting = a'.fitting)
    (r b : Nat) (e : Event) :
    a.seat? r b e = a'.seat? r b e := by
  show a.fitting.seat? r b e = a'.fitting.seat? r b e
  rw [h]

end Runner

namespace World

variable {w v : World} {b : Nat} {e : Event} {x : Nat × Callback}

/-- The listeners of the runners of a bus for an event, in the order in which
the runners were made. -/
def seats (w : World) (b : Nat) (e : Event) : List (Nat × Callback) :=
  (List.range w.runners.length).filterMap fun r =>
    (w.runner? r).bind fun a => a.seat? r b e

/-- The drivers of the runners. -/
def drivers (w : World) : List (Option Runner) :=
  w.runners.map (Option.map Runner.driver)

/-- What connects the runners to their buses. -/
def fittings (w : World) : List (Option Runner) :=
  w.runners.map (Option.map Runner.fitting)

theorem fittings_of_drivers (h : v.drivers = w.drivers) :
    v.fittings = w.fittings := by
  have hstill : ∀ u : World,
      u.fittings = u.drivers.map (Option.map Runner.still) := fun u => by
    rw [drivers, List.map_map]
    exact List.map_congr_left fun x _ => by cases x <;> rfl
  rw [hstill, hstill, h]

theorem length_of_fittings (h : v.fittings = w.fittings) :
    v.runners.length = w.runners.length := by
  simpa [fittings] using congrArg List.length h

theorem map_fitting_of_fittings (h : v.fittings = w.fittings) (r : Nat) :
    (v.runner? r).map Runner.fitting = (w.runner? r).map Runner.fitting := by
  rw [map_runner?, map_runner?]
  exact congrArg (fun l => (l[r]?).join) h

theorem exists_of_fittings (h : v.fittings = w.fittings) {r : Nat} {a : Runner}
    (ha : v.runner? r = some a) :
    ∃ a', w.runner? r = some a' ∧ a.fitting = a'.fitting := by
  have hfitting := map_fitting_of_fittings h r
  rw [ha] at hfitting
  obtain ⟨a', ha', heq⟩ := Option.map_eq_some_iff.1 hfitting.symm
  exact ⟨a', ha', heq.symm⟩

theorem seats_of_fittings (h : v.fittings = w.fittings) (b : Nat) (e : Event) :
    v.seats b e = w.seats b e := by
  unfold seats
  rw [length_of_fittings h]
  refine List.filterMap_congr fun r _ => ?_
  cases hv : v.runner? r with
  | none =>
      have hfitting := map_fitting_of_fittings h r
      rw [hv] at hfitting
      rw [Option.map_eq_none_iff.1 hfitting.symm]
  | some a =>
      obtain ⟨a', ha', heq⟩ := exists_of_fittings h hv
      rw [ha']
      exact Runner.seat?_of_fitting heq r b e

theorem mem_seats_iff : x ∈ w.seats b e ↔
    ∃ r a, w.runner? r = some a ∧ a.seat? r b e = some x := by
  simp only [seats, List.mem_filterMap, List.mem_range, Option.bind_eq_some_iff]
  constructor
  · rintro ⟨r, -, a, ha, hx⟩
    exact ⟨r, a, ha, hx⟩
  · rintro ⟨r, a, ha, hx⟩
    exact ⟨r, lt_of_runner? ha, a, ha, hx⟩

end World

theorem Runner.seat?_eq_some_iff {a : Runner} {r b : Nat} {e : Event}
    {x : Nat × Callback} :
    a.seat? r b e = some x ↔
      a.bus = b ∧ ∃ s, e.switch? = some s ∧
      x = (a.connection s, s.callback r) := by
  unfold Runner.seat?
  split
  · next h =>
    rw [Option.map_eq_some_iff]
    simp only [h, true_and, eq_comm]
  · next h => simp [h]

/-! ## Calls of guests -/

/-- On a bus the call connects a guest, or disconnects nobody but guests. -/
def BusCall.IsGuest (bus : Bus Callback) : BusCall Callback → Prop
  | .connect _ k => k.isGuest = true
  | .disconnect c =>
      ∀ x ∈ (bus.channel c.event).listeners, x.1 = c.id → x.2.isGuest = true
  | _ => True

/-- On a bus the calls, one after the other, are those of guests. -/
def GuestCalls : Bus Callback → List (BusCall Callback) → Prop
  | _, [] => True
  | bus, call :: rest => call.IsGuest bus ∧ GuestCalls (bus.serve call).2 rest

theorem GuestCalls.append {bus : Bus Callback}
    {calls later : List (BusCall Callback)} (h : GuestCalls bus calls)
    (hlater : GuestCalls (bus.serveAll calls) later) :
    GuestCalls bus (calls ++ later) := by
  induction calls generalizing bus with
  | nil => exact hlater
  | cons call calls ih => exact ⟨h.1, ih h.2 hlater⟩

/-- Calls of guests on a bus may be followed by more of them. -/
theorem exists_guestCalls_trans {a b c : Bus Callback}
    (hab : ∃ calls, GuestCalls a calls ∧ b = a.serveAll calls)
    (hbc : ∃ calls, GuestCalls b calls ∧ c = b.serveAll calls) :
    ∃ calls, GuestCalls a calls ∧ c = a.serveAll calls := by
  obtain ⟨calls, hguests, rfl⟩ := hab
  obtain ⟨later, hguests', rfl⟩ := hbc
  exact ⟨calls ++ later, hguests.append hguests', by rw [Bus.serveAll_append]⟩

/-- A call of a guest leaves the listeners alone that are not guests. -/
theorem Bus.filter_serve {bus : Bus Callback} {call : BusCall Callback}
    (hbus : ∀ e, (bus.channel e).Sound) (h : call.IsGuest bus) (e : Event) :
    ((bus.serve call).2.channel e).listeners.filter (fun x => !x.2.isGuest) =
      (bus.channel e).listeners.filter fun x => !x.2.isGuest := by
  by_cases hevent : call.event = e
  · subst hevent
    rw [channel_serve_self]
    cases call with
    | connect f k =>
        have hguest : k.isGuest = true := h
        simp [Channel.serve, Channel.connect, BusCall.event, hguest]
    | disconnect c =>
        show ((bus.channel c.event).disconnect c.id).2.listeners.filter _ = _
        rw [Channel.listeners_disconnect (hbus c.event), List.filter_filter]
        refine List.filter_congr fun x hx => ?_
        have hguest := h x hx
        by_cases hid : x.1 = c.id
        · simp [hguest hid]
        · simp [hid]
    | _ => rfl
  · rw [channel_serve_of_ne bus hevent]

/-! ## Guests with manners -/

/-- A bus that runners share: the number that calls it and the labels of its
guests. -/
structure Hub where
  number : Nat
  labels : List String

/-- The value flips a switch. -/
def Payload.isSwitching : Payload → Bool
  | .pause _ => true
  | .stop => true
  | _ => false

namespace Action

mutual

/-- On the bus of a number the action announces neither a pause nor a stop and
disconnects by labels that are given to guests of this bus only; and so does any
script that it hands on. -/
def isCivil (number : Nat) (labels : List String) : Action → Bool
  | .connect bus _ label script _ =>
      (!labels.contains label || bus == number) && areCivil number labels script
  | .subscribe _ _ _ script _ => areCivil number labels script
  | .disconnect bus label => bus != number || labels.contains label
  | .emit bus payload => bus != number || !payload.isSwitching
  | .ifTold _ a => isCivil number labels a
  | _ => true

/-- All actions of a script have manners. -/
def areCivil (number : Nat) (labels : List String) : List Action → Bool
  | [] => true
  | a :: rest => isCivil number labels a && areCivil number labels rest

end

theorem areCivil_iff {number : Nat} {labels : List String} :
    ∀ script : List Action,
    areCivil number labels script = true ↔
      ∀ a ∈ script, a.isCivil number labels = true
  | [] => by simp [areCivil]
  | a :: rest => by simp [areCivil, areCivil_iff rest]

end Action

theorem Player.areCivil_response {p : Player} {number : Nat}
    {labels : List String} (h : Action.areCivil number labels p.script = true)
    (left : Nat) (what : Delivery) :
    Action.areCivil number labels (p.response left what) = true :=
  (Action.areCivil_iff _).2
    (forall_response (fun _ _ ha => ha) ((Action.areCivil_iff _).1 h))

namespace Hub

variable {h : Hub} {u v w : World}

/-- The action has manners. -/
def Allows (h : Hub) (a : Action) : Prop := a.isCivil h.number h.labels = true

/-- All runners share one bus, the listeners that are not guests are the
runners' seats, all scripts have manners, and a label of a guest stands for a
handle that was given to a guest. -/
structure Orderly (h : Hub) (w : World) : Prop where
  sound : BusesSound w.buses
  numbers : ∀ {n b : Nat}, w.busNumbers.get? n = some b → b < w.buses.length
  apart : ∀ {n m b : Nat}, w.busNumbers.get? n = some b →
    w.busNumbers.get? m = some b → n = m
  home : ∀ {r : Nat} {a : Runner}, w.runner? r = some a →
    w.busNumbers.get? h.number = some a.bus
  seated : ∀ b e, (w.listeners b e).filter (fun x => !x.2.isGuest) = w.seats b e
  scripts : ∀ p ∈ w.players, Action.areCivil h.number h.labels p.script = true
  handles : ∀ label ∈ h.labels, ∀ {c : Connection},
    w.names.connections.get? label = some c →
    ∃ b, w.busNumbers.get? h.number = some b ∧ c.id < w.nextId b c.event ∧
      ∀ x ∈ w.listeners b c.event, x.1 = c.id → x.2.isGuest = true

/-- From the first world guests with manners can lead to the second one. -/
structure Visits (h : Hub) (w v : World) : Prop where
  orderly : h.Orderly v
  drivers : v.drivers = w.drivers
  numbers : ∀ {n b : Nat}, w.busNumbers.get? n = some b →
    v.busNumbers.get? n = some b
  calls : ∀ b, ∃ calls, GuestCalls (w.bus b) calls ∧
    v.bus b = (w.bus b).serveAll calls

/-- From an orderly world the second one is a visit away. -/
def Civil (h : Hub) (w v : World) : Prop := h.Orderly w → h.Visits w v

theorem Visits.refl (hw : h.Orderly w) : h.Visits w w :=
  { orderly := hw, drivers := rfl, numbers := id,
    calls := fun _ => ⟨[], trivial, rfl⟩ }

theorem Visits.trans (huv : h.Visits u v) (hvw : h.Visits v w) : h.Visits u w :=
  { orderly := hvw.orderly
    drivers := hvw.drivers.trans huv.drivers
    numbers := fun hget => hvw.numbers (huv.numbers hget)
    calls := fun b => exists_guestCalls_trans (huv.calls b) (hvw.calls b) }

theorem civil_chained (h : Hub) : Chained h.Civil :=
  { refl := fun _ hw => .refl hw
    trans := fun huv hvw hu => (huv hu).trans (hvw (huv hu).orderly) }

/-- The listeners of a bus that is not the runners' are guests. -/
theorem Orderly.guest_of_number (hw : h.Orderly w) {n b : Nat}
    (hb : w.busNumbers.get? n = some b) (hn : n ≠ h.number) {e : Event}
    {x : Nat × Callback} (hx : x ∈ w.listeners b e) :
    x.2.isGuest = true := by
  by_contra hguest
  have hseat : x ∈ w.seats b e := by
    rw [← hw.seated]
    exact List.mem_filter.2 ⟨hx, by simpa using hguest⟩
  obtain ⟨r, a, ha, hx⟩ := mem_seats_iff.1 hseat
  obtain ⟨rfl, -⟩ := Runner.seat?_eq_some_iff.1 hx
  exact hn (hw.apart hb (hw.home ha))

/-- The listeners for events without a switch are guests. -/
theorem Orderly.guest_of_event (hw : h.Orderly w) {b : Nat} {e : Event}
    (he : e.switch? = none) {x : Nat × Callback} (hx : x ∈ w.listeners b e) :
    x.2.isGuest = true := by
  by_contra hguest
  have hseat : x ∈ w.seats b e := by
    rw [← hw.seated]
    exact List.mem_filter.2 ⟨hx, by simpa using hguest⟩
  obtain ⟨r, a, -, hx⟩ := mem_seats_iff.1 hseat
  obtain ⟨-, s, hs, -⟩ := Runner.seat?_eq_some_iff.1 hx
  rw [he] at hs
  cases hs

/-! ## Changes that leave the buses alone -/

/-- Nothing is different that matters to guests. -/
structure Aside (w v : World) : Prop where
  buses : v.buses = w.buses
  numbers : v.busNumbers = w.busNumbers
  players : v.players = w.players
  connections : v.names.connections = w.names.connections
  drivers : v.drivers = w.drivers

/-- A world in which only players are different, and have manners, and nothing
of what connects runners is orderly too. -/
theorem Orderly.congr (hw : h.Orderly w) (hb : v.buses = w.buses)
    (hn : v.busNumbers = w.busNumbers)
    (hp : ∀ p ∈ v.players, Action.areCivil h.number h.labels p.script = true)
    (hc : v.names.connections = w.names.connections)
    (hf : v.fittings = w.fittings) :
    h.Orderly v := by
  have hlisteners : ∀ b e, v.listeners b e = w.listeners b e := fun b e => by
    unfold listeners
    rw [hb]
  exact
    { sound := hb ▸ hw.sound
      numbers := fun {n b} hget => by
        rw [hb]
        exact hw.numbers (hn ▸ hget)
      apart := hn ▸ hw.apart
      home := fun {r a} ha => by
        obtain ⟨a', ha', hfitting⟩ := exists_of_fittings hf ha
        rw [hn, Runner.bus_of_fitting hfitting]
        exact hw.home ha'
      seated := fun b e => by rw [hlisteners, seats_of_fittings hf, hw.seated]
      scripts := hp
      handles := fun label hlabel c hget => by
        obtain ⟨b, hhome, hid, hguest⟩ := hw.handles label hlabel (hc ▸ hget)
        refine ⟨b, hn ▸ hhome, ?_, fun x hx => hguest x (hlisteners b _ ▸ hx)⟩
        unfold nextId
        rw [hb]
        exact hid }

/-- Only players are different, and they have manners. -/
theorem Orderly.of_players (hw : h.Orderly w) (hb : v.buses = w.buses)
    (hn : v.busNumbers = w.busNumbers)
    (hp : ∀ p ∈ v.players, Action.areCivil h.number h.labels p.script = true)
    (hc : v.names.connections = w.names.connections)
    (hd : v.drivers = w.drivers) :
    h.Visits w v := by
  refine { orderly := hw.congr hb hn hp hc (fittings_of_drivers hd),
           drivers := hd,
           numbers := fun hget => hn ▸ hget,
           calls := fun b => ⟨[], trivial, ?_⟩ }
  show (v.buses[b]?).getD {} = (w.buses[b]?).getD {}
  rw [hb]

theorem Aside.civil (ha : Aside w v) : h.Civil w v := fun hw =>
  hw.of_players ha.buses ha.numbers (ha.players ▸ hw.scripts)
    ha.connections ha.drivers

theorem Aside.trans (huv : Aside u v) (hvw : Aside v w) : Aside u w :=
  { buses := hvw.buses.trans huv.buses
    numbers := hvw.numbers.trans huv.numbers
    players := hvw.players.trans huv.players
    connections := hvw.connections.trans huv.connections
    drivers := hvw.drivers.trans huv.drivers }

theorem aside_setStore (w : World) (ref : StoreRef) (s : Store) :
    Aside w (w.setStore ref s) := by
  cases ref with
  | standalone n => exact ⟨rfl, rfl, rfl, rfl, rfl⟩
  | runner r =>
      simp only [setStore]
      cases hr : w.runner? r with
      | none => exact ⟨rfl, rfl, rfl, rfl, rfl⟩
      | some a => exact ⟨rfl, rfl, rfl, rfl, map_setRunner hr rfl⟩

theorem aside_setEndpoint (w : World) (t : TransportRef)
    (e : Endpoint Callback) :
    Aside w (w.setEndpoint t e) := by
  obtain ⟨transports, heq⟩ := setEndpoint_eq w t e
  rw [heq]
  exact ⟨rfl, rfl, rfl, rfl, rfl⟩

theorem callStore_civil (ref : StoreRef) (op : StoreAction) :
    Keeps h.Civil (callStore ref op) := by
  intro w
  rcases left_callStore ref op w with heq | ⟨s, reply, names, s', -, hrun, heq⟩
  · rw [heq]
    exact (civil_chained h).refl w
  · rw [heq]
    have hstore := aside_setStore w ref s'
    have hnames : names.connections = w.names.connections :=
      (StoreAction.run?_cases hrun).1.1
    exact Aside.civil ⟨hstore.buses, hstore.numbers, hstore.players, hnames,
      hstore.drivers⟩

theorem requestJoint_civil (label : String) :
    Keeps h.Civil (requestJoint label) := by
  refine Keeps.get_bind fun w => ?_
  cases w.names.joints.get? label with
  | none => exact (civil_chained h).refl w
  | some j => exact Aside.civil ⟨rfl, rfl, rfl, rfl, rfl⟩

/-! ## Calls on a bus -/

/-- Putting in place what a call of a guest leaves of a bus is a visit. -/
theorem Orderly.serve (hw : h.Orderly w) {b : Nat} (call : BusCall Callback)
    (hguest : call.IsGuest (w.bus b))
    (hb : v.buses = w.buses.set b ((w.bus b).serve call).2)
    (hn : v.busNumbers = w.busNumbers)
    (hp : ∀ p ∈ v.players, Action.areCivil h.number h.labels p.script = true)
    (hd : v.drivers = w.drivers)
    (hlabels : ∀ label ∈ h.labels, ∀ {c : Connection},
      v.names.connections.get? label = some c →
      w.names.connections.get? label = some c ∨
        w.busNumbers.get? h.number = some b ∧
        ((w.bus b).serve call).1 = .issued c) :
    h.Visits w v := by
  have hplace : ∀ b', v.bus b' = if b = b' ∧ b < w.buses.length then
      ((w.bus b).serve call).2
      else w.bus b' := by
    intro b'
    show busAt v.buses b' = _
    rw [hb, busAt_set]
    rfl
  have hlisteners : ∀ b' e,
      v.listeners b' e = if b = b' ∧ b < w.buses.length then
      (((w.bus b).serve call).2.channel e).listeners else w.listeners b' e := by
    intro b' e
    show ((v.bus b').channel e).listeners = _
    rw [hplace]
    split <;> rfl
  have hkept : ∀ {b' : Nat} {e : Event} {x : Nat × Callback},
      x.1 < w.nextId b' e →
      x ∈ v.listeners b' e → x ∈ w.listeners b' e := by
    intro b' e x hid hx
    rw [hlisteners] at hx
    split at hx
    · next heq =>
      obtain ⟨rfl, -⟩ := heq
      exact ((Bus.mem_listeners_serve (hw.sound b e) hid call).1 hx).1
    · exact hx
  have hnext : ∀ b' e, w.nextId b' e ≤ v.nextId b' e := by
    intro b' e
    show ((w.bus b').channel e).nextId ≤ ((v.bus b').channel e).nextId
    rw [hplace]
    split
    · next heq =>
      obtain ⟨rfl, -⟩ := heq
      exact Bus.nextId_le_serveAll _ [call] e
    · exact Nat.le_refl _
  have hf := fittings_of_drivers hd
  refine { orderly := ?_, drivers := hd, numbers := fun hget => hn ▸ hget,
           calls := fun b' => ?_ }
  · refine
      { sound := ?_, numbers := fun {n b'} hget => ?_, apart := hn ▸ hw.apart,
        home := fun {r a} ha => ?_, seated := fun b' e => ?_, scripts := hp,
        handles := fun label hlabel c hget => ?_ }
    · rw [hb]
      exact busesSound_setBus hw.sound b
        (Bus.sound_serveAll (hw.sound b) [call])
    · rw [hb, List.length_set]
      exact hw.numbers (hn ▸ hget)
    · obtain ⟨a', ha', hfitting⟩ := exists_of_fittings hf ha
      rw [hn, Runner.bus_of_fitting hfitting]
      exact hw.home ha'
    · rw [seats_of_fittings hf, ← hw.seated, hlisteners]
      split
      · next heq =>
        obtain ⟨rfl, -⟩ := heq
        exact Bus.filter_serve (hw.sound b) hguest e
      · rfl
    · rcases hlabels label hlabel hget with hbefore | ⟨hhome, hissued⟩
      · obtain ⟨b', hhome, hid, hguests⟩ := hw.handles label hlabel hbefore
        exact ⟨b', hn ▸ hhome, Nat.lt_of_lt_of_le hid (hnext b' _),
          fun x hx hxid => hguests x (hkept (hxid ▸ hid) hx) hxid⟩
      · refine ⟨b, hn ▸ hhome, ?_⟩
        have hlt := hw.numbers hhome
        cases call with
        | connect e k =>
            cases hissued
            have hchannel := Bus.channel_serve_self (w.bus b) (.connect e k)
            refine ⟨?_, fun x hx hid => ?_⟩
            · show _ < ((v.bus b).channel e).nextId
              rw [hplace, if_pos ⟨rfl, hlt⟩,
                show ((w.bus b).serve (.connect e k)).2.channel e = _
                  from hchannel]
              exact Nat.lt_succ_self _
            · rw [hlisteners, if_pos ⟨rfl, hlt⟩,
                show ((w.bus b).serve (.connect e k)).2.channel e = _
                  from hchannel] at hx
              rcases List.mem_append.1 hx with hx | hx
              · have hbelow := World.lt_nextId hw.sound (b := b) (e := e) hx
                exact absurd hid (Nat.ne_of_lt hbelow)
              · rw [List.mem_singleton.1 hx]
                exact hguest
        | _ => cases hissued
  · rw [hplace]
    split
    · next heq =>
      obtain ⟨rfl, -⟩ := heq
      exact ⟨[call], ⟨hguest, trivial⟩, rfl⟩
    · exact ⟨[], trivial, rfl⟩

/-- Whatever bus a number calls, it stays the one that it calls. -/
theorem busNumbered_visits (hw : h.Orderly w) (number : Nat) :
    h.Visits w (w.busNumbered number).2 ∧
      (w.busNumbered number).2.busNumbers.get? number =
        some (w.busNumbered number).1 := by
  unfold busNumbered
  cases hnumber : w.busNumbers.get? number with
  | some b => exact ⟨.refl hw, hnumber⟩
  | none =>
      have hbus : ∀ b, w.addBus.2.bus b = w.bus b := busAt_openBus w.buses
      have hchannel : ∀ b e,
          channelAt w.addBus.2.buses b e = channelAt w.buses b e :=
        fun b e => congrArg (Bus.channel · e) (hbus b)
      have hkept : ∀ {n b : Nat}, w.busNumbers.get? n = some b →
          (w.busNumbers.insert number w.buses.length).get? n = some b := by
        intro n b hget
        rw [SortedMap.get?_insert]
        split
        · next heq =>
          rw [heq, hnumber] at hget
          cases hget
        · exact hget
      have hnew : ∀ {n b : Nat},
          (w.busNumbers.insert number w.buses.length).get? n = some b →
          n = number ∧ b = w.buses.length ∨ w.busNumbers.get? n = some b := by
        intro n b hget
        rw [SortedMap.get?_insert] at hget
        split at hget
        · next heq => exact .inl ⟨heq, (Option.some.inj hget).symm⟩
        · exact .inr hget
      refine ⟨{ orderly := ?_, drivers := rfl, numbers := hkept,
                calls := fun b => ⟨[], trivial, hbus b⟩ },
                SortedMap.get?_insert_self _ _ _⟩
      refine { sound := fun b e => ?_, numbers := fun {n b} hget => ?_,
               apart := fun {n m b} hn hm => ?_,
               home := fun ha => hkept (hw.home ha),
               seated := fun b e => ?_, scripts := hw.scripts,
               handles := fun label hlabel c hget => ?_ }
      · exact hchannel b e ▸ hw.sound b e
      · show b < (w.buses ++ [({} : Bus Callback)]).length
        rw [List.length_append]
        rcases hnew hget with ⟨-, rfl⟩ | hbefore
        · exact Nat.lt_succ_self _
        · exact Nat.lt_succ_of_lt (hw.numbers hbefore)
      · rcases hnew hn with ⟨rfl, rfl⟩ | hbefore
        · rcases hnew hm with ⟨rfl, -⟩ | hbefore'
          · rfl
          · exact absurd (hw.numbers hbefore') (Nat.lt_irrefl _)
        · rcases hnew hm with ⟨rfl, rfl⟩ | hbefore'
          · exact absurd (hw.numbers hbefore) (Nat.lt_irrefl _)
          · exact hw.apart hbefore hbefore'
      · show (channelAt w.addBus.2.buses b e).listeners.filter _ = _
        rw [hchannel]
        exact hw.seated b e
      · obtain ⟨b, hhome, hid, hguest⟩ := hw.handles label hlabel hget
        refine ⟨b, hkept hhome, ?_, fun x hx => hguest x ?_⟩
        · show c.id < (channelAt w.addBus.2.buses b c.event).nextId
          rw [hchannel]
          exact hid
        · have hx' : x ∈ (channelAt w.addBus.2.buses b c.event).listeners := hx
          rwa [hchannel] at hx'

/-! ## Guests that come -/

theorem connectPlayer_civil (number : Nat) (event : Event) {p : Player}
    (hlabel : p.label ∈ h.labels → number = h.number)
    (hscript : Action.areCivil h.number h.labels p.script = true) :
    Keeps h.Civil (connectPlayer number event p) := by
  refine Keeps.change fun w hw => ?_
  obtain ⟨hbus, hnumber⟩ := busNumbered_visits hw number
  refine hbus.trans (hbus.orderly.serve
    (.connect event (.player (w.busNumbered number).2.players.length))
      rfl rfl rfl
    (fun q hq => ?_) rfl fun label hmem c hget => ?_)
  · rcases List.mem_append.1 hq with hq | hq
    · exact hbus.orderly.scripts q hq
    · rw [List.mem_singleton.1 hq]
      exact hscript
  · have hget' : ((w.busNumbered number).2.names.connections.insert p.label
        ⟨event,
          (((w.busNumbered number).2.bus (w.busNumbered number).1).connect event
          (.player (w.busNumbered number).2.players.length)).1⟩).get? label =
            some c := hget
    rw [SortedMap.get?_insert] at hget'
    split at hget'
    · next heq =>
      cases hget'
      rw [heq] at hmem
      exact .inr ⟨hlabel hmem ▸ hnumber, rfl⟩
    · exact .inl hget'

theorem subscribePlayer_civil (ref : TransportRef) (topic : String) {p : Player}
    (hscript : Action.areCivil h.number h.labels p.script = true) :
    Keeps h.Civil (subscribePlayer ref topic p) := by
  intro w hw
  unfold subscribePlayer
  rw [left_change]
  simp only [World.addPlayer]
  cases (w.endpoint ref).subscribe topic (.player w.players.length) with
  | error cause => exact .refl hw
  | ok e =>
      have hadded : h.Visits w (w.addPlayer p).2 := by
        refine hw.of_players rfl rfl (fun q hq => ?_) rfl rfl
        rcases List.mem_append.1 hq with hq | hq
        · exact hw.scripts q hq
        · rw [List.mem_singleton.1 hq]
          exact hscript
      exact hadded.trans ((aside_setEndpoint _ ref e).civil hadded.orderly)

/-! ## Guests that are called -/

section Calls

variable {performer : Performer}
  (hp : ∀ a, h.Allows a → Keeps h.Civil (performer none a))
include hp

theorem playScript_civil (label : String) :
    ∀ (index : Nat) (script : List Action),
      Action.areCivil h.number h.labels script = true →
        Keeps h.Civil (playScript performer label index script)
  | _, [], _ => Keeps.pure (civil_chained h) ()
  | index, a :: rest, hscript => by
      have hcivil := Bool.and_eq_true_iff.1 hscript
      refine (hp a hcivil.1).bind (civil_chained h) fun reply => ?_
      have hrecord : Keeps h.Civil (Act.record (.acted label index reply)) :=
        fun _ => Aside.civil ⟨rfl, rfl, rfl, rfl, rfl⟩
      exact hrecord.bind (civil_chained h) fun _ =>
        playScript_civil label (index + 1) rest hcivil.2

theorem play_civil (id : Nat) (what : Delivery) :
    Keeps h.Civil (play performer id what) := by
  intro w hw
  unfold play Act.record
  rw [left_get_bind]
  cases hplayer : w.players[id]? with
  | none => exact .refl hw
  | some p =>
      have hrecord : h.Visits w (w.record (.heard p.label what)) :=
        Aside.civil ⟨rfl, rfl, rfl, rfl, rfl⟩ hw
      have hscript := hw.scripts p (List.mem_of_getElem? hplayer)
      refine hrecord.trans ?_
      simp only [left_modify_bind]
      cases p.remaining with
      | zero => exact .refl hrecord.orderly
      | succ n =>
          simp only [left_modify_bind]
          have hspent : h.Visits (w.record (.heard p.label what))
              { w.record (.heard p.label what) with
                players := w.players.set id { p with remaining := n } } := by
            refine hrecord.orderly.of_players rfl rfl (fun q hq => ?_) rfl rfl
            rcases List.mem_or_eq_of_mem_set hq with hq | rfl
            · exact hw.scripts q hq
            · exact hscript
          have hresponse := Player.areCivil_response hscript n what
          exact hspent.trans
            (playScript_civil hp p.label 0 _ hresponse _ hspent.orderly)

theorem call_civil {k : Callback} (hk : k.isGuest = true) (what : Delivery) :
    Keeps h.Civil (call performer k what) := by
  cases k with
  | player id => exact play_civil hp id what
  | _ => cases hk

/-- An announcement that only guests listen for is a visit. -/
theorem emitOn_civil {b : Nat} {s : Signal} (hw : h.Orderly w)
    (hguests : ∀ x ∈ w.listeners b s.event, x.2.isGuest = true) :
    h.Visits w ((emitOn performer b s).left w) := by
  have hlisteners : w.listeners b s.event =
      (((w.bus b).channel? s.event).getD {}).listeners := rfl
  unfold emitOn
  rw [left_get_bind]
  cases hc : (w.bus b).channel? s.event with
  | none => exact .refl hw
  | some channel =>
      rw [hc, Option.getD_some] at hlisteners
      rw [hlisteners] at hguests
      have hR := civil_chained h
      have hflag : ∀ id, Keeps h.Civil (flagNow b s.event id) :=
        fun _ v => hR.refl v
      exact Keeps.deliver hR hflag channel.listeners
        (fun x hx => call_civil hp (hguests x hx) _) w hw

/-- Messages are for guests and for joints. -/
theorem publishOn_civil (number : Nat) (topic : String) (bytes : List UInt8) :
    Keeps h.Civil (publishOn performer number topic bytes) := by
  have hR := civil_chained h
  refine Keeps.get_bind fun w => ?_
  cases (w.transport number).receivers topic with
  | error e => exact hR.refl w
  | ok receivers =>
      refine (Keeps.forM hR receivers fun k _ => ?_).bind hR
        (fun _ => Keeps.pure hR _) w
      refine Keeps.bind hR (m := modify _)
        (Keeps.modify fun w => ?_) fun _ => ?_
      · exact Aside.civil ⟨rfl, rfl, rfl, rfl, rfl⟩
      · cases k with
        | player id => exact call_civil hp rfl _
        | pauseSwitch r => exact Keeps.pure hR ()
        | stopSwitch r => exact Keeps.pure hR ()
        | detach j => exact fun w => Aside.civil ⟨rfl, rfl, rfl, rfl, rfl⟩

end Calls

/-! ## Actions -/

/-- Whatever is done with the bus that a number calls. -/
theorem onBus_civil {α : Type} {number : Nat} {f : Nat → Act α}
    (hf : ∀ {b v}, h.Orderly v → v.busNumbers.get? number = some b →
      h.Visits v ((f b).left v)) :
    Keeps h.Civil (onBus number f) := by
  intro w hw
  obtain ⟨hbus, hnumber⟩ := busNumbered_visits hw number
  show h.Visits w ((f (w.busNumbered number).1).left (w.busNumbered number).2)
  exact hbus.trans (hf hbus.orderly hnumber)

/-- A guest with manners disconnects nobody but guests. -/
theorem disconnect_civil {bus : Nat} {label : String}
    (ha : h.Allows (.disconnect bus label)) (performer : Performer) :
    Keeps h.Civil (performWith performer none (.disconnect bus label)) := by
  refine onBus_civil fun {b v} hv hb => ?_
  unfold onConnection
  rw [left_get_bind]
  cases hget : v.names.connections.get? label with
  | none => exact .refl hv
  | some c =>
      refine hv.serve (.disconnect c) (fun x hx hid => ?_) rfl rfl
        hv.scripts rfl fun _ _ _ hkept => .inl hkept
      by_cases hbus : bus = h.number
      · have hlabel : label ∈ h.labels := by
          have hcivil : (bus != h.number || h.labels.contains label) = true :=
            ha
          simpa [hbus] using hcivil
        obtain ⟨home, hhome, -, hguest⟩ := hv.handles label hlabel hget
        rw [hbus, hhome] at hb
        cases hb
        exact hguest x hx hid
      · exact hv.guest_of_number hb hbus hx

section Actions

variable {performer : Performer}
  (hp : ∀ a, h.Allows a → Keeps h.Civil (performer none a))
include hp

/-- A guest with manners announces on the runners' bus only what they do not
listen for. -/
theorem emit_civil {bus : Nat} {payload : Payload}
    (ha : h.Allows (.emit bus payload)) :
    Keeps h.Civil (performWith performer none (.emit bus payload)) := by
  refine onBus_civil fun {b v} hv hb => ?_
  rw [left_get_bind]
  cases hs : payload.signal? v.names with
  | none => exact .refl hv
  | some s =>
      have hguests : ∀ x ∈ v.listeners b s.event, x.2.isGuest = true := by
        intro x hx
        by_cases hbus : bus = h.number
        · have hplain : payload.isSwitching = false := by
            have hcivil : (bus != h.number || !payload.isSwitching) = true := ha
            simpa [hbus] using hcivil
          refine hv.guest_of_event ?_ hx
          cases payload with
          | pause p => cases hplain
          | stop => cases hplain
          | loadPlugins e element =>
              obtain ⟨e', -, rfl⟩ := Option.map_eq_some_iff.1 hs
              rfl
          | _ =>
              cases hs
              rfl
        · exact hv.guest_of_number hb hbus hx
      have hvisits := emitOn_civil hp hv hguests
      rw [left_bind]
      unfold left at hvisits
      cases hrun : (emitOn performer b s).run v with
      | ok n v' =>
          rw [hrun] at hvisits
          exact hvisits
      | error cause v' =>
          rw [hrun] at hvisits
          exact hvisits

/-- An action with manners is a visit if actions with manners that nest in it
are. -/
theorem performWith_civil {a : Action} (ha : h.Allows a) :
    Keeps h.Civil (performWith performer none a) := by
  have hR := civil_chained h
  have hpure : ∀ {α : Type} (a : α), Keeps h.Civil (pure a) := Keeps.pure hR
  have hchannel : ∀ {b : Nat} {e : Event} {v : World}, h.Orderly v →
      h.Visits v (v.setBus b ((v.bus b).ensure e)) := fun {b e v} hv =>
    hv.serve (.channel e) trivial rfl rfl hv.scripts rfl fun _ _ _ hkept =>
      .inl hkept
  cases a with
  | connect bus event label script runs =>
      have hcivil := Bool.and_eq_true_iff.1 ha
      have hlabel : label ∈ h.labels → bus = h.number := by
        simpa [Decidable.imp_iff_not_or] using hcivil.1
      exact connectPlayer_civil bus event hlabel hcivil.2
  | emit bus payload => exact emit_civil hp ha
  | listeners bus event => exact onBus_civil fun {b v} hv _ => .refl hv
  | disconnect bus label => exact disconnect_civil ha performer
  | isConnected bus label =>
      refine onBus_civil fun {b v} hv _ => ?_
      unfold onConnection
      rw [left_get_bind]
      cases v.names.connections.get? label with
      | none => exact .refl hv
      | some c => exact hchannel hv
  | same label other =>
      refine Keeps.get_bind fun w => ?_
      cases w.names.connections.get? label with
      | none => exact hR.refl w
      | some c =>
          refine Keeps.get_bind (fun w => ?_) w
          cases w.names.connections.get? other <;> exact hR.refl w
  | describeBus bus => exact onBus_civil fun {b v} hv _ => .refl hv
  | describeChannel bus event fresh =>
      cases fresh with
      | true => exact hpure _
      | false => exact onBus_civil fun {b v} hv _ => hchannel hv
  | subscribe ref topic label script runs =>
      exact subscribePlayer_civil ref topic ha
  | publish t topic bytes =>
      refine (publishOn_civil hp t topic bytes).bind hR fun result => ?_
      cases result <;> exact hpure _
  | subscribers t topic => exact Keeps.get_bind fun w => hpure _ w
  | topics t => exact Keeps.get_bind fun w => hpure _ w
  | describeTransport t => exact Keeps.get_bind fun w => hpure _ w
  | request label => exact requestJoint_civil label
  | message label => exact requestJoint_civil label
  | panic text => exact Keeps.throw hR _
  | onStore op => exact hpure _
  | ifTold heeds a => exact hpure _

end Actions

/-- An action with manners is a visit, on whatever store it is performed. -/
theorem perform_civil : ∀ (depth : Nat) (ref : Option StoreRef) (a : Action),
    h.Allows a →
    Keeps h.Civil (perform depth ref a)
  | 0, _, _, _ => Keeps.throw (civil_chained h) _
  | depth + 1, none, a, ha => performWith_civil (perform_civil depth none) ha
  | depth + 1, some ref, a, ha => by
      by_cases hstore : ∃ op, a = .onStore op
      · obtain ⟨op, rfl⟩ := hstore
        exact callStore_civil ref op
      · show Keeps h.Civil (performWith (perform depth) (some ref) a)
        rw [performWith_some (perform depth) ref fun op heq => hstore ⟨op, heq⟩]
        exact performWith_civil (perform_civil depth none) ha

end Hub

end Linkage
