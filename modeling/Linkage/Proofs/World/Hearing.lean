import Linkage.Proofs.World.Paths

/-!
# What two listeners hear

A mirror of a store has two listeners on one bus, one for additions and one for
removals. What they hear is read off the trace, where every listener is recorded
under its label with the signals it receives.

A world is tuned for a mirror if nobody but the runner's own calls can reach the
two listeners: no script announces an addition or a removal on the bus, no
script makes another listener under their labels, and they listen nowhere else.
Then whatever listeners and subscribers do, to any depth, the mirror hears
nothing, and the world stays tuned. An announcement of an addition or a removal
on the bus is heard exactly once, as long as the listener stays connected.

## Main results

* `Mirror.perform_hushed`: an action of a script is not heard, at any depth.
* `Mirror.emitOn_hushed`: neither is an announcement of another event, or on
  another bus.
* `Mirror.passes_of_emitOn`: an announcement that is meant for the mirror is
  heard once.
-/

namespace Linkage

open Act World

/-- A listener of a mirror: the player that is called, the label it is recorded
under, and the number of its connection. -/
structure Ear where
  player : Nat
  label : String
  connection : Nat

/-- Two listeners that a copy of the store of a runner is made from, the bus
that they listen on, and the numbers that scripts call this bus by. -/
structure Mirror where
  runner : Nat
  bus : Nat
  numbers : List Nat
  additions : Ear
  removals : Ear

/-- The value is an addition or a removal. -/
def Payload.isTelling : Payload → Bool
  | .addToStore .. => true
  | .removeFromStore _ => true
  | _ => false

namespace Action

mutual

/-- The action makes no listener and no subscriber under some labels, and
announces no addition and no removal on the bus of some numbers; nor does any
script that it hands on. -/
def isQuiet (labels : List String) (numbers : List Nat) : Action → Bool
  | .connect _ _ label script _ =>
      !labels.contains label && areQuiet labels numbers script
  | .subscribe _ _ label script _ =>
      !labels.contains label && areQuiet labels numbers script
  | .emit bus payload => !(payload.isTelling && numbers.contains bus)
  | .ifTold _ a => isQuiet labels numbers a
  | _ => true

/-- All actions of a script are quiet. -/
def areQuiet (labels : List String) (numbers : List Nat) : List Action → Bool
  | [] => true
  | a :: rest => isQuiet labels numbers a && areQuiet labels numbers rest

end

theorem areQuiet_iff {labels : List String} {numbers : List Nat} :
    ∀ script : List Action,
    areQuiet labels numbers script = true ↔
      ∀ a ∈ script, a.isQuiet labels numbers = true
  | [] => by simp [areQuiet]
  | a :: rest => by simp [areQuiet, areQuiet_iff rest]

end Action

theorem Player.areQuiet_response {p : Player} {labels : List String}
    {numbers : List Nat} (h : Action.areQuiet labels numbers p.script = true)
    (left : Nat) (what : Delivery) :
    Action.areQuiet labels numbers (p.response left what) = true :=
  (Action.areQuiet_iff _).2
    (forall_response (fun _ _ ha => ha) ((Action.areQuiet_iff _).1 h))

namespace Mirror

variable {m : Mirror} {u v w : World} {signals later : List Signal}

/-- The listener for an event. -/
def ear? (m : Mirror) : Event → Option Ear
  | .addToStore => some m.additions
  | .removeFromStore => some m.removals
  | _ => none

/-- The labels of the two listeners. -/
def labels (m : Mirror) : List String := [m.additions.label, m.removals.label]

/-- The action does not interfere with the mirror. -/
def Quiet (m : Mirror) (a : Action) : Prop :=
  a.isQuiet m.labels m.numbers = true

/-- The signal of an entry of the trace, if the mirror has heard it. -/
def hears? (m : Mirror) : TraceEntry → Option Signal
  | .heard label (.signal s) =>
      if (m.ear? s.event).any (·.label = label) then some s else none
  | _ => none

/-- The signals of a part of the trace that the mirror has heard. -/
def heard (m : Mirror) (entries : List TraceEntry) : List Signal :=
  entries.filterMap m.hears?

/-- The signals that the mirror has heard since the trace was that of another
world. -/
def heardSince (m : Mirror) (w v : World) : List Signal :=
  m.heard (v.trace.drop w.trace.length)

/-- The two listeners are connected. -/
def Connected (m : Mirror) (w : World) : Prop :=
  ∀ e ear, m.ear? e = some ear →
    (ear.connection, .player ear.player) ∈ w.listeners m.bus e

/-- Scripts are quiet, a player that goes by the label of one of the listeners
is this listener, and it listens nowhere else. -/
structure Tuned (m : Mirror) (w : World) : Prop where
  bus : m.bus < w.buses.length
  numbers : ∀ n, w.busNumbers.get? n = some m.bus → n ∈ m.numbers
  scripts : ∀ p ∈ w.players, Action.areQuiet m.labels m.numbers p.script = true
  player : ∀ e ear, m.ear? e = some ear → ∀ id,
    (w.players[id]?).map Player.label = some ear.label ↔ id = ear.player
  place : ∀ e ear, m.ear? e = some ear → ∀ b, ∀ x ∈ w.listeners b e,
    x.2 = .player ear.player →
    b = m.bus ∧ x.1 = ear.connection

/-- The second world is tuned, and its trace goes on from the first one's by
entries of which the mirror hears some signals. -/
structure Passes (m : Mirror) (w : World) (signals : List Signal) (v : World) :
    Prop where
  tuned : m.Tuned v
  hears : ∃ entries, v.trace = w.trace ++ entries ∧ m.heard entries = signals

/-- From a tuned world one comes to a tuned world, and the mirror hears
nothing. -/
def Hushed (m : Mirror) (w v : World) : Prop := m.Tuned w → m.Passes w [] v

theorem Passes.refl (h : m.Tuned w) : m.Passes w [] w := ⟨h, [], by simp, rfl⟩

theorem Passes.trans (h : m.Passes u signals v) (h' : m.Passes v later w) :
    m.Passes u (signals ++ later) w := by
  obtain ⟨entries, htrace, rfl⟩ := h.hears
  obtain ⟨entries', htrace', rfl⟩ := h'.hears
  refine ⟨h'.tuned, entries ++ entries', ?_, List.filterMap_append⟩
  rw [htrace', htrace, List.append_assoc]

theorem Passes.hushed (h : m.Passes u signals v) (h' : m.Hushed v w) :
    m.Passes u signals w :=
  List.append_nil signals ▸ h.trans (h' h.tuned)

theorem Passes.heardSince_eq (h : m.Passes w signals v) :
    m.heardSince w v = signals := by
  obtain ⟨entries, htrace, hheard⟩ := h.hears
  rw [heardSince, htrace, List.drop_left, hheard]

theorem hushed_chained (m : Mirror) : Chained m.Hushed :=
  { refl := fun _ h => .refl h
    trans := fun h h' hw => (h hw).hushed h' }

theorem ear?_label_mem {e : Event} {ear : Ear} (h : m.ear? e = some ear) :
    ear.label ∈ m.labels := by
  cases e <;> cases h <;> simp [labels]

/-! ## Looking whether a world is tuned -/

/-- The two events with the listeners for them. -/
def ears (m : Mirror) : List (Event × Ear) :=
  [(.addToStore, m.additions), (.removeFromStore, m.removals)]

theorem mem_ears_iff (e : Event) (ear : Ear) :
    (e, ear) ∈ m.ears ↔ m.ear? e = some ear := by
  cases e <;> simp [ears, ear?, eq_comm]

instance (m : Mirror) (w : World) : Decidable (m.Connected w) :=
  decidable_of_iff
    (∀ x ∈ m.ears, (x.2.connection, .player x.2.player) ∈ w.listeners m.bus x.1)
    ⟨fun h e ear he => h (e, ear) ((mem_ears_iff e ear).2 he),
      fun h x hx => h x.1 x.2 ((mem_ears_iff x.1 x.2).1 hx)⟩

/-- The two listeners are players that are there. -/
theorem Tuned.player_lt (h : m.Tuned w) {e : Event} {ear : Ear}
    (he : m.ear? e = some ear) :
    ear.player < w.players.length := by
  have hplayer := (h.player e ear he ear.player).2 rfl
  obtain ⟨p, hp, -⟩ := Option.map_eq_some_iff.1 hplayer
  exact (List.getElem?_eq_some_iff.1 hp).1

/-- Only numbers, players and listeners that are there have to be looked at. -/
theorem tuned_iff : m.Tuned w ↔ m.bus < w.buses.length ∧
    (∀ x ∈ w.busNumbers.entries, x.2 = m.bus → x.1 ∈ m.numbers) ∧
    (∀ p ∈ w.players, Action.areQuiet m.labels m.numbers p.script = true) ∧
    ∀ x ∈ m.ears, x.2.player < w.players.length ∧
      (∀ id < w.players.length,
        (w.players[id]?).map Player.label = some x.2.label ↔ id = x.2.player) ∧
      ∀ b < w.buses.length, ∀ y ∈ w.listeners b x.1, y.2 = .player x.2.player →
        b = m.bus ∧ y.1 = x.2.connection := by
  constructor
  · intro h
    refine ⟨h.bus, fun x hx hb => ?_, h.scripts, fun x hx => ?_⟩
    · exact h.numbers x.1 (hb ▸ (SortedMap.mem_entries_iff _ _ _).1 hx)
    · have he := (mem_ears_iff x.1 x.2).1 hx
      exact ⟨h.player_lt he, fun id _ => h.player _ _ he id,
        fun b _ => h.place _ _ he b⟩
  · rintro ⟨hbus, hnumbers, hscripts, hears⟩
    refine { bus := hbus, numbers := fun n hn => ?_, scripts := hscripts,
             player := fun e ear he id => ?_,
             place := fun e ear he b x hx => ?_ }
    · exact hnumbers (n, m.bus) ((SortedMap.mem_entries_iff _ _ _).2 hn) rfl
    · obtain ⟨hlt, hplayer, -⟩ := hears (e, ear) ((mem_ears_iff e ear).2 he)
      rcases Nat.lt_or_ge id w.players.length with hid | hid
      · exact hplayer id hid
      · have hne : id ≠ ear.player := by
          rintro rfl
          exact absurd hlt (Nat.not_lt.2 hid)
        simp [List.getElem?_eq_none hid, hne]
    · obtain ⟨-, -, hplace⟩ := hears (e, ear) ((mem_ears_iff e ear).2 he)
      rcases Nat.lt_or_ge b w.buses.length with hb | hb
      · exact hplace b hb x hx
      · rw [World.listeners, channelAt_of_length_le hb] at hx
        cases hx

instance (m : Mirror) (w : World) : Decidable (m.Tuned w) :=
  decidable_of_iff _ tuned_iff.symm

/-! ## Changes of a world that are not heard -/

/-- Nothing is different that decides what is heard. -/
structure Silent (w v : World) : Prop where
  buses : v.buses = w.buses
  numbers : v.busNumbers = w.busNumbers
  players : v.players = w.players
  trace : v.trace = w.trace

theorem Tuned.congr (h : m.Tuned w) (hb : v.buses = w.buses)
    (hn : v.busNumbers = w.busNumbers) (hp : v.players = w.players) :
    m.Tuned v :=
  { bus := hb ▸ h.bus
    numbers := hn ▸ h.numbers
    scripts := hp ▸ h.scripts
    player := hp ▸ h.player
    place := fun e ear he b x hx =>
      h.place e ear he b x (by rwa [World.listeners, hb] at hx) }

theorem Tuned.passes (h : m.Tuned v) (ht : v.trace = w.trace) :
    m.Passes w [] v :=
  ⟨h, [], by simp [ht], rfl⟩

theorem Silent.hushed (h : Silent w v) : m.Hushed w v :=
  fun hw => (hw.congr h.buses h.numbers h.players).passes h.trace

theorem silent_setStore (w : World) (ref : StoreRef) (s : Store) :
    Silent w (w.setStore ref s) := by
  cases ref with
  | standalone n => exact ⟨rfl, rfl, rfl, rfl⟩
  | runner r =>
      simp only [setStore]
      cases w.runner? r <;> exact ⟨rfl, rfl, rfl, rfl⟩

theorem silent_setEndpoint (w : World) (t : TransportRef)
    (e : Endpoint Callback) :
    Silent w (w.setEndpoint t e) := by
  obtain ⟨transports, heq⟩ := setEndpoint_eq w t e
  rw [heq]
  exact ⟨rfl, rfl, rfl, rfl⟩

theorem silent_switchPause (w : World) (r : Nat) (paused : Bool) :
    Silent w (w.switchPause r paused) := by
  unfold switchPause
  cases w.runner? r with
  | none => exact ⟨rfl, rfl, rfl, rfl⟩
  | some runner =>
      show Silent w (if runner.paused = paused then _ else _)
      split <;> exact ⟨rfl, rfl, rfl, rfl⟩

theorem silent_switchStop (w : World) (r : Nat) :
    Silent w (w.switchStop r) := by
  unfold switchStop
  cases w.runner? r with
  | none => exact ⟨rfl, rfl, rfl, rfl⟩
  | some runner =>
      show Silent w (if runner.stopped = true then _ else _)
      split <;> exact ⟨rfl, rfl, rfl, rfl⟩

theorem record_passes (h : m.Tuned w) (entry : TraceEntry) :
    m.Passes w (m.heard [entry]) (w.record entry) :=
  ⟨h.congr rfl rfl rfl, [entry], rfl, rfl⟩

theorem record_hushed {entry : TraceEntry} (h : m.hears? entry = none) :
    Keeps m.Hushed (Act.record entry) := by
  intro w hw
  have hpasses := record_passes hw entry
  rwa [show m.heard [entry] = [] from by simp [heard, h]] at hpasses

theorem length_le_apply (buses : List (Bus Callback)) (move : Move) :
    buses.length ≤ (move.apply buses).length := by
  cases move <;> simp [Move.apply]

/-- A move that connects neither of the two listeners. -/
theorem Tuned.move (h : m.Tuned w) (move : Move)
    (hb : v.buses = move.apply w.buses) (hn : v.busNumbers = w.busNumbers)
    (hp : v.players = w.players)
    (hother : ∀ b e k, move = .connect b e k → ∀ f ear, m.ear? f = some ear →
      k ≠ .player ear.player) : m.Tuned v := by
  refine { bus := ?_, numbers := hn ▸ h.numbers, scripts := hp ▸ h.scripts,
           player := hp ▸ h.player, place := fun e ear he b x hx hk => ?_ }
  · rw [hb]
    exact Nat.lt_of_lt_of_le h.bus (length_le_apply _ _)
  · refine h.place e ear he b x ?_ hk
    rw [World.listeners, hb] at hx
    rcases channelAt_apply w.buses move b e with
      ⟨heq, -⟩ | ⟨k, heq, hmove⟩ | ⟨id, heq, -⟩
    · rwa [heq] at hx
    · rw [heq] at hx
      rcases List.mem_append.1 hx with hx | hx
      · exact hx
      · rw [List.mem_singleton.1 hx] at hk
        exact absurd hk (hother b e k hmove e ear he)
    · rw [heq] at hx
      exact Channel.mem_of_mem_disconnect hx

theorem move_hushed (move : Move) (hb : v.buses = move.apply w.buses)
    (hn : v.busNumbers = w.busNumbers) (hp : v.players = w.players)
    (ht : v.trace = w.trace) (hnot : ∀ b e k, move ≠ .connect b e k) :
    m.Hushed w v :=
  fun h => (h.move move hb hn hp fun b e k heq =>
    absurd heq (hnot b e k)).passes ht

/-- The bus that a number calls is not the mirror's, unless the number is one of
the mirror's. -/
theorem busNumbered_passes (h : m.Tuned w) (number : Nat) :
    m.Passes w [] (w.busNumbered number).2 ∧
      ((w.busNumbered number).1 = m.bus → number ∈ m.numbers) := by
  unfold busNumbered
  cases hnumber : w.busNumbers.get? number with
  | some b => exact ⟨.refl h, fun hb => h.numbers number (hb ▸ hnumber)⟩
  | none =>
      have hbus := h.bus
      have hadded : m.Tuned w.addBus.2 :=
        h.move .openBus rfl rfl rfl fun b e k heq => by cases heq
      refine ⟨Tuned.passes { hadded with numbers := fun n hn => ?_ } rfl,
        fun hb => ?_⟩
      · rw [SortedMap.get?_insert] at hn
        split at hn
        · have hlast : w.buses.length = m.bus := Option.some.inj hn
          omega
        · exact h.numbers n hn
      · have hlast : w.buses.length = m.bus := hb
        omega

/-- A player of another label. -/
theorem Tuned.addPlayer (h : m.Tuned w) {p : Player}
    (hlabel : p.label ∉ m.labels)
    (hscript : Action.areQuiet m.labels m.numbers p.script = true) :
    m.Tuned (w.addPlayer p).2 := by
  refine { bus := h.bus, numbers := h.numbers, scripts := fun q hq => ?_,
           player := fun e ear he id => ?_, place := h.place }
  · rcases List.mem_append.1 hq with hq | hq
    · exact h.scripts q hq
    · rw [List.mem_singleton.1 hq]
      exact hscript
  · rw [← h.player e ear he id]
    show ((w.players ++ [p])[id]?).map Player.label = _ ↔ _
    rcases Nat.lt_trichotomy id w.players.length with hlt | rfl | hgt
    · rw [List.getElem?_append_left hlt]
    · have hne : p.label ≠ ear.label :=
        fun heq => hlabel (heq ▸ ear?_label_mem he)
      simp [hne]
    · rw [List.getElem?_eq_none (by simp; omega),
        List.getElem?_eq_none (by omega)]

/-- A player that has fewer runs left. -/
theorem Tuned.spend (h : m.Tuned w) {id : Nat} {p : Player}
    (hp : w.players[id]? = some p) (n : Nat) :
    m.Tuned { w with players :=
                       w.players.set id { p with remaining := n } } := by
  refine { bus := h.bus, numbers := h.numbers, scripts := fun q hq => ?_,
           player := fun e ear he i => ?_, place := h.place }
  · rcases List.mem_or_eq_of_mem_set hq with hq | rfl
    · exact h.scripts q hq
    · exact h.scripts p (List.mem_of_getElem? hp)
  · rw [← h.player e ear he i, List.getElem?_set]
    split
    · next hid =>
      rw [← hid, hp, if_pos (List.getElem?_eq_some_iff.1 hp).1]
      rfl
    · rfl

theorem connectPlayer_hushed (number : Nat) (event : Event) {p : Player}
    (hlabel : p.label ∉ m.labels)
    (hscript : Action.areQuiet m.labels m.numbers p.script = true) :
    Keeps m.Hushed (connectPlayer number event p) := by
  refine Keeps.change fun w hw => ?_
  have hbus := (busNumbered_passes hw number).1
  have hadded := hbus.tuned.addPlayer hlabel hscript
  refine hbus.hushed fun hnumbered => Tuned.passes (hadded.move
    (.connect (w.busNumbered number).1 event
      (.player (w.busNumbered number).2.players.length)) rfl rfl rfl ?_) rfl
  intro b e k heq f ear hf hk
  cases heq
  have hlt := hnumbered.player_lt hf
  have hid := Callback.player.inj hk
  omega

theorem subscribePlayer_hushed (ref : TransportRef)
    (topic : String) {p : Player} (hlabel : p.label ∉ m.labels)
    (hscript : Action.areQuiet m.labels m.numbers p.script = true) :
    Keeps m.Hushed (subscribePlayer ref topic p) := by
  intro w hw
  unfold subscribePlayer
  rw [left_change]
  simp only [World.addPlayer]
  cases (w.endpoint ref).subscribe topic (.player w.players.length) with
  | error cause => exact .refl hw
  | ok e =>
      have hadded : m.Passes w [] (w.addPlayer p).2 :=
        (hw.addPlayer hlabel hscript).passes rfl
      exact hadded.hushed (silent_setEndpoint _ ref e).hushed

/-! ## Listeners that are called -/

/-- The mirror hears what its listener for a signal receives. -/
theorem heard_by_ear {s : Signal} {ear : Ear} (he : m.ear? s.event = some ear) :
    m.heard [.heard ear.label (.signal s)] = [s] := by
  simp [heard, hears?, he]

/-- It does not hear what a player receives that is not its listener for
this. -/
theorem not_heard_by {id : Nat} {what : Delivery} {p : Player} (hw : m.Tuned w)
    (hplayer : w.players[id]? = some p)
    (hnot : ∀ s ear, what = .signal s → m.ear? s.event = some ear →
      id ≠ ear.player) :
    m.heard [.heard p.label what] = [] := by
  cases what with
  | message bytes => rfl
  | signal s =>
      simp only [heard, List.filterMap_cons, List.filterMap_nil, hears?]
      cases he : m.ear? s.event with
      | none => rfl
      | some ear =>
          have hne : ear.label ≠ p.label := by
            intro hlabel
            have hid := (hw.player s.event ear he id).1
              (by rw [hplayer, hlabel]; rfl)
            exact hnot s ear rfl he hid
          simp [hne]

section Calls

variable {performer : Performer}
  (hp : ∀ a, m.Quiet a → Keeps m.Hushed (performer none a))
include hp

theorem playScript_hushed (label : String) :
    ∀ (index : Nat) (script : List Action),
      Action.areQuiet m.labels m.numbers script = true →
      Keeps m.Hushed (playScript performer label index script)
  | _, [], _ => Keeps.pure (hushed_chained m) ()
  | index, a :: rest, h => by
      have hquiet := Bool.and_eq_true_iff.1 h
      refine (hp a hquiet.1).bind (hushed_chained m) fun reply => ?_
      refine Keeps.bind (hushed_chained m) (record_hushed rfl) fun _ => ?_
      exact playScript_hushed label (index + 1) rest hquiet.2

/-- Of what a player receives the mirror hears no more than the one record of
it. -/
theorem play_passes {id : Nat} (what : Delivery) {p : Player} (h : m.Tuned w)
    (hplayer : w.players[id]? = some p) :
    m.Passes w (m.heard [.heard p.label what])
      ((play performer id what).left w) := by
  have hrecorded := record_passes h (.heard p.label what)
  refine hrecorded.hushed fun hw => ?_
  unfold play Act.record
  rw [left_get_bind, hplayer]
  simp only [left_modify_bind]
  cases p.remaining with
  | zero => exact .refl hw
  | succ n =>
      simp only [left_modify_bind]
      have hthere : (w.record (.heard p.label what)).players[id]? =
          some p := hplayer
      have hscript := hw.scripts p (List.mem_of_getElem? hthere)
      have hspent : m.Passes (w.record (.heard p.label what)) [] _ :=
        (hw.spend hthere n).passes rfl
      have hresponse := Player.areQuiet_response hscript n what
      exact hspent.hushed (playScript_hushed hp p.label 0 _ hresponse _)

/-- A callback that is called with something else than the mirror listens for,
or that is not the listener for it, is not heard. -/
theorem call_hushed {k : Callback} {what : Delivery}
    (h : ∀ s ear, what = .signal s → m.ear? s.event = some ear →
      k ≠ .player ear.player) :
    Keeps m.Hushed (call performer k what) := by
  have hpure : Keeps m.Hushed (pure () : Act Unit) :=
    Keeps.pure (hushed_chained m) ()
  cases k with
  | player id =>
      intro w hw
      show m.Passes w [] ((play performer id what).left w)
      cases hplayer : w.players[id]? with
      | none =>
          have hnobody : (play performer id what).left w = w := by
            unfold play
            rw [left_get_bind, hplayer]
            rfl
          rw [hnobody]
          exact .refl hw
      | some p =>
          have hunheard := not_heard_by hw hplayer fun s ear hs he heq =>
            h s ear hs he (congrArg Callback.player heq)
          exact hunheard ▸ play_passes hp what hw hplayer
  | pauseSwitch r =>
      cases what with
      | message bytes => exact hpure
      | signal s =>
          cases s with
          | pause paused =>
              exact fun w => (silent_switchPause w r paused).hushed
          | _ => exact hpure
  | stopSwitch r =>
      cases what with
      | message bytes => exact hpure
      | signal s =>
          cases s with
          | stop => exact fun w => (silent_switchStop w r).hushed
          | _ => exact hpure
  | detach j =>
      cases what with
      | message bytes => exact fun w => Silent.hushed ⟨rfl, rfl, rfl, rfl⟩
      | signal s => exact hpure

/-- An announcement of another event, or on another bus, is not heard. -/
theorem emitOn_hushed {b : Nat} {s : Signal}
    (h : ∀ ear, m.ear? s.event = some ear → b ≠ m.bus) :
    Keeps m.Hushed (emitOn performer b s) := by
  intro w hw
  have hlisteners : w.listeners b s.event =
      (((w.bus b).channel? s.event).getD {}).listeners := rfl
  unfold emitOn
  rw [left_get_bind]
  cases hc : (w.bus b).channel? s.event with
  | none => exact .refl hw
  | some channel =>
      rw [hc, Option.getD_some] at hlisteners
      refine Keeps.deliver (hushed_chained m) (fun id => ?_) channel.listeners
        (fun x hx => call_hushed hp ?_) w hw
      · exact fun w => (hushed_chained m).refl w
      · rintro _ ear ⟨⟩ he hk
        exact h ear he (hw.place s.event ear he b x (hlisteners ▸ hx) hk).1

theorem publishOn_hushed (number : Nat) (topic : String) (bytes : List UInt8) :
    Keeps m.Hushed (publishOn performer number topic bytes) := by
  have hR := hushed_chained m
  refine Keeps.get_bind fun w => ?_
  cases (w.transport number).receivers topic with
  | error e => exact hR.refl w
  | ok receivers =>
      refine (Keeps.forM hR receivers fun k _ => ?_).bind hR
        (fun _ => Keeps.pure hR _) w
      refine Keeps.bind hR (m := modify _)
        (Keeps.modify fun w => ?_) fun _ => ?_
      · exact Silent.hushed ⟨rfl, rfl, rfl, rfl⟩
      · exact call_hushed hp (by simp)

end Calls

/-! ## Actions -/

/-- Whatever is done with a bus, it is the mirror's only if the number is one of
the mirror's. -/
theorem onBus_hushed {α : Type} {number : Nat} {f : Nat → Act α}
    (h : ∀ b, (b = m.bus → number ∈ m.numbers) → Keeps m.Hushed (f b)) :
    Keeps m.Hushed (onBus number f) := by
  intro w hw
  obtain ⟨hnumbered, hbus⟩ := busNumbered_passes hw number
  show m.Passes w []
    ((f (w.busNumbered number).1).left (w.busNumbered number).2)
  exact hnumbered.hushed (h _ hbus _)

theorem onConnection_hushed {label : String} {f : Connection → Act Reply}
    (h : ∀ c, Keeps m.Hushed (f c)) :
    Keeps m.Hushed (onConnection label f) := by
  refine Keeps.get_bind fun w => ?_
  cases w.names.connections.get? label with
  | none => exact (hushed_chained m).refl w
  | some c => exact h c w

theorem requestJoint_hushed (label : String) :
    Keeps m.Hushed (requestJoint label) := by
  refine Keeps.get_bind fun w => ?_
  cases w.names.joints.get? label with
  | none => exact (hushed_chained m).refl w
  | some j => exact Silent.hushed ⟨rfl, rfl, rfl, rfl⟩

theorem callStore_hushed (ref : StoreRef) (op : StoreAction) :
    Keeps m.Hushed (callStore ref op) := by
  intro w
  rcases left_callStore ref op w with heq | ⟨s, reply, names, s', -, -, heq⟩
  · rw [heq]
    exact (hushed_chained m).refl w
  · rw [heq]
    have hstore := silent_setStore w ref s'
    exact Silent.hushed ⟨hstore.buses, hstore.numbers,
      hstore.players, hstore.trace⟩

/-- A value that is meant for the mirror is an addition or a removal. -/
theorem isTelling_of_ear? {names : Names} {payload : Payload}
    {s : Signal} {ear : Ear} (hs : payload.signal? names = some s)
    (he : m.ear? s.event = some ear) :
    payload.isTelling = true := by
  cases payload with
  | addToStore e name parent => rfl
  | removeFromStore e => rfl
  | loadPlugins e element =>
      obtain ⟨e', -, rfl⟩ := Option.map_eq_some_iff.1 hs
      cases he
  | _ => cases hs; cases he

section Actions

variable {performer : Performer}
  (hp : ∀ a, m.Quiet a → Keeps m.Hushed (performer none a))
include hp

theorem emit_hushed {bus : Nat} {payload : Payload}
    (h : m.Quiet (.emit bus payload)) :
    Keeps m.Hushed (performWith performer none (.emit bus payload)) := by
  refine onBus_hushed fun b hbus => Keeps.get_bind fun w => ?_
  cases hs : payload.signal? w.names with
  | none => exact (hushed_chained m).refl w
  | some s =>
      refine Keeps.bind (hushed_chained m)
        (emitOn_hushed hp fun ear he hb => ?_)
        (fun n => Keeps.pure (hushed_chained m) _) w
      have hquiet : (!(payload.isTelling && m.numbers.contains bus)) = true := h
      rw [isTelling_of_ear? hs he, List.contains_iff_mem.2 (hbus hb)] at hquiet
      cases hquiet

/-- A quiet action is not heard if quiet actions that nest in it are not. -/
theorem performWith_hushed {a : Action} (h : m.Quiet a) :
    Keeps m.Hushed (performWith performer none a) := by
  have hR := hushed_chained m
  have hpure : ∀ {α : Type} (a : α), Keeps m.Hushed (pure a) := Keeps.pure hR
  cases a with
  | connect bus event label script runs =>
      have hquiet := Bool.and_eq_true_iff.1 h
      exact connectPlayer_hushed bus event (by simpa using hquiet.1) hquiet.2
  | emit bus payload => exact emit_hushed hp h
  | listeners bus event =>
      exact onBus_hushed fun b _ => Keeps.get_bind fun w => hpure _ w
  | disconnect bus label =>
      refine onBus_hushed fun b _ => onConnection_hushed fun c =>
        Keeps.change fun w => ?_
      exact move_hushed (.disconnect b c) rfl rfl rfl rfl (by simp)
  | isConnected bus label =>
      refine onBus_hushed fun b _ => onConnection_hushed fun c =>
        Keeps.change fun w => ?_
      exact move_hushed (.openChannel b c.event) rfl rfl rfl rfl (by simp)
  | same label other =>
      exact onConnection_hushed fun c => onConnection_hushed fun d => hpure _
  | describeBus bus =>
      exact onBus_hushed fun b _ => Keeps.get_bind fun w => hpure _ w
  | describeChannel bus event fresh =>
      cases fresh with
      | true => exact hpure _
      | false =>
          refine onBus_hushed fun b _ => Keeps.change fun w => ?_
          exact move_hushed (.openChannel b event) rfl rfl rfl rfl (by simp)
  | subscribe ref topic label script runs =>
      have hquiet := Bool.and_eq_true_iff.1 h
      exact subscribePlayer_hushed ref topic (by simpa using hquiet.1) hquiet.2
  | publish t topic bytes =>
      refine (publishOn_hushed hp t topic bytes).bind hR fun result => ?_
      cases result <;> exact hpure _
  | subscribers t topic => exact Keeps.get_bind fun w => hpure _ w
  | topics t => exact Keeps.get_bind fun w => hpure _ w
  | describeTransport t => exact Keeps.get_bind fun w => hpure _ w
  | request label => exact requestJoint_hushed label
  | message label => exact requestJoint_hushed label
  | panic text => exact Keeps.throw hR _
  | onStore op => exact hpure _
  | ifTold heeds a => exact hpure _

end Actions

/-- A quiet action is not heard, on whatever store it is performed. -/
theorem perform_hushed :
    ∀ (depth : Nat) (ref : Option StoreRef) (a : Action), m.Quiet a →
      Keeps m.Hushed (perform depth ref a)
  | 0, _, _, _ => Keeps.throw (hushed_chained m) _
  | depth + 1, none, a, h => performWith_hushed (perform_hushed depth none) h
  | depth + 1, some ref, a, h => by
      by_cases hstore : ∃ op, a = .onStore op
      · obtain ⟨op, rfl⟩ := hstore
        exact callStore_hushed ref op
      · show Keeps m.Hushed (performWith (perform depth) (some ref) a)
        rw [performWith_some (perform depth) ref fun op heq => hstore ⟨op, heq⟩]
        exact performWith_hushed (perform_hushed depth none) h

/-! ## Announcements that are heard -/

/-- Of the listeners on the bus of the mirror only its own is heard when it is
called. -/
theorem passes_of_call {depth : Nat} {s : Signal} {ear : Ear}
    {x : Nat × Callback} (he : m.ear? s.event = some ear) (hw : m.Tuned w)
    (hx : x ∈ w.listeners m.bus s.event)
    (h : (call (perform depth) x.2 (.signal s)).run w = .ok () v) :
    m.Passes w (if (ear.connection, .player ear.player) = x then [s]
    else []) v := by
  have hquiet := fun a (ha : m.Quiet a) => perform_hushed depth none a ha
  by_cases hown : (ear.connection, .player ear.player) = x
  · subst hown
    obtain ⟨p, hplayer, hlabel⟩ :=
      Option.map_eq_some_iff.1 ((hw.player _ _ he ear.player).2 rfl)
    have hheard := play_passes hquiet (.signal s) hw hplayer
    rw [show (play (perform depth) ear.player (.signal s)).left w = v
      from left_of_ok h,
      hlabel, heard_by_ear he] at hheard
    rwa [if_pos rfl]
  · rw [if_neg hown]
    refine (call_hushed hquiet (k := x.2) ?_).of_ok h hw
    rintro _ ear' ⟨⟩ he' hk
    cases he.symm.trans he'
    exact hown (Prod.ext (hw.place _ _ he _ x hx hk).2.symm hk.symm)

/-- A delivery is heard if the listener for its event is one of those it goes
over. -/
theorem passes_of_deliverOn {depth : Nat} {s : Signal} {ear : Ear}
    (he : m.ear? s.event = some ear) (hu : BusesSound u.buses)
    (hlast : (ear.connection, .player ear.player) ∈ v.listeners m.bus s.event)
    {l : List (Nat × Callback)} :
    ∀ {n : Nat} {w : World}, u.Rewired w → m.Tuned w →
      l.Nodup → (∀ x ∈ l, x ∈ u.listeners m.bus s.event) →
      (deliverOn (perform depth) m.bus s l).run w = .ok n v →
      m.Passes w (if (ear.connection, .player ear.player) ∈ l then [s]
      else []) v := by
  have hrewires := perform_rewires depth
  induction l with
  | nil =>
      intro n w huw hw _ _ h
      cases h
      exact .refl hw
  | cons x rest ih =>
      intro n w huw hw hnodup hmem h
      obtain ⟨hx, hrest⟩ := List.nodup_cons.1 hnodup
      have hstart := hmem x (by simp)
      have hwv : w.Rewired v :=
        (deliverOn_rewires hrewires m.bus s (x :: rest)).of_ok h
      rw [run_deliverOn_cons] at h
      by_cases hflag : (w.bus m.bus).flag ⟨s.event, x.1⟩ = true
      · rw [if_pos hflag] at h
        obtain ⟨⟨⟩, w₁, hcall, h⟩ := run_bind_eq_ok_iff.1 h
        obtain ⟨k, w₂, hrun, h⟩ := run_bind_eq_ok_iff.1 h
        cases h
        have huw₁ := rewired_chained.trans huw (call_rewires hrewires hcall)
        have hheard := passes_of_call he hw
          ((flag_iff hu huw hstart).1 hflag) hcall
        have hlater := ih huw₁ hheard.tuned hrest
          (fun y hy => hmem y (by simp [hy])) hrun
        have hall := hheard.trans hlater
        by_cases hown : (ear.connection, .player ear.player) = x
        · rw [if_pos hown, if_neg (hown ▸ hx), List.append_nil] at hall
          rwa [if_pos (by simp [hown])]
        · simpa [hown] using hall
      · rw [if_neg hflag] at h
        have hother : (ear.connection, .player ear.player) ≠ x := by
          rintro rfl
          exact hflag ((flag_iff hu huw hstart).2
            (mem_listeners_between hu huw hwv hstart hlast))
        have hlater := ih huw hw hrest (fun y hy => hmem y (by simp [hy])) h
        simpa [hother] using hlater

/-- An announcement on the bus of the mirror that is meant for it is heard
exactly once, if the listener is connected when it begins and when it ends. -/
theorem passes_of_emitOn {depth n : Nat} {s : Signal} {ear : Ear}
    (he : m.ear? s.event = some ear) (hbuses : BusesSound w.buses)
    (hw : m.Tuned w) (hstart : m.Connected w) (hend : m.Connected v)
    (h : (emitOn (perform depth) m.bus s).run w = .ok n v) :
    m.Passes w [s] v := by
  rw [run_emitOn] at h
  have hnodup : (w.listeners m.bus s.event).Nodup := by
    refine (hbuses m.bus s.event).sorted.imp ?_
    rintro x y hlt rfl
    exact Nat.lt_irrefl _ hlt
  have hpasses := passes_of_deliverOn he hbuses (hend _ _ he)
    (rewired_chained.refl w) hw hnodup (fun _ hx => hx) h
  rwa [if_pos (hstart _ _ he)] at hpasses

end Mirror

end Linkage
