import Linkage.Proofs.World.Telling

/-!
# Runners that share a bus

Any number of runners can be made on one bus and dropped again in any order,
while guests come and go there and pauses and stops are announced. As long as
the guests have manners, the runners do not disturb each other or anybody else:
each has heard every announcement since it was made, dropping one takes away its
own two listeners and no other, and the listeners are at all times the seats of
the runners that are there and the guests that were connected and have not been
disconnected since.

## Main results

* `Hub.listeners_dropRunner`: what dropping a runner does to the listeners.
* `Hub.advances_of_request`: what one request does.
* `Hub.shares_of_permits`: runners that share a bus, over a whole session.
-/

namespace Linkage

open Act World

/-- The reply tells that the operation broke off. -/
def Reply.isPanicked : Reply → Bool
  | .panicked _ => true
  | _ => false

namespace Hub

variable {h : Hub} {u v w : World} {b depth n : Nat} {s : Signal} {c : Switch}

/-! ## Requests that make and drop no runner -/

/-- The request has manners: it makes a runner on the hub's bus, drops one,
announces something, asks for a clock, or is an action with manners. -/
def isCivil (h : Hub) : Operation → Bool
  | .act (.emit _ _) => true
  | .act a => a.isCivil h.number h.labels
  | .makeRunner bus _ own => bus == some h.number && own.isNone
  | .dropRunner _ => true
  | .pause _ _ => true
  | .info _ => true
  | _ => false

/-- The pause or stop that a request announces on the hub's bus. -/
def signal? (h : Hub) (w : World) : Operation → Option Signal
  | .act (.emit bus (.pause paused)) =>
      if bus = h.number then some (.pause paused) else none
  | .act (.emit bus .stop) => if bus = h.number then some .stop else none
  | .pause r paused => (w.runner? r).map fun _ => .pause paused
  | _ => none

/-- From the first world a request leads to the second one that makes and drops
no runner: all runners hear the same signals, and otherwise there are visits
only. -/
structure Follows (h : Hub) (signals : List Signal) (w v : World) : Prop where
  orderly : h.Orderly v
  length : v.runners.length = w.runners.length
  drivers : ∀ r, (v.runner? r).map Runner.driver =
    ((w.runner? r).map Runner.driver).map fun d => d.hearAll signals
  numbers : ∀ {n b : Nat}, w.busNumbers.get? n = some b →
    v.busNumbers.get? n = some b
  calls : ∀ b, ∃ calls, GuestCalls (w.bus b) calls ∧
    v.bus b = (w.bus b).serveAll calls

theorem Visits.follows (hv : h.Visits w v) : h.Follows [] w v := by
  refine { orderly := hv.orderly,
           length := length_of_fittings (fittings_of_drivers hv.drivers),
           drivers := fun r => ?_, numbers := hv.numbers, calls := hv.calls }
  rw [map_driver_of_drivers hv.drivers]
  cases w.runner? r <;> rfl

theorem Tells.follows (ht : h.Tells s (fun _ d => decide (d.bus = b)) w v)
    (hall : ∀ {r a}, w.runner? r = some a → a.bus = b) : h.Follows [s] w v := by
  refine { orderly := ht.orderly, length := ht.length, drivers := fun r => ?_,
           numbers := ht.numbers, calls := ht.calls }
  rw [ht.drivers]
  cases hr : w.runner? r with
  | none => rfl
  | some a =>
      have hbus : a.bus = b := hall hr
      show some (if _ then a.driver.hear s else a.driver) =
        some (a.driver.hear s)
      rw [if_pos (decide_eq_true (p := a.driver.bus = b) hbus)]

theorem Visits.trans_follows {signals : List Signal} (huv : h.Visits u v)
    (hvw : h.Follows signals v w) : h.Follows signals u w := by
  refine { orderly := hvw.orderly,
           length := hvw.length.trans
             (length_of_fittings (fittings_of_drivers huv.drivers)),
           drivers := fun r => ?_,
           numbers := fun hget => hvw.numbers (huv.numbers hget),
           calls := fun b =>
             exists_guestCalls_trans (huv.calls b) (hvw.calls b) }
  rw [hvw.drivers, map_driver_of_drivers huv.drivers]

/-- What an announcement comes to that is asked for by the number of a bus. -/
theorem run_emit {performer : Performer} {number : Nat} {payload : Payload}
    (hs : payload.signal? (w.busNumbered number).2.names = some s) :
    (performWith performer none (.emit number payload)).run w =
      (emitOn performer (w.busNumbered number).1 s >>= fun n =>
        pure (Reply.count n)).run (w.busNumbered number).2 := by
  have hbus : ∀ f : Nat → Act Reply, (onBus number f).run w =
      (f (w.busNumbered number).1).run (w.busNumbered number).2 := fun _ => rfl
  refine (hbus _).trans ?_
  rw [run_get_bind, hs]

/-- An announcement that a value flips switches with, on the hub's bus, is heard
by all runners. -/
theorem follows_of_switching (hw : h.Orderly w) {payload : Payload}
    {reply : Reply} (hs : s.event.switch? = some c)
    (hsignal : ∀ names, payload.signal? names = some s)
    (hrun : (performWith (perform depth) none (.emit h.number payload)).run w =
      .ok reply v) :
    h.Follows [s] w v := by
  obtain ⟨hbus, hnumber⟩ := busNumbered_visits hw h.number
  rw [run_emit (hsignal _)] at hrun
  obtain ⟨n, v', hemit, hdone⟩ := run_bind_eq_ok_iff.1 hrun
  cases hdone
  refine hbus.trans_follows
    ((tells_of_emitOn hbus.orderly hs hemit).follows fun {r a} ha => ?_)
  exact Option.some.inj ((hbus.orderly.home ha).symm.trans hnumber)

/-- An announcement that is asked for. -/
theorem follows_of_emit (hw : h.Orderly w) {bus : Nat} {payload : Payload}
    {reply : Reply}
    (hrun : (performWith (perform depth) none (.emit bus payload)).run w =
      .ok reply v) :
    h.Follows (h.signal? w (.act (.emit bus payload))).toList w v := by
  by_cases hcivil : h.Allows (.emit bus payload)
  · have hvisits : h.Visits w v :=
      (perform_civil (depth + 1) none (.emit bus payload) hcivil).of_ok hrun hw
    have hnone : h.signal? w (.act (.emit bus payload)) = none := by
      have hplain : (bus != h.number || !payload.isSwitching) = true := hcivil
      cases payload with
      | pause paused => simpa [signal?, Payload.isSwitching] using hplain
      | stop => simpa [signal?, Payload.isSwitching] using hplain
      | _ => rfl
    rw [hnone]
    exact hvisits.follows
  · have hswitching : bus = h.number ∧ payload.isSwitching = true := by
      have hnot : ¬ (bus != h.number || !payload.isSwitching) = true := hcivil
      simpa using hnot
    obtain ⟨rfl, hpayload⟩ := hswitching
    cases payload with
    | pause paused =>
        rw [signal?, if_pos rfl]
        exact follows_of_switching hw (show _ = some Switch.pause from rfl)
          (fun _ => rfl) hrun
    | stop =>
        rw [signal?, if_pos rfl]
        exact follows_of_switching hw (show _ = some Switch.stop from rfl)
          (fun _ => rfl) hrun
    | _ => cases hpayload

/-- An action that is asked for. -/
theorem follows_of_act (hw : h.Orderly w) {ref : StoreRef} {a : Action}
    {reply : Reply} (hcivil : h.isCivil (.act a) = true)
    (hrun : (perform (depth + 1) (some ref) a).run w = .ok reply v) :
    h.Follows (h.signal? w (.act a)).toList w v := by
  by_cases hemit : ∃ bus payload, a = .emit bus payload
  · obtain ⟨bus, payload, rfl⟩ := hemit
    have hrun' :
        (performWith (perform depth) (some ref) (.emit bus payload)).run w =
        .ok reply v := hrun
    rw [performWith_some _ ref (by simp)] at hrun'
    exact follows_of_emit hw hrun'
  · have hallowed : h.Allows a := by
      cases a with
      | emit bus payload => exact absurd ⟨bus, payload, rfl⟩ hemit
      | _ => exact hcivil
    have hnone : h.signal? w (.act a) = none := by
      cases a with
      | emit bus payload => exact absurd ⟨bus, payload, rfl⟩ hemit
      | _ => rfl
    rw [hnone]
    exact ((perform_civil (depth + 1) (some ref) a hallowed).of_ok
      hrun hw).follows

/-- A pause or a resumption that is asked of a runner. -/
theorem run_announcePause {r : Nat} {a : Runner} (hr : w.runner? r = some a)
    (paused : Bool) :
    (announcePause r paused).run w =
      (emitOn (perform (w.weight + 0 + 1)) a.bus (.pause paused) >>= fun _ =>
        pure ()).run w := by
  unfold announcePause
  rw [run_get_bind, hr]
  exact run_settled 0
    (fun performer => emitOn performer a.bus (.pause paused) >>= fun _ =>
      pure ()) w

theorem follows_of_pause (hw : h.Orderly w) {r : Nat}
    {paused : Bool} {a : Runner} (hr : w.runner? r = some a)
    (hrun : (announcePause r paused).run w = .ok () v) :
    h.Follows [.pause paused] w v := by
  rw [run_announcePause hr] at hrun
  obtain ⟨n, v', hemit, hdone⟩ := run_bind_eq_ok_iff.1 hrun
  cases hdone
  have hs : (Signal.pause paused).event.switch? = some .pause := rfl
  refine (tells_of_emitOn hw hs hemit).follows fun {q d} hd => ?_
  exact Option.some.inj ((hw.home hd).symm.trans (hw.home hr))

/-- A request for a runner that is not there. -/
theorem run_onRunner_of_none {r : Nat} (hr : w.runner? r = none)
    (f : Runner → Act Reply) :
    (Session.onRunner r f).run w = .ok (.unknown "runner") w := by
  unfold Session.onRunner
  rw [run_get_bind, hr]
  rfl

theorem run_onRunner {r : Nat} {a : Runner} (hr : w.runner? r = some a)
    (f : Runner → Act Reply) : (Session.onRunner r f).run w = (f a).run w := by
  unfold Session.onRunner
  rw [run_get_bind, hr]

/-- A request that makes and drops no runner, up to what it logs. -/
theorem follows_of_perform (hw : h.Orderly w) {ref : StoreRef}
    {operation : Operation} {reply : Reply}
    (hcivil : h.isCivil operation = true)
    (hmake : ∀ bus dt own, operation ≠ .makeRunner bus dt own)
    (hdrop : ∀ r, operation ≠ .dropRunner r)
    (hrun : (Session.perform ref operation).run w = .ok reply v) :
    h.Follows (h.signal? w operation).toList w v := by
  cases operation with
  | act a =>
      have hsettled : (Session.perform ref (.act a)).run w =
          (perform (w.weight + a.weight + 1 + 1) (some ref) a).run w :=
        run_settled a.weight
          (fun performer => performWith performer (some ref) a) w
      exact follows_of_act hw hcivil (hsettled.symm.trans hrun)
  | pause r paused =>
      cases hr : w.runner? r with
      | none =>
          have hsame := EStateM.Result.ok.inj
            ((run_onRunner_of_none hr _).symm.trans hrun)
          have hnone : h.signal? w (.pause r paused) = none := by
            simp [signal?, hr]
          rw [hnone, ← hsame.2]
          exact (Visits.refl hw).follows
      | some a =>
          have hbody := (run_onRunner hr _).symm.trans hrun
          obtain ⟨⟨⟩, v', hannounce, hdone⟩ := run_bind_eq_ok_iff.1 hbody
          cases hdone
          have hsome : h.signal? w (.pause r paused) =
              some (.pause paused) := by
            simp [signal?, hr]
          rw [hsome]
          exact follows_of_pause hw hr hannounce
  | info r =>
      have hsame : w = v := by
        cases hr : w.runner? r with
        | none =>
            exact (EStateM.Result.ok.inj
              ((run_onRunner_of_none hr _).symm.trans hrun)).2
        | some a =>
            exact (EStateM.Result.ok.inj
              ((run_onRunner hr _).symm.trans hrun)).2
      exact hsame ▸ (Visits.refl hw).follows
  | makeRunner bus dt own => exact absurd rfl (hmake bus dt own)
  | dropRunner r => exact absurd rfl (hdrop r)
  | _ => cases hcivil

/-! ## Runners that are made and dropped -/

/-- A world is orderly after calls that disconnect or connect switches on one
bus, if the listeners that are not guests are the runners' seats again. -/
theorem Orderly.refit (hw : h.Orderly w) (calls : List (BusCall Callback))
    (hb : v.buses = w.buses.set b ((w.bus b).serveAll calls))
    (hn : v.busNumbers = w.busNumbers) (hp : v.players = w.players)
    (hc : v.names.connections = w.names.connections)
    (hhome : ∀ {r a}, v.runner? r = some a →
      w.busNumbers.get? h.number = some a.bus)
    (hseated : ∀ b e, (v.listeners b e).filter (fun x => !x.2.isGuest) =
      v.seats b e) :
    h.Orderly v := by
  have hplace : ∀ b', v.bus b' = if b = b' ∧ b < w.buses.length then
      (w.bus b).serveAll calls
      else w.bus b' := by
    intro b'
    show busAt v.buses b' = _
    rw [hb, busAt_set]
    rfl
  refine { sound := ?_, numbers := fun {n b'} hget => ?_,
           apart := hn ▸ hw.apart,
           home := fun ha => hn ▸ hhome ha, seated := hseated,
           scripts := hp ▸ hw.scripts,
           handles := fun label hlabel c hget => ?_ }
  · rw [hb]
    exact busesSound_setBus hw.sound b (Bus.sound_serveAll (hw.sound b) calls)
  · rw [hb, List.length_set]
    exact hw.numbers (hn ▸ hget)
  · obtain ⟨b', hhome, hid, hguest⟩ := hw.handles label hlabel (hc ▸ hget)
    have hkept : c.id < v.nextId b' c.event ∧
        ∀ x ∈ v.listeners b' c.event, x.1 = c.id →
          x ∈ w.listeners b' c.event := by
      show c.id < ((v.bus b').channel c.event).nextId ∧
        ∀ x ∈ ((v.bus b').channel c.event).listeners, x.1 = c.id → _
      rw [hplace]
      split
      · next heq =>
        obtain ⟨rfl, -⟩ := heq
        refine ⟨Nat.lt_of_lt_of_le hid (Bus.nextId_le_serveAll _ calls _),
          fun x hx hxid => ?_⟩
        exact
          ((Bus.mem_listeners_serveAll (hw.sound b c.event) (hxid ▸ hid)
            calls).1 hx).1
      · exact ⟨hid, fun x hx _ => hx⟩
    exact ⟨b', hn ▸ hhome, hkept.1,
      fun x hx hxid => hguest x (hkept.2 x hx hxid) hxid⟩

/-- The calls by which a runner that is made connects its switches. -/
def joining (r : Nat) : List (BusCall Callback) :=
  [.connect .pause (.pauseSwitch r), .connect .stop (.stopSwitch r)]

/-- The calls by which a runner that is dropped disconnects its switches. -/
def leaving (a : Runner) : List (BusCall Callback) :=
  [.disconnect ⟨.pause, a.pauseConnection⟩,
    .disconnect ⟨.stop, a.stopConnection⟩]

/-- A runner on a bus whose switches have just been connected. -/
def fresh (bus : Bus Callback) (b : Nat) (dt : Duration) : Runner :=
  { bus := b, pauseConnection := (bus.channel .pause).nextId,
    stopConnection := (bus.channel .stop).nextId, info := { dt } }

theorem makeRunner_eq (b : Nat) (dt : Duration) (w : World) :
    (makeRunner b dt).left w =
    { w.setBus b ((w.bus b).serveAll (joining w.runners.length)) with
      runners := w.runners ++ [some (fresh (w.bus b) b dt)] } := by
  have hstop :
      (((w.bus b).connect .pause (.pauseSwitch w.runners.length)).2.channel
        .stop) =
      (w.bus b).channel .stop := by
    rw [Bus.channel_connect, if_neg (by decide)]
  have hrunner :
      (⟨b, ((w.bus b).connect .pause (.pauseSwitch w.runners.length)).1,
        (((w.bus b).connect .pause (.pauseSwitch w.runners.length)).2.connect
          .stop (.stopSwitch w.runners.length)).1,
        { dt }, {}, [], false, false, []⟩ : Runner) =
      fresh (w.bus b) b dt := by
    unfold fresh
    rw [← hstop]
    rfl
  rw [← hrunner]
  rfl

/-- The listeners after the switches of a runner were connected. -/
theorem listeners_joining (bus : Bus Callback) (dt : Duration)
    (r : Nat) (e : Event) :
    ((bus.serveAll (joining r)).channel e).listeners =
      (bus.channel e).listeners ++ ((fresh bus b dt).seat? r b e).toList := by
  have hchannel : (bus.serveAll (joining r)).channel e =
      if e = .stop then
        (((bus.connect .pause (.pauseSwitch r)).2.channel e).connect
        (.stopSwitch r)).2
      else (bus.connect .pause (.pauseSwitch r)).2.channel e :=
    Bus.channel_connect _ .stop e _
  rw [hchannel, Bus.channel_connect]
  cases e <;> simp [Runner.seat?, fresh, Event.switch?, Channel.connect,
    Runner.connection, Switch.callback]

theorem seats_append (a : Runner) (e : Event)
    (hv : v.runners = w.runners ++ [some a]) :
    v.seats b e = w.seats b e ++ (a.seat? w.runners.length b e).toList := by
  have hrunner : ∀ r, v.runner? r = if r = w.runners.length then some a
      else w.runner? r := by
    intro r
    have happend := runner?_append w a r
    unfold runner? at happend ⊢
    rw [hv]
    exact happend
  unfold seats
  rw [hv, List.length_append, List.length_singleton, List.range_succ,
    List.filterMap_append]
  congr 1
  · refine List.filterMap_congr fun r hr => ?_
    rw [hrunner, if_neg (Nat.ne_of_lt (List.mem_range.1 hr))]
  · have hself : v.runner? w.runners.length = some a := by
      rw [hrunner, if_pos rfl]
    rw [List.filterMap_cons, hself]
    cases hseat : a.seat? w.runners.length b e <;> simp [hseat]

/-- A runner that is made on the hub's bus takes its seats. -/
theorem Orderly.makeRunner (hw : h.Orderly w)
    (hb : w.busNumbers.get? h.number = some b) (dt : Duration) :
    h.Orderly ((makeRunner b dt).left w) := by
  rw [makeRunner_eq]
  refine hw.refit (joining w.runners.length) rfl rfl rfl rfl
    (fun {r a} ha => ?_) fun b' e => ?_
  · have hrunner :=
      (runner?_append
        (w.setBus b ((w.bus b).serveAll (joining w.runners.length)))
      (fresh (w.bus b) b dt) r).symm.trans ha
    split at hrunner
    · cases hrunner
      exact hb
    · exact hw.home hrunner
  · have hlt := hw.numbers hb
    rw [seats_append (w := w) (fresh (w.bus b) b dt) e rfl]
    show (((busAt
      (w.buses.set b ((w.bus b).serveAll (joining w.runners.length)))
        b').channel
      e).listeners.filter _) = _
    rw [busAt_set]
    by_cases hb' : b = b'
    · subst hb'
      rw [if_pos ⟨rfl, hlt⟩, listeners_joining (b := b) _ dt,
        List.filter_append, ← hw.seated]
      congr 1
      cases hseat : (fresh (w.bus b) b dt).seat? w.runners.length b e with
      | none => rfl
      | some x =>
          obtain ⟨-, c, -, rfl⟩ := Runner.seat?_eq_some_iff.1 hseat
          simp [isGuest_callback]
    · have hnone : (fresh (w.bus b) b dt).seat? w.runners.length b'
          e = none := by
        unfold Runner.seat?
        exact if_neg hb'
      rw [if_neg fun heq => hb' heq.1, hnone, Option.toList_none,
        List.append_nil, ← hw.seated]
      rfl

/-- Dropping a runner takes its two seats away and leaves all other listeners,
of every event and on every bus, in their order. -/
theorem listeners_dropRunner (hw : h.Orderly w) {r : Nat} {a : Runner}
    (ha : w.runner? r = some a) (b : Nat) (e : Event) :
    ((dropRunner r).left w).listeners b e =
      (w.listeners b e).filter fun x => a.seat? r b e ≠ some x := by
  have hleft : ((dropRunner r).left w).buses =
      w.buses.set a.bus ((w.bus a.bus).serveAll (leaving a)) := by
    unfold dropRunner
    rw [left_change, ha]
    rfl
  have hlt := hw.numbers (hw.home ha)
  show ((busAt ((dropRunner r).left w).buses b).channel e).listeners = _
  rw [hleft, busAt_set]
  by_cases hb : a.bus = b
  · subst hb
    rw [if_pos ⟨rfl, hlt⟩]
    have hgone : ∀ {c : Switch}, e.switch? = some c →
        (((w.bus a.bus).channel e).disconnect (a.connection c)).2.listeners =
          (w.listeners a.bus e).filter fun x => a.seat? r a.bus e ≠ some x := by
      intro c hc
      have hseat : a.seat? r a.bus e = some (a.connection c, c.callback r) :=
        Runner.seat?_eq_some_iff.2 ⟨rfl, c, hc, rfl⟩
      have hmem : (a.connection c, c.callback r) ∈ w.listeners a.bus e := by
        have hmem' := mem_seats_iff.2 ⟨r, a, ha, hseat⟩
        rw [← hw.seated] at hmem'
        exact (List.mem_filter.1 hmem').1
      have hsound : ((w.bus a.bus).channel e).Sound := hw.sound a.bus e
      rw [Channel.listeners_disconnect hsound]
      refine List.filter_congr fun x hx => ?_
      have hiff : x.1 ≠ a.connection c ↔ a.seat? r a.bus e ≠ some x := by
        rw [hseat]
        refine not_congr ⟨fun hid => ?_, fun heq => ?_⟩
        · exact congrArg some (Channel.eq_of_id_eq hsound hmem hx hid.symm)
        · exact (congrArg Prod.fst (Option.some.inj heq)).symm
      exact decide_eq_decide.2 hiff
    have hchannel : ((w.bus a.bus).serveAll (leaving a)).channel e =
        if e = .stop then
          ((((w.bus a.bus).disconnect ⟨.pause, a.pauseConnection⟩).2.channel
          e).disconnect a.stopConnection).2
        else ((w.bus a.bus).disconnect ⟨.pause, a.pauseConnection⟩).2.channel
            e :=
      Bus.channel_disconnect _ ⟨.stop, a.stopConnection⟩ e
    rw [hchannel, Bus.channel_disconnect]
    have hplain : e.switch? = none → ((w.bus a.bus).channel e).listeners =
        (w.listeners a.bus e).filter fun x => a.seat? r a.bus e ≠ some x := by
      intro hnone
      have hseat : a.seat? r a.bus e = none := by simp [Runner.seat?, hnone]
      simp [hseat, listeners, channelAt, World.bus, busAt]
    cases e with
    | pause => exact hgone rfl
    | stop => exact hgone rfl
    | _ => exact hplain rfl
  · have hseat : a.seat? r b e = none := by
      unfold Runner.seat?
      rw [if_neg hb]
    rw [if_neg fun heq => hb heq.1]
    simp [hseat, listeners, channelAt]

/-- A runner that is dropped leaves its seats. -/
theorem Orderly.dropRunner (hw : h.Orderly w) (r : Nat) :
    h.Orderly ((dropRunner r).left w) := by
  cases hr : w.runner? r with
  | none =>
      have hsame : (Linkage.dropRunner r).left w = w := by
        unfold Linkage.dropRunner
        rw [left_change, hr]
      rwa [hsame]
  | some a =>
      have hrunner : ∀ q, ((Linkage.dropRunner r).left w).runner? q =
          if q = r then none else w.runner? q := by
        intro q
        unfold Linkage.dropRunner
        rw [left_change, hr]
        exact runner?_setRunner_of hr none q
      have hleft : (Linkage.dropRunner r).left w =
          (w.setBus a.bus ((w.bus a.bus).serveAll (leaving a))).setRunner r
            none := by
        unfold Linkage.dropRunner
        rw [left_change, hr]
        rfl
      have hseats : ∀ b e, ((Linkage.dropRunner r).left w).seats b e =
          (w.seats b e).filter fun x => a.seat? r b e ≠ some x := by
        intro b e
        have hlength : ((Linkage.dropRunner r).left w).runners.length =
            w.runners.length := by
          rw [hleft]
          exact List.length_set
        unfold seats
        rw [hlength, List.filter_filterMap]
        refine List.filterMap_congr fun q _ => ?_
        rw [hrunner]
        by_cases hq : q = r
        · subst hq
          rw [if_pos rfl, hr]
          cases hseat : a.seat? q b e <;> simp [hseat, Option.filter]
        · rw [if_neg hq]
          cases hd : w.runner? q with
          | none => rfl
          | some d =>
              cases hseat : d.seat? q b e with
              | none => simp [hseat]
              | some x =>
                  have hother : a.seat? r b e ≠ some x := by
                    intro hsame
                    obtain ⟨-, c, hc, rfl⟩ := Runner.seat?_eq_some_iff.1 hseat
                    obtain ⟨-, c', hc', heq⟩ := Runner.seat?_eq_some_iff.1 hsame
                    cases hc.symm.trans hc'
                    exact hq (callback_injective (congrArg Prod.snd heq))
                  simp [hseat, hother, Option.filter]
      have hseated : ∀ b e,
          (((Linkage.dropRunner r).left w).listeners b e).filter
          (fun x => !x.2.isGuest) =
            ((Linkage.dropRunner r).left w).seats b e := by
        intro b e
        rw [listeners_dropRunner hw hr, hseats, ← hw.seated, List.filter_filter,
          List.filter_filter]
        exact List.filter_congr fun x _ => Bool.and_comm _ _
      refine hw.refit (b := a.bus) (leaving a) ?_ ?_ ?_ ?_
        (fun {q d} hd => ?_) hseated
      · rw [hleft]
        rfl
      · rw [hleft]
        rfl
      · rw [hleft]
        rfl
      · rw [hleft]
        rfl
      · rw [hrunner] at hd
        split at hd
        · cases hd
        · exact hw.home hd

/-! ## One request -/

/-- The request has manners and does not break off in a world. -/
def Permits (h : Hub) (w : World) (q : Request) : Prop :=
  h.isCivil q.operation = true ∧
  (Session.stepWorld w q).1.reply.isPanicked = false

instance (h : Hub) (w : World) (q : Request) : Decidable (h.Permits w q) :=
  inferInstanceAs (Decidable (_ ∧ _))

/-- The calls that a request owes on the hub's bus: a runner that is made
connects its switches, one that is dropped disconnects them, and all other calls
are those of guests. -/
def Owes (w : World) (b : Nat) (calls : List (BusCall Callback)) :
    Operation → Prop
  | .makeRunner .. => calls = joining w.runners.length
  | .dropRunner r => calls = (w.runner? r).toList.flatMap leaving
  | _ => GuestCalls (w.bus b) calls

/-- The operation makes a runner. -/
def Makes : Operation → Prop
  | .makeRunner .. => True
  | _ => False

/-- From the first world a request with manners leads to the second one: a
runner that is there then was there before and has heard what the request
announces, or it has just been made. -/
structure Advances (h : Hub) (w : World) (q : Request) (v : World) : Prop where
  orderly : h.Orderly v
  numbers : ∀ {n b : Nat}, w.busNumbers.get? n = some b →
    v.busNumbers.get? n = some b
  length : w.runners.length ≤ v.runners.length
  runners : ∀ {r a}, v.runner? r = some a →
    (∃ a', w.runner? r = some a' ∧
      a.driver = a'.driver.hearAll (h.signal? w q.operation).toList) ∨
      r = w.runners.length ∧ Makes q.operation ∧ a.paused = false ∧
      a.stopped = false
  calls : ∀ {b}, (∀ b', v.busNumbers.get? h.number = some b' → b' = b) →
    ∃ calls, Owes w b calls q.operation ∧ v.bus b = (w.bus b).serveAll calls

/-- What was logged and traced does not matter. -/
theorem advances_of_perform {ref : StoreRef} {operation : Operation}
    (ha : h.Advances w ⟨ref,
      operation⟩ ((Session.perform ref operation).left w)) :
    h.Advances w ⟨ref, operation⟩ (Session.stepWorld w ⟨ref, operation⟩).2 := by
  rw [Session.stepWorld_left]
  exact
    { orderly := ha.orderly.congr rfl rfl ha.orderly.scripts rfl rfl,
      numbers := ha.numbers,
      length := ha.length, runners := ha.runners, calls := ha.calls }

theorem advances_of_make (hw : h.Orderly w) {ref : StoreRef} {dt : Duration} :
    h.Advances w ⟨ref, .makeRunner (some h.number) dt none⟩
      ((Session.perform ref (.makeRunner (some h.number) dt none)).left w) := by
  obtain ⟨hbus, hnumber⟩ := busNumbered_visits hw h.number
  have hleft :
      (Session.perform ref (.makeRunner (some h.number) dt none)).left w =
      (makeRunner (w.busNumbered h.number).1 dt).left
        (w.busNumbered h.number).2 := rfl
  have hlength := length_of_fittings (fittings_of_drivers hbus.drivers)
  have hmade := hbus.orderly.makeRunner hnumber dt
  rw [hleft]
  refine { orderly := hmade, numbers := hbus.numbers, length := ?_,
           runners := fun {r a} ha => ?_,
           calls := fun {b} hb => ⟨_, rfl, ?_⟩ }
  · rw [makeRunner_eq]
    show _ ≤ ((w.busNumbered h.number).2.runners ++ [some _]).length
    rw [List.length_append, hlength]
    exact Nat.le_succ _
  · rw [makeRunner_eq] at ha
    have hrunner := (runner?_append _ _ r).symm.trans ha
    split at hrunner
    · next hr =>
      cases hrunner
      exact .inr ⟨hr.trans hlength, trivial, rfl, rfl⟩
    · obtain ⟨a', ha', heq⟩ := Option.map_eq_some_iff.1
        ((map_driver_of_drivers hbus.drivers r).symm.trans (congrArg _ hrunner))
      exact .inl ⟨a', ha', heq.symm⟩
  · obtain rfl : (w.busNumbered h.number).1 = b := hb _ hnumber
    have hlt := hbus.orderly.numbers hnumber
    have hsame : (w.busNumbered h.number).2.bus (w.busNumbered h.number).1 =
        w.bus (w.busNumbered h.number).1 := by
      unfold busNumbered
      cases w.busNumbers.get? h.number with
      | some b => rfl
      | none => exact busAt_openBus w.buses _
    rw [makeRunner_eq]
    show busAt
      ((w.busNumbered h.number).2.buses.set (w.busNumbered h.number).1 _) _ = _
    rw [busAt_set, if_pos ⟨rfl, hlt⟩, hsame, hlength]

theorem left_performDrop (ref : StoreRef) (r : Nat) (w : World) :
    (Session.perform ref (.dropRunner r)).left w = (dropRunner r).left w := by
  show (dropRunner r >>= fun done => pure (Reply.flag done)).left w = _
  rw [left_bind]
  unfold left
  cases (dropRunner r).run w <;> rfl

theorem advances_of_drop (hw : h.Orderly w) {ref : StoreRef} {r : Nat} :
    h.Advances w ⟨ref, .dropRunner r⟩
      ((Session.perform ref (.dropRunner r)).left w) := by
  rw [left_performDrop]
  cases hr : w.runner? r with
  | none =>
      have hsame : (dropRunner r).left w = w := by
        unfold dropRunner
        rw [left_change, hr]
      rw [hsame]
      exact
        { orderly := hw, numbers := id, length := Nat.le_refl _,
          runners := fun {q a} ha => .inl ⟨a, ha, rfl⟩,
          calls := fun {b} _ => ⟨[], by simp [Owes, hr], rfl⟩ }
  | some a =>
      have hstep : (dropRunner r).left w =
          (w.setBus a.bus ((w.bus a.bus).serveAll (leaving a))).setRunner r
            none := by
        unfold dropRunner
        rw [left_change, hr]
        rfl
      refine { orderly := hw.dropRunner r, numbers := ?_, length := ?_,
               runners := fun {q d} hd => ?_,
               calls := fun {b} hb => ⟨leaving a, ?_, ?_⟩ }
      · rw [hstep]
        exact id
      · rw [hstep]
        exact Nat.le_of_eq List.length_set.symm
      · rw [hstep] at hd
        have hrunner := (runner?_setRunner_of hr none q).symm.trans hd
        split at hrunner
        · cases hrunner
        · exact .inl ⟨d, hrunner, rfl⟩
      · simp [Owes, hr]
      · have hhome := hw.home hr
        obtain rfl : a.bus = b := hb _ (by rw [hstep]; exact hhome)
        rw [hstep]
        show busAt (w.buses.set a.bus _) a.bus = _
        rw [busAt_set, if_pos ⟨rfl, hw.numbers hhome⟩]

/-- A request with manners that does not break off keeps the hub in order. -/
theorem advances_of_request (hw : h.Orderly w) {q : Request}
    (hq : h.Permits w q) :
    h.Advances w q (Session.stepWorld w q).2 := by
  obtain ⟨ref, operation⟩ := q
  obtain ⟨hcivil, hreturns⟩ := hq
  refine advances_of_perform ?_
  have hrun : ∃ reply v,
      (Session.perform ref operation).run w = .ok reply v := by
    cases hrun : (Session.perform ref operation).run w with
    | ok reply v => exact ⟨reply, v, rfl⟩
    | error cause v =>
        have hpanicked : (Session.stepWorld w ⟨ref, operation⟩).1.reply =
            .panicked cause.text := by
          unfold Session.stepWorld
          rw [hrun]
        rw [hpanicked] at hreturns
        cases hreturns
  obtain ⟨reply, v, hrun⟩ := hrun
  by_cases hmake : ∃ bus dt own, operation = .makeRunner bus dt own
  · obtain ⟨bus, dt, own, rfl⟩ := hmake
    have hmanners : bus = some h.number ∧ own = none := by
      have hboth : (bus == some h.number && own.isNone) = true := hcivil
      simpa using hboth
    obtain ⟨rfl, rfl⟩ := hmanners
    exact advances_of_make hw
  by_cases hdrop : ∃ r, operation = .dropRunner r
  · obtain ⟨r, rfl⟩ := hdrop
    exact advances_of_drop hw
  have hfollows :=
    follows_of_perform hw hcivil
      (fun bus dt own heq => hmake ⟨bus, dt, own, heq⟩)
    (fun r heq => hdrop ⟨r, heq⟩) hrun
  rw [left_of_ok hrun]
  refine { orderly := hfollows.orderly, numbers := hfollows.numbers,
           length := Nat.le_of_eq hfollows.length.symm,
           runners := fun {r a} ha => .inl ?_,
           calls := fun {b} _ => ?_ }
  · have hdriver := hfollows.drivers r
    rw [ha] at hdriver
    obtain ⟨d, hd, heq⟩ := Option.map_eq_some_iff.1 hdriver.symm
    obtain ⟨a', ha', rfl⟩ := Option.map_eq_some_iff.1 hd
    exact ⟨a', ha', heq.symm⟩
  · obtain ⟨calls, hguests, hbus⟩ := hfollows.calls b
    refine ⟨calls, ?_, hbus⟩
    cases operation with
    | makeRunner bus dt own => exact absurd ⟨bus, dt, own, rfl⟩ hmake
    | dropRunner r => exact absurd ⟨r, rfl⟩ hdrop
    | _ => exact hguests

/-! ## Sessions -/

open Session

/-- The pauses and stops that requests announce on the hub's bus. -/
def announced (h : Hub) : World → List Request → List Signal
  | _, [] => []
  | w, q :: rest =>
      (h.signal? w q.operation).toList ++ announced h (stepWorld w q).2 rest

theorem after_append (w : World) (requests later : List Request) :
    after w (requests ++ later) = after (after w requests) later :=
  List.foldl_append

theorem heeds_append {P : World → Request → Prop} {w : World}
    {requests later : List Request} (hall : Heeds P w (requests ++ later)) :
    Heeds P w requests ∧ Heeds P (after w requests) later := by
  induction requests generalizing w with
  | nil => exact ⟨trivial, hall⟩
  | cons q rest ih =>
      obtain ⟨hrest, hlater⟩ := ih hall.2
      exact ⟨⟨hall.1, hrest⟩, hlater⟩

section After

variable {requests : List Request} {r : Nat} {a : Runner}

/-- Requests with manners keep the hub in order. -/
theorem Orderly.after (hw : h.Orderly w) (hq : Heeds h.Permits w requests) :
    h.Orderly (after w requests) := by
  induction requests generalizing w with
  | nil => exact hw
  | cons q rest ih => exact ih (advances_of_request hw hq.1).orderly hq.2

theorem numbers_after (hw : h.Orderly w)
    (hq : Heeds h.Permits w requests) {n b : Nat}
    (hget : w.busNumbers.get? n = some b) :
    (after w requests).busNumbers.get? n = some b := by
  induction requests generalizing w with
  | nil => exact hget
  | cons q rest ih =>
      have hadvances := advances_of_request hw hq.1
      exact ih hadvances.orderly hq.2 (hadvances.numbers hget)

/-- A runner that was there has heard all that was announced since. -/
theorem hears_after (hw : h.Orderly w) (hq : Heeds h.Permits w requests)
    (hr : r < w.runners.length) (ha : (after w requests).runner? r = some a) :
    ∃ a', w.runner? r = some a' ∧
      a.driver = a'.driver.hearAll (h.announced w requests) := by
  induction requests generalizing w with
  | nil => exact ⟨a, ha, rfl⟩
  | cons q rest ih =>
      have hadvances := advances_of_request hw hq.1
      obtain ⟨d, hd, hdriver⟩ :=
        ih hadvances.orderly hq.2 (Nat.lt_of_lt_of_le hr hadvances.length) ha
      rcases hadvances.runners hd with ⟨a', ha', hdriver'⟩ | ⟨hlast, -, -, -⟩
      · refine ⟨a', ha', ?_⟩
        rw [hdriver, hdriver', announced]
        exact (List.foldl_append ..).symm
      · omega

/-- What the switches of a runner say: it was made by a request, and they follow
what was announced since. -/
def Tallies (h : Hub) (w : World) (requests : List Request) (r : Nat)
    (a : Runner) : Prop :=
  ∃ before q later, requests = before ++ q :: later ∧ Makes q.operation ∧
    (Session.after w before).runners.length = r ∧
    a.paused = (((h.announced (Session.after w (before ++ [q])) later).filterMap
      Signal.pause?).getLast?).getD false ∧
    a.stopped = (h.announced (Session.after w (before ++ [q])) later).any
      Signal.isStop

/-- A runner that was not there was made, and its switches follow what was
announced since. -/
theorem tallies_after (hw : h.Orderly w) (hq : Heeds h.Permits w requests)
    (hr : w.runners.length ≤ r) (ha : (after w requests).runner? r = some a) :
    h.Tallies w requests r a := by
  induction requests generalizing w with
  | nil => exact absurd (lt_of_runner? ha) (Nat.not_lt.2 hr)
  | cons q rest ih =>
      have hadvances := advances_of_request hw hq.1
      rcases Nat.lt_or_ge r (stepWorld w q).2.runners.length with hlt | hge
      · obtain ⟨d, hd, hdriver⟩ := hears_after hadvances.orderly hq.2 hlt ha
        rcases hadvances.runners hd with
          ⟨a', ha', -⟩ | ⟨rfl, hmakes, hpaused, hstopped⟩
        · exact absurd (lt_of_runner? ha') (Nat.not_lt.2 hr)
        · refine ⟨[], q, rest, rfl, hmakes, rfl, ?_, ?_⟩
          · show a.driver.paused = _
            rw [hdriver, Runner.paused_hearAll,
              show d.driver.paused = d.paused from rfl, hpaused]
            rfl
          · show a.driver.stopped = _
            rw [hdriver, Runner.stopped_hearAll,
              show d.driver.stopped = d.stopped from rfl, hstopped]
            rfl
      · obtain ⟨before, q', later, rfl, hmakes, hlength, hpaused, hstopped⟩ :=
          ih hadvances.orderly hq.2 hge ha
        exact ⟨q :: before, q', later, rfl, hmakes, hlength, hpaused, hstopped⟩

end After

/-- Nothing was made yet. -/
theorem orderly_empty (h : Hub) : h.Orderly {} :=
  { sound := fun b e => by
      rw [channelAt_of_length_le (Nat.zero_le b)]
      exact Channel.sound_empty
    numbers := fun hget => by cases hget
    apart := fun hget => by cases hget
    home := fun ha => by cases ha
    seated := fun b e => by
      rw [World.listeners, channelAt_of_length_le (Nat.zero_le b)]
      rfl
    scripts := fun p hp => by cases hp
    handles := fun label _ c hget => by cases hget }

/-- What was called on the hub's bus, request by request, and who is there
now. -/
structure Accounts (h : Hub) (requests : List Request) (b : Nat)
    (ledger : Nat → List (BusCall Callback)) : Prop where
  owes : ∀ {before q later}, requests = before ++ q :: later →
    Owes (after {} before) b (ledger before.length) q.operation
  stays : ∀ {done}, done <+: requests →
    ∀ e x, x ∈ (after {} done).listeners b e ↔
    Bus.Stays ((List.range done.length).flatMap ledger) e x

/-- Every request has its account. -/
theorem exists_accounts {requests : List Request}
    (hq : Heeds h.Permits {} requests)
    (hb : (after {} requests).busNumbers.get? h.number = some b) :
    ∃ ledger, h.Accounts requests b ledger := by
  have hone : ∀ k, ∃ calls, ∀ q, requests[k]? = some q →
      Owes (after {} (requests.take k)) b calls q.operation ∧
        (after {} (requests.take (k + 1))).bus b =
          ((after {} (requests.take k)).bus b).serveAll calls := by
    intro k
    cases hk : requests[k]? with
    | none => exact ⟨[], fun q hq => by cases hq⟩
    | some q =>
        have hsplit : requests = requests.take (k + 1) ++
            requests.drop (k + 1) :=
          (List.take_append_drop _ _).symm
        have htake : requests.take (k + 1) = requests.take k ++ [q] := by
          rw [List.take_add_one, hk]
          rfl
        rw [hsplit] at hq hb
        obtain ⟨hbefore, hafter⟩ := heeds_append hq
        rw [htake] at hbefore
        obtain ⟨hbefore, hlast⟩ := heeds_append hbefore
        have hw := (orderly_empty h).after hbefore
        have hadvances := advances_of_request hw hlast.1
        have hnext : after {} (requests.take (k + 1)) =
            (stepWorld (after {} (requests.take k)) q).2 := by
          rw [htake, after_append]
          rfl
        obtain ⟨calls, howes, hbus⟩ := hadvances.calls (b := b) fun b' hb' => by
          rw [after_append] at hb
          have hkept := numbers_after (hnext ▸ hadvances.orderly)
            hafter (hnext ▸ hb')
          exact Option.some.inj (hkept.symm.trans hb)
        refine ⟨calls, fun q' hq' => ?_⟩
        cases hq'
        exact ⟨howes, hnext ▸ hbus⟩
  choose ledger hledger using hone
  have hrun : ∀ k ≤ requests.length, (after {} (requests.take k)).bus b =
      Bus.ran ((List.range k).flatMap ledger) := by
    intro k
    induction k with
    | zero => exact fun _ => rfl
    | succ k ih =>
        intro hk
        have hq : requests[k]? = some requests[k] := List.getElem?_eq_getElem hk
        rw [(hledger k _ hq).2, ih (Nat.le_of_succ_le hk), List.range_succ,
          List.flatMap_append, Bus.ran_append]
        simp
  refine ⟨ledger, { owes := fun {before q later} hsplit => ?_, stays := ?_ }⟩
  · have hq : requests[before.length]? = some q := by simp [hsplit]
    have htake : requests.take before.length = before := by simp [hsplit]
    have howes := (hledger before.length q hq).1
    rwa [htake] at howes
  · intro done hdone e x
    have hbus := hrun done.length hdone.length_le
    rw [← List.prefix_iff_eq_take.1 hdone] at hbus
    show x ∈ (((after {} done).bus b).channel e).listeners ↔ _
    rw [hbus]
    exact Bus.mem_listeners_ran_iff _ e x

/-- On the hub's bus a switch event has a listener for each runner and the
guests. -/
theorem Orderly.count (hw : h.Orderly w)
    (hb : w.busNumbers.get? h.number = some b) (c : Switch) :
    (w.bus b).listenerCount c.event =
      w.runners.countP Option.isSome + (w.listeners b c.event).countP fun x =>
        x.2.isGuest := by
  have hswitch : c.event.switch? = some c := by cases c <;> rfl
  have hseats : (w.seats b c.event).length =
      w.runners.countP Option.isSome := by
    have hrunners : w.runners =
        (List.range w.runners.length).map w.runner? := by
      refine List.ext_getElem (by simp) fun i hi _ => ?_
      simp [runner?, hi]
    have hcount := congrArg (List.countP Option.isSome) hrunners
    rw [seats, List.length_filterMap_eq_countP, hcount, List.countP_map]
    refine List.countP_congr fun r _ => ?_
    show ((w.runner? r).bind _).isSome = true ↔ (w.runner? r).isSome = true
    cases hr : w.runner? r with
    | none => exact Iff.rfl
    | some a =>
        have hbus : a.bus = b := Option.some.inj ((hw.home hr).symm.trans hb)
        simp [Runner.seat?, hbus, hswitch]
  have hlength : (w.bus b).listenerCount c.event =
      (w.listeners b c.event).length := rfl
  have hothers : (w.listeners b c.event).countP
      (fun x => decide ¬ x.2.isGuest = true) =
      ((w.listeners b c.event).filter fun x => !x.2.isGuest).length := by
    rw [List.countP_eq_length_filter]
    exact congrArg List.length (List.filter_congr fun x _ => by simp)
  rw [hlength, List.length_eq_countP_add_countP fun x => x.2.isGuest,
    Nat.add_comm, hothers, hw.seated, hseats]

/-- Runners share a bus in a session: at all times the listeners that are not
guests are the seats of the runners that are there, in the order in which they
were made, so that each has one for each of its switches; what its switches say
follows from what was announced since it was made; dropping it takes its two
seats away and no other listener; and only guests disconnect guests. -/
structure Shares (h : Hub) (requests : List Request) : Prop where
  seats : ∀ {done}, done <+: requests → ∀ b e,
    ((after {} done).listeners b e).filter (fun x => !x.2.isGuest) =
      (after {} done).seats b e
  count : ∀ {done b}, done <+: requests →
    (after {} done).busNumbers.get? h.number = some b →
    ∀ c : Switch, ((after {} done).bus b).listenerCount c.event =
      (after {} done).runners.countP Option.isSome +
        ((after {} done).listeners b c.event).countP fun x => x.2.isGuest
  switches : ∀ {done r a}, done <+: requests →
    (after {} done).runner? r = some a →
    (after {} done).busNumbers.get? h.number = some a.bus ∧
    h.Tallies {} done r a
  drops : ∀ {before ref r later a},
    requests = before ++ ⟨ref, .dropRunner r⟩ :: later →
    (after {} before).runner? r = some a →
      (∀ c : Switch, (a.connection c, c.callback r) ∈
        (after {} before).listeners a.bus c.event) ∧
      ∀ b e, (after {} (before ++ [⟨ref, .dropRunner r⟩])).listeners b e =
        ((after {} before).listeners b e).filter fun x => a.seat? r b e ≠ some x
  accounts : ∀ {b}, (after {} requests).busNumbers.get? h.number = some b →
    ∃ ledger, h.Accounts requests b ledger

/-- Runners that share a bus, as long as the requests and the guests have
manners and nothing breaks off. -/
theorem shares_of_permits (h : Hub) {requests : List Request}
    (hq : Heeds h.Permits {} requests) : h.Shares requests := by
  have horderly : ∀ {done}, done <+: requests → h.Orderly (after {} done) := by
    rintro done ⟨later, rfl⟩
    exact (orderly_empty h).after (heeds_append hq).1
  refine { seats := fun hdone => (horderly hdone).seated,
           count := fun hdone hb c => (horderly hdone).count hb c,
           switches := fun {done r a} hdone ha =>
             ⟨(horderly hdone).home ha, ?_⟩,
           drops := fun {before ref r later a} hsplit ha =>
             ⟨fun c => ?_, fun b e => ?_⟩,
           accounts := exists_accounts hq }
  · obtain ⟨later, rfl⟩ := hdone
    exact tallies_after (orderly_empty h) (heeds_append hq).1 (Nat.zero_le r) ha
  · have hw : h.Orderly (after {} before) := horderly ⟨_, hsplit.symm⟩
    have hseat : (a.connection c, c.callback r) ∈
        (after {} before).seats a.bus c.event := by
      have hswitch : c.event.switch? = some c := by cases c <;> rfl
      exact mem_seats_iff.2 ⟨r, a, ha,
        Runner.seat?_eq_some_iff.2 ⟨rfl, c, hswitch, rfl⟩⟩
    rw [← hw.seated] at hseat
    exact (List.mem_filter.1 hseat).1
  · have hw : h.Orderly (after {} before) := horderly ⟨_, hsplit.symm⟩
    rw [after_append]
    show ((stepWorld (after {} before) ⟨ref, .dropRunner r⟩).2).listeners
      b e = _
    rw [stepWorld_left, left_performDrop]
    exact listeners_dropRunner hw ha b e

/-- A guest that is called with a pause connects another one for stops and
disconnects itself. The runner that announced the pause is dropped before a stop
is announced, so only the second one hears of it; the third one is made later
and hears only that it goes on. -/
theorem shares_of_dropped_runner :
    let h : Hub := ⟨0, ["early", "late"]⟩
    let early : Action := .connect 0 .pause "early"
      [.connect 0 .stop "late" [] 0, .disconnect 0 "early"] 1
    let requests : List Request :=
      [⟨.runner 0, .makeRunner (some 0) defaultStep none⟩,
      ⟨.runner 0, .act early⟩,
      ⟨.runner 0, .makeRunner (some 0) defaultStep none⟩,
      ⟨.runner 0, .pause 0 true⟩, ⟨.runner 0, .dropRunner 0⟩,
      ⟨.runner 0, .act (.emit 0 .stop)⟩,
      ⟨.runner 0, .makeRunner (some 0) defaultStep none⟩,
      ⟨.runner 0, .act (.emit 0 (.pause false))⟩]
    Heeds h.Permits {} requests ∧ h.Shares requests ∧
      ((after {} requests).runner? 1).map (fun a => (a.paused, a.stopped)) =
        some (false, true) ∧
      ((after {} requests).runner? 2).map (fun a => (a.paused, a.stopped)) =
        some (false, false) ∧
      ((after {} requests).listeners 0 .stop).map Prod.snd =
        [.stopSwitch 1, .player 1, .stopSwitch 2] := by
  exact ⟨by decide +kernel, shares_of_permits _ (by decide +kernel),
    by decide +kernel, by decide +kernel, by decide +kernel⟩

end Hub

end Linkage
