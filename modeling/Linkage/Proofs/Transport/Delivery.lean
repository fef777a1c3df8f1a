import Linkage.Proofs.Joint.Routing
import Linkage.Proofs.Transport.Calls

/-!
# What a transport delivers

The account of an action tells the calls that are made on a transport while it
is performed, those that listeners and subscribers make in their turns included.
It follows the way in which actions are performed, script by script and turn by
turn. That it misses nothing shows in what is left: the transport holds what the
account says was subscribed, and the history tells those who were called in the
order of the account.

A course is a sequence of actions, performed one after the other by anybody and
at any depth, between which joints may subscribe and anything may happen that
leaves the transport alone. Over a course that begins with an empty transport
all calls are lawful.

## Main results

* `accounted_perform`: the account of an action is lawful, and misses nothing.
* `Course.recounts`: the same for a course.
* `delivers_of_course`: what a transport delivers over a course, and what single
  calls come to.
-/

namespace Linkage

open Act

/-- Who was handed a message on a transport in an occurrence, with the name that
the message was published under. -/
def Occurrence.handed? (n : Nat) : Occurrence → Option (String × Callback)
  | .handed t name k => if t = n then some (name, k) else none
  | .asked _ => none

/-- Who was handed messages on a transport, the latest first. -/
def World.handedOn (w : World) (n : Nat) : List (String × Callback) :=
  w.history.filterMap (·.handed? n)

/-! ## Accounts -/

section Accounts

variable (performer : Performer) (account : Action → World → List TransportCall)

/-- The calls made by actions that are performed one after the other. -/
def scriptCalls (label : String) :
    Nat → List Action → World → List TransportCall
  | _, [], _ => []
  | index, a :: rest, w =>
      account a w ++ scriptCalls label (index + 1) rest
        ((performer none a >>= fun reply =>
          record (.acted label index reply)).left w)

/-- The calls made in the turn of a callback. -/
def turnCalls (what : Delivery) (k : Callback) (w : World) :
    List TransportCall :=
  match k with
  | .player id =>
      match w.players[id]? with
      | none => []
      | some p =>
          match p.remaining with
          | 0 => []
          | m + 1 =>
              scriptCalls performer account p.label 0 (p.response m what)
                (w.begun id p what m)
  | _ => []

/-- The turns of listeners whose flags are still up at their turn. -/
def listenerTurns (b : Nat) (s : Signal) :
    List (Nat × Callback) → World → List (Callback × List TransportCall)
  | [], _ => []
  | x :: rest, w =>
      if (w.bus b).flag ⟨s.event, x.1⟩ then
        (x.2, turnCalls performer account (.signal s) x.2 w) ::
          listenerTurns b s rest ((call performer x.2 (.signal s)).left w)
      else listenerTurns b s rest w

/-- The turns of subscribers that are handed a message. -/
def subscriberTurns (t : Nat) (name : String) (bytes : List UInt8) :
    List Callback → World → List (Callback × List TransportCall)
  | [], _ => []
  | k :: rest, w =>
      (k, turnCalls performer account (.message bytes) k
        (w.note (.handed t name k))) ::
        subscriberTurns t name bytes rest
          ((hand performer t name bytes k).left w)

/-- The turns of the callbacks that an action calls. -/
def actionTurns (a : Action) (w : World) :
    List (Callback × List TransportCall) :=
  match a with
  | .emit bus payload =>
      match payload.signal? (w.busNumbered bus).2.names with
      | none => []
      | some s => listenerTurns performer account (w.busNumbered bus).1 s
          ((w.busNumbered bus).2.listeners (w.busNumbered bus).1 s.event)
            (w.busNumbered bus).2
  | .publish t name bytes => subscriberTurns performer account t name bytes
      (((w.transport t).receivers name).toOption.getD []) w
  | _ => []

/-- What an action asks of a transport. -/
def Action.ask? (n : Nat) (w : World) : Action → Option TransportAsk
  | .subscribe (.numbered t) topic _ _ _ =>
      if t = n then some (.subscribe topic (.player w.players.length)) else none
  | .publish t name bytes => if t = n then some (.publish name bytes) else none
  | .subscribers t topic => if t = n then some (.subscribers topic) else none
  | .topics t => if t = n then some .topics else none
  | _ => none

/-- The calls made on a transport by an action: its own with the turns in it, or
those of the turns alone. -/
def actionCalls (n : Nat) (a : Action) (w : World) : List TransportCall :=
  match a.ask? n w with
  | some ask => [⟨w.transport n, ask, actionTurns performer account a w,
      EStateM.run' (performWith performer none a) w⟩]
  | none => (actionTurns performer account a w).flatMap Prod.snd

end Accounts

/-- The account of an action that is performed with a bounded depth of
nesting. -/
def callsOf (n : Nat) : Nat → Action → World → List TransportCall
  | 0, _, _ => []
  | depth + 1, a, w => actionCalls (perform depth) (callsOf n depth) n a w

/-! ## What an account says of two worlds -/

/-- The second world has the transport of the first and has handed nothing to
its subscribers. -/
structure World.Still (n : Nat) (w w' : World) : Prop where
  transport : w'.transport n = w.transport n
  handed : w'.handedOn n = w.handedOn n

/-- What some calls say of the worlds before and after them, where subscriptions
were made before: they are lawful, the transport holds what was subscribed in
them too, and those were handed messages who were called in them. -/
structure Recounts (n : Nat) (earlier : List (String × Callback))
    (calls : List TransportCall) (w w' : World) : Prop where
  lawful : CallsLawful calls earlier
  holds : (w'.transport n).Holds (earlier ++ madeIn calls)
  handed : w'.handedOn n = (handedIn calls).reverse ++ w.handedOn n

/-- What some turns say of the worlds before and after them, where each is told
in the history in some way. -/
structure Turned (n : Nat) (each : Callback → List (String × Callback))
    (earlier : List (String × Callback))
    (turns : List (Callback × List TransportCall)) (w w' : World) : Prop where
  lawful : TurnsLawful turns earlier
  holds : (w'.transport n).Holds (earlier ++ madeInTurns turns)
  handed : w'.handedOn n =
    (gatherTurns (fun _ _ => []) TransportAsk.handed each turns).reverse ++
      w.handedOn n

/-- Wherever a call returns, its account is right. -/
def Accounted {α : Type} (n : Nat) (m : Act α)
    (account : World → List TransportCall) : Prop :=
  ∀ ⦃earlier : List (String × Callback)⦄ ⦃w w' : World⦄ ⦃a : α⦄,
    (w.transport n).Holds earlier → m.run w = .ok a w' →
    Recounts n earlier (account w) w w'

section Recounting

variable {n : Nat} {earlier : List (String × Callback)}
  {calls later : List TransportCall}
  {turns : List (Callback × List TransportCall)}
  {each : Callback → List (String × Callback)} {w v w' : World}

namespace World

theorem still_chained (n : Nat) : Chained (Still n) :=
  { refl := fun _ => { transport := rfl, handed := rfl }
    trans := fun h h' =>
      { transport := h'.transport.trans h.transport,
        handed := h'.handed.trans h.handed } }

theorem Still.of_same (ht : w'.transports = w.transports)
    (hh : w'.history = w.history) :
    w.Still n w' :=
  { transport := transport_congr ht n,
    handed := congrArg (List.filterMap _) hh }

theorem Still.holds (h : w.Still n w') (hw : (w.transport n).Holds earlier) :
    (w'.transport n).Holds earlier := h.transport ▸ hw

end World

theorem Recounts.of_still (hw : (w.transport n).Holds earlier)
    (h : w.Still n w') :
    Recounts n earlier [] w w' :=
  { lawful := trivial
    holds := by
      rw [h.transport]
      exact (List.append_nil earlier).symm ▸ hw
    handed := h.handed }

theorem Recounts.trans (h : Recounts n earlier calls w v)
    (h' : Recounts n (earlier ++ madeIn calls) later v w') :
    Recounts n earlier (calls ++ later) w w' :=
  { lawful := callsLawful_append_iff.2 ⟨h.lawful, h'.lawful⟩
    holds := by
      rw [madeIn_append, ← List.append_assoc]
      exact h'.holds
    handed := by
      rw [h'.handed, h.handed, handedIn_append, List.reverse_append,
        List.append_assoc] }

/-- Nothing that leaves the transport alone has to be accounted for. -/
theorem Recounts.after_still (hw : w.Still n v)
    (h : Recounts n earlier calls v w') :
    Recounts n earlier calls w w' :=
  { lawful := h.lawful, holds := h.holds,
    handed := h.handed.trans (congrArg _ hw.handed) }

theorem Recounts.before_still (h : Recounts n earlier calls w v)
    (hv : v.Still n w') :
    Recounts n earlier calls w w' :=
  { lawful := h.lawful, holds := hv.transport ▸ h.holds,
    handed := hv.handed.trans h.handed }

theorem Turned.nil (hw : (w.transport n).Holds earlier) :
    Turned n each earlier [] w w :=
  { lawful := trivial
    holds := (List.append_nil earlier).symm ▸ hw
    handed := rfl }

/-- One more turn, which begins when it has been told. -/
theorem Turned.cons {k : Callback} {u : World}
    (hh : v.handedOn n = (each k).reverse ++ w.handedOn n)
    (hcalls : Recounts n earlier calls v u)
    (hrest : Turned n each (earlier ++ madeIn calls) turns u w') :
    Turned n each earlier ((k, calls) :: turns) w w' :=
  { lawful := ⟨hcalls.lawful, hrest.lawful⟩
    holds := by
      have hmade : madeInTurns ((k, calls) :: turns) = madeIn calls ++
          madeInTurns turns := rfl
      rw [hmade, ← List.append_assoc]
      exact hrest.holds
    handed := by
      rw [hrest.handed, hcalls.handed, hh, gatherTurns, List.reverse_append,
        List.reverse_append]
      simp only [handedIn, List.append_assoc] }

/-- Turns that are told in no way are accounted for by the calls in them. -/
theorem Turned.recounts (h : Turned n (fun _ => []) earlier turns w w') :
    Recounts n earlier (turns.flatMap Prod.snd) w w' :=
  { lawful := callsLawful_flatMap_iff.2 h.lawful
    holds := by
      rw [madeIn_flatMap]
      exact h.holds
    handed := by
      rw [handedIn, gatherAll_flatMap]
      exact h.handed }

/-- A call that nobody is called in. -/
theorem Recounts.single {ask : TransportAsk} {reply : Option Reply}
    (hw : (w.transport n).Holds earlier) (howes : ask.Owes earlier [] reply)
    (hafter : (w'.transport n).Holds (earlier ++ ask.made reply))
    (hh : w'.handedOn n = w.handedOn n) :
    Recounts n earlier [⟨w.transport n, ask, [], reply⟩] w w' :=
  { lawful := ⟨⟨hw, howes, trivial⟩, trivial⟩
    holds := by
      have hmade : madeIn [⟨w.transport n, ask, [], reply⟩] =
          ask.made reply := by
        simp [madeIn, gatherAll, TransportCall.gather, gatherTurns]
      exact hmade ▸ hafter
    handed := hh }

/-- A publication with the turns in it. -/
theorem Recounts.publish {name : String} {bytes : List UInt8}
    {reply : Option Reply} (hw : (w.transport n).Holds earlier)
    (howes :
      (TransportAsk.publish name bytes).Owes earlier (turns.map Prod.fst) reply)
    (h : Turned n (fun k => [(name, k)]) earlier turns w w') :
    Recounts n earlier [⟨w.transport n, .publish name bytes, turns,
      reply⟩] w w' :=
  { lawful := ⟨⟨hw, howes, h.lawful⟩, trivial⟩
    holds := by
      have hmade : madeIn [⟨w.transport n, .publish name bytes, turns, reply⟩] =
          madeInTurns turns := List.append_nil _
      exact hmade ▸ h.holds
    handed := by
      have hhanded : handedIn
          [⟨w.transport n, .publish name bytes, turns, reply⟩] =
          gatherTurns (fun _ _ => []) TransportAsk.handed
            (fun k => [(name, k)]) turns :=
        List.append_nil _
      exact hhanded ▸ h.handed }

theorem Accounted.of_keeps {α : Type} {m : Act α}
    (h : Keeps (World.Still n) m) :
    Accounted n m fun _ => [] :=
  fun _ _ _ _ hw hrun => .of_still hw (h.of_ok hrun)

end Recounting

/-! ## Callbacks -/

namespace World

theorem still_switchPause (n : Nat) (w : World) (r : Nat) (paused : Bool) :
    w.Still n (w.switchPause r paused) := by
  unfold switchPause
  cases w.runner? r with
  | none => exact (still_chained n).refl w
  | some runner =>
      show w.Still n (if runner.paused = paused then _ else _)
      split <;> exact .of_same rfl rfl

theorem still_switchStop (n : Nat) (w : World) (r : Nat) :
    w.Still n (w.switchStop r) := by
  unfold switchStop
  cases w.runner? r with
  | none => exact (still_chained n).refl w
  | some runner =>
      show w.Still n (if runner.stopped = true then _ else _)
      split <;> exact .of_same rfl rfl

theorem still_busNumbered (n : Nat) (w : World) (number : Nat) :
    w.Still n (w.busNumbered number).2 := by
  unfold busNumbered
  split <;> exact .of_same rfl rfl

end World

open World

section Callbacks

variable {performer : Performer} {account : Action → World → List TransportCall}
  {n : Nat} (hp : ∀ a, Accounted n (performer none a) (account a))
include hp

theorem accounted_playScript (label : String) :
    ∀ (index : Nat) (script : List Action),
    Accounted n (playScript performer label index script)
      (scriptCalls performer account label index script)
  | _, [] => .of_keeps (Keeps.pure (still_chained n) ())
  | index, a :: rest => by
      intro earlier w w' _ hw hrun
      have hcons : (performer none a >>= fun reply =>
          record (.acted label index reply) >>=
          fun _ => playScript performer label (index + 1) rest).run w =
            .ok () w' := hrun
      obtain ⟨reply, v, hfirst, hrun⟩ := run_bind_eq_ok_iff.1 hcons
      have hrest : (playScript performer label (index + 1) rest).run
          (v.record (.acted label index reply)) = .ok () w' := hrun
      have hleft : (performer none a >>= fun reply =>
          record (.acted label index reply)).left w =
          v.record (.acted label index reply) :=
        left_of_ok ((run_bind_of_ok hfirst _).trans rfl)
      have hbefore := hp a hw hfirst
      have hrecord : v.Still n (v.record (.acted label index reply)) :=
        .of_same rfl rfl
      rw [scriptCalls, hleft]
      exact hbefore.trans (.after_still hrecord
        (accounted_playScript label (index + 1) rest
          (hrecord.holds hbefore.holds) hrest))

theorem accounted_play (id : Nat) (what : Delivery) :
    Accounted n (play performer id what)
      (turnCalls performer account what (.player id)) := by
  intro earlier w w' _ hw hrun
  unfold play at hrun
  rw [run_get_bind] at hrun
  cases hplayer : w.players[id]? with
  | none =>
      rw [hplayer] at hrun
      cases hrun
      simp only [turnCalls, hplayer]
      exact .of_still hw ((still_chained n).refl w)
  | some p =>
      rw [hplayer] at hrun
      obtain ⟨⟨⟩, v, hrecord, hrun⟩ := run_bind_eq_ok_iff.1 hrun
      cases hrecord
      cases hremaining : p.remaining with
      | zero =>
          simp only [hremaining] at hrun
          cases hrun
          simp only [turnCalls, hplayer, hremaining]
          exact .of_still hw (.of_same rfl rfl)
      | succ m =>
          simp only [hremaining] at hrun
          have hscript :
              (playScript performer p.label 0 (p.response m what)).run
              (w.begun id p what m) = .ok () w' := hrun
          have hbegun : w.Still n (w.begun id p what m) := .of_same rfl rfl
          simp only [turnCalls, hplayer, hremaining]
          exact .after_still hbegun
            (accounted_playScript hp p.label 0 _ (hbegun.holds hw) hscript)

/-- In the turn of a callback nobody but a player makes calls. -/
theorem accounted_call (k : Callback) (what : Delivery) :
    Accounted n (call performer k what)
      (turnCalls performer account what k) := by
  have hnothing : Accounted n (pure () : Act Unit) fun _ => [] :=
    .of_keeps (Keeps.pure (still_chained n) ())
  cases k with
  | player id => cases what <;> exact accounted_play hp id _
  | pauseSwitch r =>
      cases what with
      | signal s =>
          cases s with
          | pause paused =>
              exact .of_keeps fun w => still_switchPause n w r paused
          | _ => exact hnothing
      | message bytes => exact hnothing
  | stopSwitch r =>
      cases what with
      | signal s =>
          cases s with
          | stop => exact .of_keeps fun w => still_switchStop n w r
          | _ => exact hnothing
      | message bytes => exact hnothing
  | detach j =>
      cases what with
      | signal s => exact hnothing
      | message bytes => exact .of_keeps fun w => .of_same rfl rfl

/-- The turns of listeners, who are not told in the history. -/
theorem turned_of_deliverOn {b : Nat} {s : Signal} {l : List (Nat × Callback)} :
    ∀ {earlier : List (String × Callback)} {w w' : World} {count : Nat},
      (w.transport n).Holds earlier →
        (deliverOn performer b s l).run w = .ok count w' →
        Turned n (fun _ => []) earlier
          (listenerTurns performer account b s l w) w w' := by
  induction l with
  | nil =>
      intro earlier w w' count hw hrun
      cases hrun
      exact .nil hw
  | cons x rest ih =>
      intro earlier w w' count hw hrun
      rw [run_deliverOn_cons] at hrun
      unfold listenerTurns
      split at hrun
      · next hflag =>
        obtain ⟨⟨⟩, v, hcall, hrun⟩ := run_bind_eq_ok_iff.1 hrun
        obtain ⟨m, u, hrun, hdone⟩ := run_bind_eq_ok_iff.1 hrun
        cases hdone
        have hturn := accounted_call hp x.2 (.signal s) hw hcall
        rw [if_pos hflag, left_of_ok hcall]
        exact .cons rfl hturn (ih hturn.holds hrun)
      · next hflag =>
        rw [if_neg hflag]
        exact ih hw hrun

/-- The turns of subscribers, of whom the history tells if the transport is the
one in question. -/
theorem turned_of_forM {t : Nat} {name : String} {bytes : List UInt8}
    {l : List Callback} :
    ∀ {earlier : List (String × Callback)} {w w' : World},
      (w.transport n).Holds earlier →
        (l.forM (hand performer t name bytes)).run w = .ok () w' →
        Turned n (fun k => if t = n then [(name, k)] else []) earlier
            (subscriberTurns performer account t name bytes l w) w w' ∧
          (subscriberTurns performer account t name bytes l w).map
            Prod.fst = l := by
  induction l with
  | nil =>
      intro earlier w w' hw hrun
      cases hrun
      exact ⟨.nil hw, rfl⟩
  | cons k rest ih =>
      intro earlier w w' hw hrun
      have hcons : (hand performer t name bytes k >>= fun _ =>
        rest.forM (hand performer t name bytes)).run w = .ok () w' := hrun
      obtain ⟨⟨⟩, v, hhand, hrun⟩ := run_bind_eq_ok_iff.1 hcons
      have hcall : (call performer k (.message bytes)).run
          (w.note (.handed t name k)) = .ok () v := hhand
      have hturn := accounted_call hp k (.message bytes)
        (w := w.note (.handed t name k)) hw hcall
      obtain ⟨hrest, hnames⟩ := ih hturn.holds hrun
      have hnoted : (w.note (.handed t name k)).handedOn n =
          (if t = n then [(name, k)] else []).reverse ++ w.handedOn n := by
        by_cases ht : t = n <;> simp [handedOn, note, Occurrence.handed?, ht]
      unfold subscriberTurns
      rw [left_of_ok hhand, List.map_cons, hnames]
      exact ⟨.cons hnoted hturn hrest, rfl⟩

end Callbacks

/-! ## Single calls -/

section Single

variable {performer : Performer} {n : Nat} {name topic : String}
  {bytes : List UInt8} {w : World}

/-- A subscription to a valid topic is made. -/
theorem run_subscribePlayer_of_valid (h : Topic.isValid topic = true)
    (p : Player) :
    ∃ u, (w.transport n).subscribe topic (.player w.players.length) = .ok u ∧
      (subscribePlayer (.numbered n) topic p).run w =
        .ok .done ((w.addPlayer p).2.setTransport n u) := by
  obtain ⟨u, hu⟩ :=
    Controller.exists_of_isValid (w.transport n) h (.player w.players.length)
  have hendpoint : (w.endpoint (.numbered n)).subscribe topic
      (.player w.players.length) = .ok (.connected u) := by
    simp [endpoint, Endpoint.subscribe, hu, Except.map]
  refine ⟨u, hu, ?_⟩
  unfold subscribePlayer
  rw [run_change]
  simp only [addPlayer, hendpoint]
  rfl

/-- A subscription to an invalid topic is refused, and changes nothing. -/
theorem run_subscribePlayer_of_invalid (h : Topic.isValid topic = false)
    (p : Player) :
    (subscribePlayer (.numbered n) topic p).run w =
      .ok (.refused (.invalidTopic ⟨topic⟩)) w := by
  have hrefused : (w.transport n).subscribe topic (.player w.players.length) =
      .error ⟨topic⟩ := by
    unfold Transport.subscribe
    rw [if_neg (by simp [h])]
  have hendpoint : (w.endpoint (.numbered n)).subscribe topic
      (.player w.players.length) = .error ⟨topic⟩ := by
    simp [endpoint, Endpoint.subscribe, hrefused, Except.map]
  unfold subscribePlayer
  rw [run_change]
  simp only [addPlayer, hendpoint]

theorem receivers_of_sanitize (h : Topic.sanitize name = some topic) :
    (w.transport n).receivers name =
      .ok ((w.transport n).subscribers topic) := by
  simp [Transport.receivers, h]

/-- A message goes to all who subscribed to the topic, one after the other. -/
theorem run_publishOn_of_sanitize (h : Topic.sanitize name = some topic) :
    (publishOn performer n name bytes).run w =
      (((w.transport n).subscribers topic).forM
        (hand performer n name bytes) >>= fun _ =>
        pure (.ok ((w.transport n).subscribers topic).length)).run w := by
  unfold publishOn
  rw [run_get_bind, receivers_of_sanitize h]

/-- What a transport answers to single calls in a world. Nothing is changed by
what it refuses. A publication comes to calling those of its topic with its
message, and returns their number if they return. -/
structure World.Answers (performer : Performer) (n : Nat) (w : World) :
    Prop where
  subscribed : ∀ {topic : String}, Topic.isValid topic = true →
    ∀ p : Player, ∃ u,
    (w.transport n).subscribe topic (.player w.players.length) = .ok u ∧
      (subscribePlayer (.numbered n) topic p).run w =
        .ok .done ((w.addPlayer p).2.setTransport n u)
  refused : ∀ {topic : String}, Topic.isValid topic = false → ∀ p : Player,
    (subscribePlayer (.numbered n) topic p).run w =
      .ok (.refused (.invalidTopic ⟨topic⟩)) w
  published : ∀ {name topic : String} (bytes : List UInt8),
    Topic.sanitize name = some topic →
    (publishOn performer n name bytes).run w =
      (((w.transport n).subscribers topic).forM (fun k =>
          modify (·.note (.handed n name k)) >>= fun _ =>
            call performer k (.message bytes)) >>=
        fun _ => pure (.ok ((w.transport n).subscribers topic).length)).run w
  returned : ∀ {name topic : String} {bytes : List UInt8} {w' : World},
    Topic.sanitize name = some topic →
      (((w.transport n).subscribers topic).forM
        (hand performer n name bytes)).run w = .ok () w' →
        (publishOn performer n name bytes).run w =
          .ok (.ok ((w.transport n).subscribers topic).length) w'
  rejected : ∀ {name : String} {bytes : List UInt8},
    Topic.sanitize name = none →
    (publishOn performer n name bytes).run w = .ok (.error ⟨name⟩) w

theorem World.answers (performer : Performer) (n : Nat) (w : World) :
    w.Answers performer n :=
  { subscribed := run_subscribePlayer_of_valid
    refused := run_subscribePlayer_of_invalid
    published := fun _ h => run_publishOn_of_sanitize h
    returned := fun h hrun =>
      (run_publishOn_of_sanitize h).trans (run_bind_of_ok hrun _)
    rejected := run_publishOn_of_none }

end Single

/-! ## Actions -/

section Actions

variable {performer : Performer} {account : Action → World → List TransportCall}
  {n : Nat}

theorem run'_of_ok {α : Type} {m : Act α} {w w' : World} {a : α}
    (h : m.run w = .ok a w') :
    EStateM.run' m w = some a := by
  unfold EStateM.run'
  rw [h]

theorem still_onBus {α : Type} {number : Nat} {f : Nat → Act α}
    (h : ∀ b, Keeps (Still n) (f b)) : Keeps (Still n) (onBus number f) :=
  Keeps.bind (still_chained n)
    (Keeps.change fun w => still_busNumbered n w number) h

theorem still_onConnection {label : String} {f : Connection → Act Reply}
    (h : ∀ c, Keeps (Still n) (f c)) :
    Keeps (Still n) (onConnection label f) := by
  refine Keeps.get_bind fun w => ?_
  cases w.names.connections.get? label with
  | none => exact (still_chained n).refl w
  | some c => exact h c w

theorem still_requestJoint (label : String) :
    Keeps (Still n) (requestJoint label) := by
  refine Keeps.get_bind fun w => ?_
  cases w.names.joints.get? label with
  | none => exact (still_chained n).refl w
  | some j => exact { transport := rfl, handed := rfl }

theorem still_callStore (ref : StoreRef) (op : StoreAction) :
    Keeps (Still n) (callStore ref op) := by
  intro w
  rcases left_callStore ref op w with heq | ⟨s, reply, names, s', -, -, heq⟩
  · rw [heq]
    exact (still_chained n).refl w
  · rw [heq]
    exact .of_same (transports_setStore w ref s') (history_setStore w ref s')

section Asking

variable {a : Action} {ask : TransportAsk} {reply : Reply} {t : Nat}
  {earlier : List (String × Callback)} {w w' : World}

/-- An action that asks something of a transport is accounted for by its call if
that is the transport in question, and by what is called in its turns if it is
another. -/
theorem recounts_of_ask? (hask : a.ask? n w = if t = n then some ask else none)
    (hrun : (performWith performer none a).run w = .ok reply w')
    (hsame : t = n → Recounts n earlier
      [⟨w.transport n, ask, actionTurns performer account a w,
        some reply⟩] w w')
    (hother : t ≠ n → Recounts n earlier
      ((actionTurns performer account a w).flatMap Prod.snd) w w') :
    Recounts n earlier (actionCalls performer account n a w) w w' := by
  by_cases ht : t = n
  · rw [if_pos ht] at hask
    simp only [actionCalls, hask, run'_of_ok hrun]
    exact hsame ht
  · rw [if_neg ht] at hask
    simp only [actionCalls, hask]
    exact hother ht

/-- An action that is answered, changes nothing and calls nobody is accounted
for if it is owed the answer. -/
theorem recounts_of_answer (hw : (w.transport n).Holds earlier)
    (hask : a.ask? n w = if t = n then some ask else none)
    (hrun : (performWith performer none a).run w = .ok reply w)
    (hturns : actionTurns performer account a w = [])
    (hmade : ask.made (some reply) = [])
    (howes : t = n → ask.Owes earlier [] (some reply)) :
    Recounts n earlier (actionCalls performer account n a w) w w := by
  refine recounts_of_ask? hask hrun (fun ht => ?_) fun _ => ?_
  · rw [hturns]
    refine .single hw (howes ht) ?_ rfl
    rw [hmade, List.append_nil]
    exact hw
  · rw [hturns]
    exact .of_still hw ((still_chained n).refl w)

end Asking

theorem accounted_subscribe (endpoint : TransportRef) (topic label : String)
    (script : List Action) (runs : Nat) :
    Accounted n
      (performWith performer none (.subscribe endpoint topic label script runs))
      (actionCalls performer account n
        (.subscribe endpoint topic label script runs)) := by
  cases endpoint with
  | refusing => exact .of_keeps (still_chained n).refl
  | numbered t =>
      intro earlier w w' reply hw hrun
      have hsubscribe :
          (subscribePlayer (.numbered t) topic ⟨label, script, runs⟩).run w =
          .ok reply w' := hrun
      have hask :
          (Action.subscribe (.numbered t) topic label script runs).ask? n w =
          if t = n then some (.subscribe topic (.player w.players.length)) else
            none := rfl
      cases hvalid : Topic.isValid topic with
      | true =>
          obtain ⟨u, hu, hdone⟩ :=
            run_subscribePlayer_of_valid hvalid ⟨label, script, runs⟩
          cases hdone.symm.trans hsubscribe
          have htransport :
              ((w.addPlayer ⟨label, script, runs⟩).2.setTransport t u).transport
                n =
              if n = t then u else w.transport n := by
            simp only [setTransport, transport,
              SortedMap.get?_insert, addPlayer]
            split <;> rfl
          refine recounts_of_ask? hask hrun (fun ht => ?_) fun ht => ?_
          · subst ht
            refine .single hw ⟨rfl, by rw [hvalid]; rfl⟩ ?_ rfl
            rw [htransport, if_pos rfl]
            exact hw.subscribe hu
          · rw [if_neg (Ne.symm ht)] at htransport
            exact .of_still hw { transport := htransport, handed := rfl }
      | false =>
          cases (run_subscribePlayer_of_invalid hvalid _).symm.trans hsubscribe
          exact recounts_of_answer hw hask hrun rfl rfl fun _ =>
            ⟨rfl, by rw [hvalid]; rfl⟩

theorem accounted_subscribers (t : Nat) (topic : String) :
    Accounted n (performWith performer none (.subscribers t topic))
      (actionCalls performer account n (.subscribers t topic)) := by
  intro earlier w w' reply hw hrun
  cases hrun
  refine recounts_of_answer (t := t) hw rfl rfl rfl rfl fun ht => ⟨rfl, ?_⟩
  rw [ht, hw.subscribers]

theorem accounted_topics (t : Nat) :
    Accounted n (performWith performer none (.topics t))
      (actionCalls performer account n (.topics t)) := by
  intro earlier w w' reply hw hrun
  cases hrun
  exact recounts_of_answer (t := t) hw rfl rfl rfl rfl fun ht =>
    ⟨rfl, _, rfl, ht ▸ hw.sorted, ht ▸ hw.named⟩

variable (hp : ∀ a, Accounted n (performer none a) (account a))
include hp

theorem accounted_publish (t : Nat) (name : String) (bytes : List UInt8) :
    Accounted n (performWith performer none (.publish t name bytes))
      (actionCalls performer account n (.publish t name bytes)) := by
  intro earlier w w' reply hw hrun
  have hpublish : (publishOn performer t name bytes >>= _).run w =
      .ok reply w' := hrun
  obtain ⟨result, v, hresult, hreply⟩ := run_bind_eq_ok_iff.1 hpublish
  have hask : (Action.publish t name bytes).ask? n w =
      if t = n then some (.publish name bytes) else none := rfl
  cases hname : Topic.sanitize name with
  | none =>
      cases (run_publishOn_of_none hname).symm.trans hresult
      cases hreply
      have hturns : actionTurns performer account (.publish t name bytes) w =
          [] := by
        simp [actionTurns, Transport.receivers, hname, Except.toOption,
          subscriberTurns]
      refine recounts_of_answer hw hask hrun hturns rfl fun _ => ?_
      simp [TransportAsk.Owes, hname]
  | some topic =>
      rw [run_publishOn_of_sanitize hname] at hresult
      obtain ⟨⟨⟩, u, hall, hcount⟩ := run_bind_eq_ok_iff.1 hresult
      cases hcount
      cases hreply
      obtain ⟨hturned, hcalled⟩ := turned_of_forM hp hw hall
      have hturns : actionTurns performer account (.publish t name bytes) w =
          subscriberTurns performer account t name bytes
            ((w.transport t).subscribers topic) w := by
        simp [actionTurns, receivers_of_sanitize hname, Except.toOption]
      refine recounts_of_ask? hask hrun (fun ht => ?_) fun ht => ?_
      · subst ht
        rw [hturns]
        refine .publish hw ?_ (by simpa using hturned)
        simp only [TransportAsk.Owes, hname]
        rw [hcalled, hw.subscribers]
        exact ⟨rfl, rfl⟩
      · rw [hturns]
        exact Turned.recounts (by simpa [ht] using hturned)

theorem accounted_emit (bus : Nat) (payload : Payload) :
    Accounted n (performWith performer none (.emit bus payload))
      (actionCalls performer account n (.emit bus payload)) := by
  intro earlier w w' reply hw hrun
  have hbus := still_busNumbered n w bus
  have hnumber : (change (World.busNumbered · bus)).run w =
      .ok (w.busNumbered bus).1 (w.busNumbered bus).2 := run_change _ w
  have hemit : (change (World.busNumbered · bus) >>= _).run w =
      .ok reply w' := hrun
  rw [run_bind_of_ok hnumber, run_get_bind] at hemit
  have hcalls : actionCalls performer account n (.emit bus payload) w =
      (actionTurns performer account (.emit bus payload) w).flatMap
        Prod.snd := rfl
  rw [hcalls]
  cases hsignal : payload.signal? (w.busNumbered bus).2.names with
  | none =>
      rw [hsignal] at hemit
      cases hemit
      simp only [actionTurns, hsignal]
      exact .of_still hw hbus
  | some s =>
      rw [hsignal] at hemit
      obtain ⟨count, v, hcount, hdone⟩ := run_bind_eq_ok_iff.1 hemit
      cases hdone
      rw [run_emitOn] at hcount
      simp only [actionTurns, hsignal]
      exact .after_still hbus
        (turned_of_deliverOn hp (hbus.holds hw) hcount).recounts

/-- Performing an action is accounted for if performing nested ones is. -/
theorem accounted_performWith (a : Action) :
    Accounted n (performWith performer none a)
      (actionCalls performer account n a) := by
  have hpure : ∀ {β : Type} (b : β), Keeps (Still n) (pure b) :=
    Keeps.pure (still_chained n)
  cases a with
  | connect bus event label script runs =>
      exact .of_keeps (Keeps.change fun w =>
        (still_chained n).trans (still_busNumbered n w bus) (.of_same rfl rfl))
  | emit bus payload => exact accounted_emit hp bus payload
  | listeners bus event =>
      exact .of_keeps (still_onBus fun b => Keeps.get_bind fun w => hpure _ w)
  | disconnect bus label =>
      exact .of_keeps (still_onBus fun b => still_onConnection fun c =>
        Keeps.change fun w => .of_same rfl rfl)
  | isConnected bus label =>
      exact .of_keeps (still_onBus fun b => still_onConnection fun c =>
        Keeps.change fun w => .of_same rfl rfl)
  | same label other =>
      exact .of_keeps (still_onConnection fun c =>
        still_onConnection fun d => hpure _)
  | describeBus bus =>
      exact .of_keeps (still_onBus fun b => Keeps.get_bind fun w => hpure _ w)
  | describeChannel bus event fresh =>
      cases fresh with
      | true => exact .of_keeps (hpure _)
      | false =>
          exact .of_keeps (still_onBus fun b => Keeps.change fun w =>
            .of_same rfl rfl)
  | subscribe endpoint topic label script runs =>
      exact accounted_subscribe endpoint topic label script runs
  | publish t name bytes => exact accounted_publish hp t name bytes
  | subscribers t topic => exact accounted_subscribers t topic
  | topics t => exact accounted_topics t
  | describeTransport t => exact .of_keeps (Keeps.get_bind fun w => hpure _ w)
  | request label => exact .of_keeps (still_requestJoint label)
  | message label => exact .of_keeps (still_requestJoint label)
  | panic text => exact .of_keeps (Keeps.throw (still_chained n) _)
  | onStore op => exact .of_keeps (hpure _)
  | ifTold heeds a => exact .of_keeps (hpure _)

end Actions

/-- Performing an action is accounted for, at any depth of nesting. -/
theorem accounted_perform (n : Nat) : ∀ (depth : Nat) (a : Action),
    Accounted n (perform depth none a) (callsOf n depth a)
  | 0, _ => .of_keeps (Keeps.throw (still_chained n) _)
  | depth + 1, a => accounted_performWith (accounted_perform n depth) a

/-- An action that is meant for a store is accounted for too, since a call on a
store leaves all transports alone. -/
theorem accounted_perform_on (n depth : Nat) (ref : Option StoreRef)
    (a : Action) :
    Accounted n (perform depth ref a) (callsOf n depth a) := by
  cases ref with
  | none => exact accounted_perform n depth a
  | some ref =>
      cases depth with
      | zero => exact .of_keeps (Keeps.throw (still_chained n) _)
      | succ depth =>
          by_cases hstore : ∃ op, a = .onStore op
          · obtain ⟨op, rfl⟩ := hstore
            exact .of_keeps (still_callStore ref op)
          · have hsame : perform (depth + 1) (some ref) a =
                perform (depth + 1) none a :=
              performWith_some _ ref fun op heq => hstore ⟨op, heq⟩
            rw [hsame]
            exact accounted_perform n (depth + 1) a

/-! ## Courses -/

/-- What happens around a transport from some world on, with the calls made on
it: actions are performed, joints and others subscribe, and anything else leaves
the transport alone. -/
inductive Course (n : Nat) (start : World) : List TransportCall → World → Prop
  | start : Course n start [] start
  | act {calls : List TransportCall} {v v' : World}
      {reply : Reply} (depth : Nat) (ref : Option StoreRef) (a : Action)
      (before : Course n start calls v)
      (returned : (perform depth ref a).run v = .ok reply v') :
      Course n start (calls ++ callsOf n depth a v) v'
  | join {calls : List TransportCall} {v v' : World} {topic : String}
      {k : Callback} (before : Course n start calls v)
      (subscribed : (v.transport n).subscribe topic k = .ok (v'.transport n))
      (unhanded : v'.handedOn n = v.handedOn n) :
      Course n start (calls ++
        [⟨v.transport n, .subscribe topic k, [], some .done⟩]) v'
  | other {calls : List TransportCall} {v v' : World}
      (before : Course n start calls v) (still : v.Still n v') :
      Course n start calls v'

namespace Course

variable {n : Nat} {start v w : World} {calls : List TransportCall}
  {earlier : List (String × Callback)}

/-- The account of a course is right. -/
theorem recounts (h : Course n start calls w)
    (hstart : (start.transport n).Holds earlier) :
    Recounts n earlier calls start w := by
  induction h with
  | start => exact .of_still hstart ((still_chained n).refl start)
  | act depth ref a _ returned ih =>
      exact ih.trans (accounted_perform_on n depth ref a ih.holds returned)
  | @join calls v v' topic k _ subscribed unhanded ih =>
      have hvalid : Topic.isValid topic = true := by
        unfold Transport.subscribe at subscribed
        split at subscribed
        · assumption
        · cases subscribed
      exact ih.trans (.single ih.holds ⟨rfl, by rw [hvalid]; rfl⟩
        (ih.holds.subscribe subscribed) unhanded)
  | other _ still ih => exact ih.before_still still

/-- A request of a session to perform an action goes on with a course if it
returns. -/
theorem request (h : Course n start calls w) (ref : StoreRef) (a : Action)
    (hreturned :
      (EStateM.run' (Session.perform ref (.act a)) w).isSome = true) :
    Course n start (calls ++ callsOf n (w.weight + a.weight + 1 + 1) a w)
      (Session.stepWorld w ⟨ref, .act a⟩).2 := by
  obtain ⟨reply, hreply⟩ := Option.isSome_iff_exists.1 hreturned
  have hsettled : (Session.perform ref (.act a)).run w =
      (perform (w.weight + a.weight + 1 + 1) (some ref) a).run w :=
    run_settled a.weight (fun performer => performWith performer (some ref) a) w
  have hdone := h.act _ _ a (hsettled.symm.trans (run_of_run' hreply))
  rw [Session.stepWorld_left]
  exact hdone.other (.of_same rfl rfl)

end Course

/-- Over every course that begins with an empty transport and in which callbacks
return, whatever they subscribe and publish in their turns: every call, at
whatever depth, is lawful after the subscriptions made before it, the transport
holds just what was subscribed, and those were handed messages who are called in
the account, in its order. Every single call returns, a publication if those do
to whom it goes, and what is refused changes nothing. -/
theorem delivers_of_course (n : Nat) :
    (∀ {start w : World} {calls : List TransportCall}, start.transport n = {} →
      Course n start calls w → Recounts n [] calls start w) ∧
      ∀ (performer : Performer) (w : World), w.Answers performer n := by
  refine ⟨fun hstart h => h.recounts ?_,
    fun performer w => w.answers performer n⟩
  rw [hstart]
  exact Transport.holds_empty

/-- A subscriber that, when it is called for the first time, subscribes another
to its own topic and publishes on a second one: the other is not called then,
but with the next message. -/
theorem delivers_of_subscription_in_turn :
    let store : StoreRef := .standalone 0
    let next (w : World) (a : Action) : World :=
      (Session.stepWorld w ⟨store, .act a⟩).2
    let first : Action := .subscribe (.numbered 0) "a" "first"
      [.subscribe (.numbered 0) "a" "late" [] 0, .publish 0 "b" [1]] 1
    let second : Action := .subscribe (.numbered 0) "b" "second" [.topics 0] 1
    let w₁ := next {} first
    let w₂ := next w₁ second
    let w₃ := next w₂ (.publish 0 "a" [2])
    let w₄ := next w₃ (.publish 0 " @a" [3])
    let w₅ := next w₄ (.publish 0 "@" [4])
    ∃ calls, Course 0 {} calls w₅ ∧ Recounts 0 [] calls {} w₅ ∧
      w₅.Answers (perform 1) 0 ∧
      madeIn calls = [("a", .player 0), ("b", .player 1), ("a", .player 2)] ∧
      handedIn calls = [("a", .player 0), ("b", .player 1), (" @a", .player 0),
        (" @a", .player 2)] := by
  intro store next first second w₁ w₂ w₃ w₄ w₅
  have h₀ : Course 0 {} [] {} := .start
  have h₁ : Course 0 {} _ w₁ := h₀.request store first (by decide +kernel)
  have h₂ : Course 0 {} _ w₂ := h₁.request store second (by decide +kernel)
  have h₃ : Course 0 {} _ w₃ :=
    h₂.request store (.publish 0 "a" [2]) (by decide +kernel)
  have h₄ : Course 0 {} _ w₄ :=
    h₃.request store (.publish 0 " @a" [3]) (by decide +kernel)
  have h₅ : Course 0 {} _ w₅ :=
    h₄.request store (.publish 0 "@" [4]) (by decide +kernel)
  have hempty : ({} : World).transport 0 = {} := rfl
  refine ⟨_, h₅, (delivers_of_course 0).1 hempty h₅,
    (delivers_of_course 0).2 _ w₅, ?_, ?_⟩
  · decide +kernel
  · decide +kernel

end Linkage
