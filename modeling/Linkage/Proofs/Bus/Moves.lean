import Linkage.Proofs.Bus.Announcement
import Linkage.Proofs.Transport.Delivery
import Linkage.Proofs.World.Settling

/-!
# The moves that are made

The account of an action tells the moves that are made on the buses while it is
performed, in their order: its own, and those of the listeners and subscribers
that it calls, in their turns. It follows the way in which actions are
performed, script by script and turn by turn, and where something breaks off it
ends there, with the moves made up to then.

The account of a call is right if the buses that the call leaves are what the
moves of the account make of those it met, whether it returns or breaks off.

## Main results

* `Makes.bind`: the account of a sequence is that of its first part and, unless
  that breaks off, that of its second.
* `makes_perform`: the account of an action, at any depth.
* `makes_emitOn`: that of an announcement.
-/

namespace Linkage

open Act

/-- What comes after a call, unless it breaks off. -/
def Act.following {α β : Type} (m : Act α) (w : World)
    (f : α → World → List β) : List β :=
  match m.run w with
  | .ok a v => f a v
  | .error _ _ => []

section Following

variable {α β : Type} {m : Act α} {w v : World}

theorem Act.following_of_ok {a : α} (h : m.run w = .ok a v)
    (f : α → World → List β) :
    m.following w f = f a v := by
  rw [following, h]

theorem Act.following_of_error {cause : Panic} (h : m.run w = .error cause v)
    (f : α → World → List β) : m.following w f = [] := by
  rw [following, h]

end Following

/-- The moves that open the bus of a number, which exists from its first use. -/
def World.opening (w : World) (number : Nat) : List Move :=
  match w.busNumbers.get? number with
  | some _ => []
  | none => [.openBus]

/-- The moves that an action makes by itself. -/
def Action.moves (w : World) : Action → List Move
  | .connect number event _ _ _ =>
      w.opening number ++
        [.connect (w.busNumbered number).1 event (.player w.players.length)]
  | .disconnect number label => w.opening number ++
      ((w.names.connections.get? label).map
        (.disconnect (w.busNumbered number).1)).toList
  | .isConnected number label => w.opening number ++
      ((w.names.connections.get? label).map fun c =>
        .openChannel (w.busNumbered number).1 c.event).toList
  | .describeChannel number event fresh =>
      if fresh then [] else w.opening number ++
        [.openChannel (w.busNumbered number).1 event]
  | .emit number _ => w.opening number
  | .listeners number _ => w.opening number
  | .describeBus number => w.opening number
  | _ => []

section Accounts

variable (performer : Performer) (account : Action → World → List Move)

/-- The moves of actions that are performed one after the other, until one
breaks off. -/
def scriptMoves (label : String) : Nat → List Action → World → List Move
  | _, [], _ => []
  | index, a :: rest, w =>
      account a w ++ (performer none a).following w fun reply v =>
      scriptMoves label (index + 1) rest (v.record (.acted label index reply))

/-- The moves made in the turn of a callback. -/
def turnMoves (what : Delivery) : Callback → World → List Move
  | .player id, w =>
      match w.players[id]? with
      | none => []
      | some p =>
          match p.remaining with
          | 0 => []
          | n + 1 =>
              scriptMoves performer account p.label 0 (p.response n what)
                (w.begun id p what n)
  | _, _ => []

/-- The moves made by listeners in their turns, until one breaks off. -/
def listenerMoves (b : Nat) (s : Signal) :
    List (Nat × Callback) → World → List Move
  | [], _ => []
  | x :: rest, w =>
      if (w.bus b).flag ⟨s.event, x.1⟩ then
        turnMoves performer account (.signal s) x.2 w ++
          (call performer x.2 (.signal s)).following w fun _ v =>
            listenerMoves b s rest v
      else listenerMoves b s rest w

/-- The moves made by subscribers in their turns, until one breaks off. -/
def subscriberMoves (t : Nat) (name : String) (bytes : List UInt8) :
    List Callback → World → List Move
  | [], _ => []
  | k :: rest, w =>
      turnMoves performer account (.message bytes) k
        (w.note (.handed t name k)) ++
        (hand performer t name bytes k).following w fun _ v =>
          subscriberMoves t name bytes rest v

/-- The moves made in an announcement. -/
def announcementMoves (b : Nat) (s : Signal) (w : World) : List Move :=
  listenerMoves performer account b s (w.listeners b s.event) w

/-- The moves made in the turns of the callbacks that an action calls. -/
def calledMoves (w : World) : Action → List Move
  | .emit number payload => ((payload.signal? w.names).map fun s =>
      announcementMoves performer account (w.busNumbered number).1 s
        (w.busNumbered number).2).getD []
  | .publish t name bytes => subscriberMoves performer account t name bytes
      (((w.transport t).receivers name).toOption.getD []) w
  | _ => []

end Accounts

/-- The moves made in performing an action with a bounded depth of nesting. -/
def movesOf : Nat → Action → World → List Move
  | 0, _, _ => []
  | depth + 1, a, w =>
      a.moves w ++ calledMoves (perform depth) (movesOf depth) w a

namespace World

theorem names_busNumbered (w : World) (number : Nat) :
    (w.busNumbered number).2.names = w.names := by
  unfold busNumbered
  split <;> rfl

theorem buses_busNumbered (w : World) (number : Nat) :
    (w.busNumbered number).2.buses = moveAll w.buses (w.opening number) := by
  unfold busNumbered opening
  cases w.busNumbers.get? number <;> rfl

end World

/-- What a call does to the buses is to make the moves of its account, whether
it returns or breaks off. -/
def Makes {α : Type} (m : Act α) (account : World → List Move) : Prop :=
  ∀ w, (m.left w).buses = moveAll w.buses (account w)

theorem moveAll_append (buses : List (Bus Callback)) (moves later : List Move) :
    moveAll buses (moves ++ later) = moveAll (moveAll buses moves) later :=
  List.foldl_append

namespace Makes

variable {α β : Type}

theorem of_same {m : Act α} (h : ∀ w, (m.left w).buses = w.buses) :
    Makes m fun _ => [] := h

theorem pure (a : α) : Makes (Pure.pure a) fun _ => [] := of_same fun _ => rfl

theorem bind {m : Act α} {f : α → Act β} {account : World → List Move}
    {later : α → World → List Move} (hm : Makes m account)
    (hf : ∀ a, Makes (f a) (later a)) :
    Makes (m >>= f) fun w => account w ++ m.following w later := by
  intro w
  have hw := hm w
  rw [moveAll_append]
  cases hrun : m.run w with
  | ok a v =>
      rw [left_of_ok hrun] at hw
      rw [left_bind, hrun, following_of_ok hrun, ← hw]
      exact hf a v
  | error cause v =>
      rw [left_of_error hrun] at hw
      rw [left_bind, hrun, following_of_error hrun, ← hw]
      rfl

theorem congr {m : Act α} {account account' : World → List Move}
    (h : Makes m account) (heq : ∀ w, account w = account' w) :
    Makes m account' := fun w => heq w ▸ h w

/-- What returns leaves sound buses sound. -/
theorem sound_of_ok {m : Act α} {account : World → List Move}
    (h : Makes m account) {w v : World} {a : α} (hw : BusesSound w.buses)
    (hrun : m.run w = .ok a v) : BusesSound v.buses := by
  have hv := h w
  rw [left_of_ok hrun] at hv
  exact hv ▸ hw.moveAll (account w)

/-- What makes no moves may come after a call. -/
theorem bind_same {m : Act α} {f : α → Act β} {account : World → List Move}
    (h : Makes m account) (hf : ∀ a v, ((f a).left v).buses = v.buses) :
    Makes (m >>= f) account := by
  intro w
  have hw := h w
  rw [left_bind]
  cases hrun : m.run w with
  | ok a v =>
      rw [left_of_ok hrun] at hw
      exact (hf a v).trans hw
  | error cause v =>
      rw [left_of_error hrun] at hw
      exact hw

end Makes

/-! ## Callbacks -/

section Callbacks

variable {performer : Performer} {account : Action → World → List Move}
  (hp : ∀ a, Makes (performer none a) (account a))
include hp

theorem makes_playScript (label : String) :
    ∀ (index : Nat) (script : List Action),
    Makes (playScript performer label index script)
      (scriptMoves performer account label index script)
  | _, [] => .pure ()
  | index, a :: rest => by
      have hrecord : ∀ reply,
          Makes (record (.acted label index reply) >>= fun _ =>
          playScript performer label (index + 1) rest) fun w =>
            scriptMoves performer account label (index + 1) rest
              (w.record (.acted label index reply)) := fun reply =>
        (Makes.of_same (m := record (.acted label index reply)) fun _ =>
          rfl).bind fun _ =>
          makes_playScript label (index + 1) rest
      exact (hp a).bind hrecord

theorem makes_play (id : Nat) (what : Delivery) :
    Makes (play performer id what)
      (turnMoves performer account what (.player id)) := by
  intro w
  unfold play
  rw [left_get_bind]
  cases hplayer : w.players[id]? with
  | none => simp only [turnMoves, hplayer]; rfl
  | some p =>
      cases hremaining : p.remaining with
      | zero => simp only [turnMoves, hplayer, hremaining]; rfl
      | succ n =>
          simp only [turnMoves, hplayer, hremaining]
          exact makes_playScript hp p.label 0 (p.response n what)
            (w.begun id p what n)

/-- In the turn of a callback nobody but a player makes moves. -/
theorem makes_call (k : Callback) (what : Delivery) :
    Makes (call performer k what) (turnMoves performer account what k) := by
  have hnothing : Makes (pure () : Act Unit) fun _ => [] := .pure ()
  cases k with
  | player id => cases what <;> exact makes_play hp id _
  | pauseSwitch r =>
      cases what with
      | signal s =>
          cases s with
          | pause paused =>
              exact .of_same fun w =>
                (Mirror.silent_switchPause w r paused).buses
          | _ => exact hnothing
      | message bytes => exact hnothing
  | stopSwitch r =>
      cases what with
      | signal s =>
          cases s with
          | stop => exact .of_same fun w => (Mirror.silent_switchStop w r).buses
          | _ => exact hnothing
      | message bytes => exact hnothing
  | detach j =>
      cases what with
      | signal s => exact hnothing
      | message bytes => exact .of_same fun _ => rfl

theorem makes_deliverOn (b : Nat) (s : Signal) : ∀ l : List (Nat × Callback),
    Makes (deliverOn performer b s l) (listenerMoves performer account b s l)
  | [] => .pure 0
  | x :: rest => by
      intro w
      have hrun := @run_deliverOn_cons performer b s x rest w
      have hrest := makes_deliverOn b s rest
      rw [listenerMoves]
      by_cases hflag : (w.bus b).flag ⟨s.event, x.1⟩ = true
      · rw [if_pos hflag] at hrun ⊢
        unfold Act.left
        rw [hrun]
        exact ((makes_call hp x.2 (.signal s)).bind fun _ =>
          hrest.bind_same fun _ _ => rfl) w
      · rw [if_neg hflag] at hrun ⊢
        unfold Act.left
        rw [hrun]
        exact hrest w

theorem makes_emitOn (b : Nat) (s : Signal) :
    Makes (emitOn performer b s) (announcementMoves performer account b s) := by
  intro w
  have hdeliver := makes_deliverOn hp b s (w.listeners b s.event) w
  unfold Act.left at hdeliver ⊢
  rw [run_emitOn]
  exact hdeliver

theorem makes_forM_hand (t : Nat) (name : String) (bytes : List UInt8) :
    ∀ l : List Callback,
    Makes (l.forM (hand performer t name bytes))
      (subscriberMoves performer account t name bytes l)
  | [] => .pure ()
  | k :: rest => by
      have hhand : Makes (hand performer t name bytes k) fun w =>
          turnMoves performer account (.message bytes) k
            (w.note (.handed t name k)) :=
        fun w => makes_call hp k (.message bytes) (w.note (.handed t name k))
      exact hhand.bind fun _ => makes_forM_hand t name bytes rest

/-! ## Actions -/

omit hp in
/-- What an action does on the bus of a number comes after the opening of that
bus. -/
theorem makes_onBus {number : Nat} {f : Nat → Act Reply}
    (later : Nat → World → List Move) (h : ∀ b, Makes (f b) (later b)) :
    Makes (onBus number f) fun w =>
      w.opening number ++
        later (w.busNumbered number).1 (w.busNumbered number).2 := by
  have hopen : Makes (change fun w => w.busNumbered number) fun w =>
      w.opening number := by
    intro w
    exact World.buses_busNumbered w number
  exact hopen.bind h

omit hp in
theorem makes_onConnection {label : String} {f : Connection → Act Reply}
    {move : Connection → Move} (h : ∀ c, Makes (f c) fun _ => [move c]) :
    Makes (onConnection label f) fun w =>
      ((w.names.connections.get? label).map move).toList := by
  intro w
  unfold onConnection
  rw [left_get_bind]
  show _ = moveAll w.buses ((w.names.connections.get? label).map move).toList
  cases w.names.connections.get? label with
  | none => rfl
  | some c => exact h c w

omit hp in
theorem makes_connectPlayer (number : Nat) (event : Event) (p : Player) :
    Makes (connectPlayer number event p) fun w => w.opening number ++
      [.connect (w.busNumbered number).1 event (.player w.players.length)] := by
  intro w
  rw [moveAll_append, ← World.buses_busNumbered,
    ← World.players_busNumbered w number]
  rfl

omit hp in
theorem makes_subscribePlayer (ref : TransportRef) (topic : String)
    (p : Player) :
    Makes (subscribePlayer ref topic p) fun _ => [] := by
  refine .of_same fun w => ?_
  unfold subscribePlayer
  rw [left_change]
  simp only
  split
  · exact (Mirror.silent_setEndpoint _ ref _).buses
  · rfl

omit hp in
theorem makes_requestJoint (label : String) :
    Makes (requestJoint label) fun _ => [] := by
  refine .of_same fun w => ?_
  unfold requestJoint onJoint
  rw [left_get_bind]
  cases w.names.joints.get? label <;> rfl

theorem makes_emit (number : Nat) (payload : Payload) :
    Makes (performWith performer none (.emit number payload)) fun w =>
      w.opening number ++
        calledMoves performer account w (.emit number payload) := by
  refine (makes_onBus (fun b w => ((payload.signal? w.names).map fun s =>
    announcementMoves performer account b s w).getD []) fun b w =>
      ?_).congr fun w => ?_
  · rw [left_get_bind]
    show _ = moveAll w.buses (((payload.signal? w.names).map fun s =>
      announcementMoves performer account b s w).getD [])
    cases payload.signal? w.names with
    | none => rfl
    | some s => exact (makes_emitOn hp b s).bind_same (fun _ _ => rfl) w
  · rw [World.names_busNumbered]
    rfl

theorem makes_publish (t : Nat) (name : String) (bytes : List UInt8) :
    Makes (performWith performer none (.publish t name bytes)) fun w =>
      calledMoves performer account w (.publish t name bytes) := by
  have hpublish : Makes (publishOn performer t name bytes) fun w =>
      subscriberMoves performer account t name bytes
        (((w.transport t).receivers name).toOption.getD []) w := by
    intro w
    show _ = moveAll w.buses (subscriberMoves performer account t name bytes
      (((w.transport t).receivers name).toOption.getD []) w)
    unfold publishOn
    rw [left_get_bind]
    cases (w.transport t).receivers name with
    | error e => rfl
    | ok receivers =>
        have hhanded := makes_forM_hand hp t name bytes receivers
        exact hhanded.bind_same (fun _ _ => rfl) w
  refine hpublish.bind_same fun result v => ?_
  cases result <;> rfl

omit hp in
theorem makes_disconnect (number : Nat) (label : String) :
    Makes (performWith performer none (.disconnect number label)) fun w =>
      w.opening number ++
      ((w.names.connections.get? label).map
        (.disconnect (w.busNumbered number).1)).toList := by
  refine (makes_onBus (fun b w =>
    ((w.names.connections.get? label).map (.disconnect b)).toList)
    fun b => makes_onConnection fun c w => rfl).congr fun w => ?_
  rw [World.names_busNumbered]

omit hp in
theorem makes_isConnected (number : Nat) (label : String) :
    Makes (performWith performer none (.isConnected number label)) fun w =>
      w.opening number ++ ((w.names.connections.get? label).map fun c =>
        .openChannel (w.busNumbered number).1 c.event).toList := by
  refine (makes_onBus (fun b w => ((w.names.connections.get? label).map fun c =>
    .openChannel b c.event).toList)
    fun b => makes_onConnection fun c w => rfl).congr fun w => ?_
  rw [World.names_busNumbered]

omit hp in
theorem makes_same (label other : String) :
    Makes (performWith performer none (.same label other)) fun _ => [] := by
  refine .of_same fun w => ?_
  unfold performWith onConnection
  rw [left_get_bind]
  cases w.names.connections.get? label with
  | none => rfl
  | some c =>
      show ((onConnection other _).left w).buses = _
      unfold onConnection
      rw [left_get_bind]
      cases w.names.connections.get? other <;> rfl

/-- An action makes its own moves and those of the callbacks that it calls. -/
theorem makes_performWith (a : Action) :
    Makes (performWith performer none a) fun w =>
    a.moves w ++ calledMoves performer account w a := by
  have hread : ∀ f : World → Reply, Makes (do return f (← get)) fun _ => [] :=
    fun f => .of_same fun _ => rfl
  have hplain : ∀ {number : Nat} {f : Nat → World → Reply},
      Makes (onBus number fun b => do return f b (← get)) fun w =>
        w.opening number ++ [] :=
    makes_onBus (fun _ _ => []) fun b => hread _
  cases a with
  | connect number event label script runs =>
      exact (makes_connectPlayer number event
          ⟨label, script, runs⟩).congr fun w =>
        (List.append_nil _).symm
  | emit number payload => exact makes_emit hp number payload
  | listeners number event => exact hplain
  | disconnect number label =>
      exact (makes_disconnect number label).congr fun w =>
        (List.append_nil _).symm
  | isConnected number label =>
      exact (makes_isConnected number label).congr fun w =>
        (List.append_nil _).symm
  | same label other => exact makes_same label other
  | describeBus number => exact hplain
  | describeChannel number event fresh =>
      cases fresh with
      | true => exact .pure _
      | false =>
          have hensure : ∀ b, Makes (change fun w =>
              let made := (w.bus b).ensure event
              (Reply.text
                (Bus.describeChannel event (made.listenerCount event)),
                w.setBus b made)) fun _ => [.openChannel b event] :=
            fun b w => rfl
          exact (makes_onBus _ hensure).congr fun w => (List.append_nil _).symm
  | subscribe ref topic label script runs =>
      exact makes_subscribePlayer ref topic _
  | publish t topic bytes => exact makes_publish hp t topic bytes
  | subscribers t topic => exact hread _
  | topics t => exact hread _
  | describeTransport t => exact hread _
  | request label => exact makes_requestJoint label
  | message label => exact makes_requestJoint label
  | panic text => exact .of_same fun _ => rfl
  | onStore op => exact .pure _
  | ifTold heeds a => exact .pure _

omit hp in
theorem makes_perform : ∀ (depth : Nat) (a : Action),
    Makes (perform depth none a) (movesOf depth a)
  | 0, _ => .of_same fun _ => rfl
  | depth + 1, a => makes_performWith (makes_perform depth) a

end Callbacks

end Linkage
