import Linkage.Proofs.Bus.Emission
import Linkage.Proofs.World.Commands

/-!
# Reactions

Listeners and subscribers can do a good deal: they connect, disconnect,
announce, subscribe, publish, flip the switches of runners and command joints,
to any depth. What they cannot do is to touch a store, a clock, a list of
systems or anything of a joint but its flag. A reaction is a change within these
limits, and whatever actions are performed outside of a store react.

## Main results

* `perform_reaction`: performing an action, at any depth, is a reaction.
* `emitOn_reaction`, `publishOn_reaction`: announcing and publishing are
  reactions.
* `perform_rewires`: on the buses a reaction is rewiring.
-/

namespace Linkage

open Act

/-- The payload of a signal to pause or to resume. -/
def Signal.pause? : Signal → Option Bool
  | .pause paused => some paused
  | _ => none

/-- Whether a signal is one to stop. -/
def Signal.isStop : Signal → Bool
  | .stop => true
  | _ => false

/-- The runner with its switches off. -/
def Runner.still (x : Runner) : Runner :=
  { x with paused := false, stopped := false, heard := [] }

/-- The switches of the runner follow what they have heard: the last signal to
pause or to resume decides about one, any signal to stop about the other. -/
structure Runner.Switched (x : Runner) : Prop where
  paused : x.paused = (x.heard.findSome? Signal.pause?).getD false
  stopped : x.stopped = x.heard.any Signal.isStop

/-- The switches of the second runner have heard at least what those of the
first have, and follow it if those of the first did. -/
structure Runner.Hears (x y : Runner) : Prop where
  heard : x.heard <:+ y.heard
  switched : x.Switched → y.Switched

namespace Runner

variable {a b c : Runner}

theorem Hears.refl (a : Runner) : a.Hears a := { heard := List.suffix_refl _,
                                                 switched := id }

theorem Hears.trans (h : a.Hears b) (h' : b.Hears c) : a.Hears c :=
  { heard := h.heard.trans h'.heard,
    switched := fun ha => h'.switched (h.switched ha) }

theorem store_of_still (h : a.still = b.still) : a.store = b.store := by
  show a.still.store = b.still.store
  rw [h]

theorem systems_of_still (h : a.still = b.still) : a.systems = b.systems := by
  show a.still.systems = b.still.systems
  rw [h]

end Runner

namespace World

variable {w w' : World}

theorem lt_of_runner? {r : Nat} {runner : Runner}
    (h : w.runner? r = some runner) :
    r < w.runners.length := by
  have hr : w.runners[r]? = some (some runner) := by
    simpa [runner?, Option.join_eq_some_iff] using h
  exact (List.getElem?_eq_some_iff.1 hr).1

theorem runner?_setRunner_of {r : Nat} {runner : Runner}
    (h : w.runner? r = some runner) (x : Option Runner) (q : Nat) :
    (w.setRunner r x).runner? q = if q = r then x else w.runner? q := by
  by_cases hq : q = r
  · subst hq
    rw [if_pos rfl]
    exact runner?_setRunner (lt_of_runner? h) x
  · have hrq : r ≠ q := fun heq => hq heq.symm
    simp [setRunner, runner?, hq, List.getElem?_set_ne hrq]

/-- What is seen of a runner is seen in the list of all of them. -/
theorem map_runner? {β : Type} (f : Runner → β) (w : World) (r : Nat) :
    (w.runner? r).map f = ((w.runners.map (Option.map f))[r]?).join := by
  unfold runner?
  rw [List.getElem?_map]
  cases w.runners[r]? with
  | none => rfl
  | some x => cases x <;> rfl

/-- Within the limits of a reaction. -/
structure Limited (w w' : World) : Prop where
  buses : w.Rewired w'
  runners : w'.runners.map (Option.map Runner.still) =
    w.runners.map (Option.map Runner.still)
  joints : w'.joints.map JointSlot.still = w.joints.map JointSlot.still
  stores : w'.stores = w.stores
  entities : w'.names.entities = w.names.entities
  labels : w'.names.joints = w.names.joints
  history : w.history <:+ w'.history
  switches : ∀ {r : Nat} {b : Runner}, w'.runner? r = some b →
    ∃ a, w.runner? r = some a ∧ a.Hears b

/-- What listeners and subscribers can do to a world. -/
structure Reaction (w w' : World) : Prop extends Limited w w' where
  wired : w.Wired → w'.Wired

theorem switches_of_runners (hr : w'.runners = w.runners) {r : Nat} {b : Runner}
    (hb : w'.runner? r = some b) : ∃ a, w.runner? r = some a ∧ a.Hears b := by
  unfold runner? at hb ⊢
  rw [hr] at hb
  exact ⟨b, hb, .refl b⟩

theorem limited_chained : Chained Limited :=
  { refl := fun w =>
      { buses := rewired_chained.refl w, runners := rfl, joints := rfl,
        stores := rfl,
        entities := rfl, labels := rfl, history := List.suffix_refl _,
        switches := fun {r b} hb => ⟨b, hb, .refl b⟩ }
    trans := fun h h' =>
      { buses := rewired_chained.trans h.buses h'.buses
        runners := h'.runners.trans h.runners
        joints := h'.joints.trans h.joints
        stores := h'.stores.trans h.stores
        entities := h'.entities.trans h.entities
        labels := h'.labels.trans h.labels
        history := h.history.trans h'.history
        switches := fun {r c} hc => by
          obtain ⟨b, hb, hbc⟩ := h'.switches hc
          obtain ⟨a, ha, hab⟩ := h.switches hb
          exact ⟨a, ha, hab.trans hbc⟩ } }

theorem reaction_chained : Chained Reaction :=
  { refl := fun w => { limited_chained.refl w with wired := id }
    trans := fun h h' =>
      { limited_chained.trans h.toLimited h'.toLimited with
        wired := fun hw => h'.wired (h.wired hw) } }

/-- A change that leaves runners, joints, transports and the history alone is a
reaction if it only rewires the buses. -/
theorem Reaction.of_same (hb : w.Rewired w') (hr : w'.runners = w.runners)
    (hj : w'.joints = w.joints) (ht : w'.transports = w.transports)
    (hs : w'.stores = w.stores) (he : w'.names.entities = w.names.entities)
    (hl : w'.names.joints = w.names.joints) (hh : w'.history = w.history) :
    w.Reaction w' :=
  { buses := hb, runners := congrArg _ hr, joints := congrArg _ hj,
    stores := hs, entities := he,
    labels := hl, history := hh ▸ List.suffix_refl _,
    switches := switches_of_runners hr,
    wired := fun hw => hw.congr hj (transport_congr ht) hl hh }

/-- A runner that looks the same may be put in place. -/
theorem map_setRunner {β : Type} {f : Runner → β} {r : Nat} {a b : Runner}
    (ha : w.runner? r = some a) (hb : f b = f a) :
    (w.setRunner r (some b)).runners.map (Option.map f) =
      w.runners.map (Option.map f) := by
  have hr : w.runners[r]? = some (some a) := by
    simpa [runner?, Option.join_eq_some_iff] using ha
  refine List.ext_getElem? fun i => ?_
  simp only [setRunner, List.getElem?_map, List.getElem?_set]
  by_cases hi : r = i
  · subst hi
    rw [if_pos rfl, if_pos (lt_of_runner? ha), hr]
    exact congrArg (fun x => some (some x)) hb
  · rw [if_neg hi]

/-- Putting a runner in place that differs in its switches, which follow what
they have heard. -/
theorem Reaction.of_switch {r : Nat} {a b : Runner} (ha : w.runner? r = some a)
    (hstill : b.still = a.still) (hb : a.Hears b) :
    w.Reaction (w.setRunner r (some b)) :=
  { buses := .of_buses_eq rfl, runners := map_setRunner ha hstill,
    joints := rfl,
    stores := rfl, entities := rfl, labels := rfl,
    history := List.suffix_refl _,
    switches := fun {q c} hc => by
      rw [runner?_setRunner_of ha] at hc
      split at hc
      · next hq =>
        cases hc
        exact ⟨a, hq ▸ ha, hb⟩
      · exact ⟨c, hc, .refl c⟩
    wired := fun hw => hw.congr rfl (transport_congr rfl) rfl rfl }

theorem report_reaction (w : World) (entries : Log) :
    w.Reaction (w.report entries) :=
  .of_same (.of_buses_eq rfl) rfl rfl rfl rfl rfl rfl rfl

theorem switchPause_reaction (w : World) (r : Nat) (paused : Bool) :
    w.Reaction (w.switchPause r paused) := by
  unfold switchPause
  cases h : w.runner? r with
  | none => exact reaction_chained.refl w
  | some runner =>
      have hswitch : w.Reaction (w.setRunner r
          (some { runner with paused,
                              heard := .pause paused :: runner.heard })) :=
        .of_switch h rfl { heard := List.suffix_cons _ _, switched := fun hs =>
          { paused := rfl, stopped := hs.stopped } }
      show w.Reaction (if runner.paused = paused then _ else _)
      split
      · exact hswitch
      · exact reaction_chained.trans hswitch (report_reaction _ _)

theorem switchStop_reaction (w : World) (r : Nat) :
    w.Reaction (w.switchStop r) := by
  unfold switchStop
  cases h : w.runner? r with
  | none => exact reaction_chained.refl w
  | some runner =>
      have hswitch : w.Reaction (w.setRunner r
          (some { runner with stopped := true,
                              heard := .stop :: runner.heard })) :=
        .of_switch h rfl { heard := List.suffix_cons _ _, switched := fun hs =>
          { paused := hs.paused, stopped := rfl } }
      show w.Reaction (if runner.stopped = true then _ else _)
      split
      · exact hswitch
      · exact reaction_chained.trans hswitch (report_reaction _ _)

theorem reaction_callable : Callable Reaction :=
  { reaction_chained with
    record := fun _ _ => .of_same (.of_buses_eq rfl) rfl rfl rfl rfl rfl rfl rfl
    players := fun _ _ =>
      .of_same (.of_buses_eq rfl) rfl rfl rfl rfl rfl rfl rfl
    pause := switchPause_reaction
    stop := switchStop_reaction }

theorem limited_callable : Callable Limited :=
  { limited_chained with
    record := fun w entry => (reaction_callable.record w entry).toLimited
    players := fun w players => (reaction_callable.players w players).toLimited
    pause := fun w r paused => (reaction_callable.pause w r paused).toLimited
    stop := fun w r => (reaction_callable.stop w r).toLimited }

/-! ## Single changes -/

theorem Reaction.of_move (w : World) (m : Move) {w' : World}
    (hb : w'.buses = m.apply w.buses) (hr : w'.runners = w.runners)
    (hj : w'.joints = w.joints) (ht : w'.transports = w.transports)
    (hs : w'.stores = w.stores) (he : w'.names.entities = w.names.entities)
    (hl : w'.names.joints = w.names.joints) (hh : w'.history = w.history) :
    w.Reaction w' :=
  .of_same ⟨[m], hb⟩ hr hj ht hs he hl hh

theorem addBus_reaction (w : World) : w.Reaction w.addBus.2 :=
  .of_move w .openBus rfl rfl rfl rfl rfl rfl rfl rfl

theorem busNumbered_reaction (w : World) (number : Nat) :
    w.Reaction (w.busNumbered number).2 := by
  unfold busNumbered
  split
  · exact reaction_chained.refl w
  · exact .of_move w .openBus rfl rfl rfl rfl rfl rfl rfl rfl

theorem connectPlayer_reaction (number : Nat) (event : Event) (p : Player) :
    Keeps Reaction (connectPlayer number event p) := by
  refine Keeps.change fun w =>
    reaction_chained.trans (busNumbered_reaction w number) ?_
  exact .of_move _ (.connect (w.busNumbered number).1 event
    (.player (w.busNumbered number).2.players.length)) rfl rfl rfl rfl
      rfl rfl rfl rfl

theorem subscribePlayer_reaction (ref : TransportRef) (topic : String)
    (p : Player) :
    Keeps Reaction (subscribePlayer ref topic p) := by
  intro w
  unfold subscribePlayer
  rw [left_change]
  simp only [World.addPlayer]
  cases hsub : (w.endpoint ref).subscribe topic (.player w.players.length) with
  | error cause => exact reaction_chained.refl w
  | ok e =>
      show w.Reaction ((w.addPlayer p).2.setEndpoint ref e)
      have hsame : ∀ {v : World}, v = (w.addPlayer p).2.setEndpoint ref e →
          v.buses = w.buses ∧ v.runners = w.runners ∧ v.joints = w.joints ∧
            v.stores = w.stores ∧ v.names = w.names ∧
            v.history = w.history := by
        rintro v rfl
        unfold setEndpoint
        split <;> exact ⟨rfl, rfl, rfl, rfl, rfl, rfl⟩
      obtain ⟨hb, hr, hj, hs, hn, hh⟩ := hsame rfl
      exact
        { buses := .of_buses_eq hb
          runners := congrArg _ hr
          joints := congrArg _ hj
          stores := hs
          entities := congrArg Names.entities hn
          labels := congrArg Names.joints hn
          history := hh ▸ List.suffix_refl _
          switches := switches_of_runners hr
          wired := fun hw => hw.subscribe hsub (by simp) rfl rfl rfl rfl }

theorem note_limited (w : World) (o : Occurrence) : w.Limited (w.note o) :=
  { buses := .of_buses_eq rfl, runners := rfl, joints := rfl, stores := rfl,
    entities := rfl,
    labels := rfl, history := List.suffix_cons _ _,
    switches := switches_of_runners rfl }

theorem requestDetach_limited (w : World) (j : Nat) :
    w.Limited (w.requestDetach j) :=
  { buses := .of_buses_eq rfl, runners := rfl,
    joints := still_requestDetach _ _, stores := rfl,
    entities := rfl, labels := rfl, history := List.suffix_refl _,
    switches := switches_of_runners rfl }

/-- Noting a command and raising the flag of its joint. -/
theorem command_reaction {o : Occurrence} {j : Nat}
    (ho : ∀ i, o.commands i = true ↔ i = j) (hj : w.Wired → j < w.joints.length)
    (hhanded : w.Wired → ∀ t name, o = .handed t name (.detach j) →
      w.Admits t name j) :
    w.Reaction ((w.note o).requestDetach j) :=
  { limited_chained.trans (note_limited w o) (requestDetach_limited _ j) with
    wired := fun hw => hw.command (hj hw) ho (hhanded hw) }

theorem note_reaction {o : Occurrence} (ho : ∀ i, o.commands i = false) :
    w.Reaction (w.note o) :=
  { note_limited w o with wired := fun hw => hw.note ho }

end World

open World

theorem requestJoint_reaction (label : String) :
    Keeps Reaction (requestJoint label) := by
  refine Keeps.get_bind fun w => ?_
  cases hl : w.names.joints.get? label with
  | none => exact reaction_chained.refl w
  | some j =>
      exact command_reaction (by simp [Occurrence.commands, eq_comm])
        (fun hw => hw.labels hl) (by simp)

/-! ## Publishing -/

section Publishing

variable {performer : Performer} (hp : ∀ a, Keeps Reaction (performer none a))
include hp

/-- Handing a message to a subscriber that the transport may hand it to. -/
theorem hand_reaction {w : World} {number : Nat} {topic : String}
    {bytes : List UInt8} {k : Callback}
    (hk : w.Wired → ∀ j, k = .detach j → w.Admits number topic j) :
    w.Reaction ((hand performer number topic bytes k).left w) := by
  have hleft : (hand performer number topic bytes k).left w =
      (call performer k (.message bytes)).left
        (w.note (.handed number topic k)) := rfl
  rw [hleft]
  cases k with
  | player id =>
      exact reaction_chained.trans
        (note_reaction (by simp [Occurrence.commands]))
        (play_keeps reaction_callable hp id (.message bytes) _)
  | pauseSwitch r => exact note_reaction (by simp [Occurrence.commands])
  | stopSwitch r => exact note_reaction (by simp [Occurrence.commands])
  | detach j =>
      refine command_reaction (by simp [Occurrence.commands, eq_comm])
        (fun hw => ?_) ?_
      · obtain ⟨slot, u, hslot, -⟩ := hk hw j rfl
        exact (List.getElem?_eq_some_iff.1 hslot).1
      · intro hw t name heq
        cases heq
        exact hk hw j rfl

theorem call_message_limited (k : Callback) (bytes : List UInt8) :
    Keeps Limited (call performer k (.message bytes)) := by
  cases k with
  | player id =>
      exact play_keeps limited_callable (fun a w => (hp a w).toLimited) id _
  | pauseSwitch r => exact Keeps.pure limited_chained ()
  | stopSwitch r => exact Keeps.pure limited_chained ()
  | detach j => exact Keeps.modify fun w => requestDetach_limited w j

theorem hand_limited (number : Nat) (topic : String) (bytes : List UInt8)
    (k : Callback) :
    Keeps Limited (hand performer number topic bytes k) :=
  Keeps.bind limited_chained (Keeps.modify fun w => note_limited w _)
    fun _ => call_message_limited hp k bytes

/-- Handing a message to subscribers, of which each may be handed it. -/
theorem forM_hand_wired {number : Nat} {topic : String} {bytes : List UInt8} :
    ∀ {l : List Callback} {w : World}, w.Wired →
      (∀ k ∈ l, ∀ j, k = .detach j → w.Admits number topic j) →
      ((l.forM (hand performer number topic bytes)).left w).Wired
  | [], w, hw, _ => hw
  | k :: l, w, hw, h => by
      have hfirst : w.Reaction ((hand performer number topic bytes k).left w) :=
        hand_reaction hp fun _ => h k (by simp)
      show ((hand performer number topic bytes k >>= fun _ =>
        l.forM (hand performer number topic bytes)).left w).Wired
      rw [left_bind]
      unfold Act.left at hfirst
      cases hrun : (hand performer number topic bytes k).run w with
      | error e v =>
          rw [hrun] at hfirst
          exact hfirst.wired hw
      | ok a v =>
          rw [hrun] at hfirst
          refine forM_hand_wired (hfirst.wired hw) fun c hc j hj => ?_
          exact (h c (by simp [hc]) j hj).of_still hfirst.joints

/-- Publishing is a reaction if the actions of subscribers are. -/
theorem publishOn_reaction (number : Nat) (topic : String)
    (bytes : List UInt8) :
    Keeps Reaction (publishOn performer number topic bytes) := by
  refine Keeps.get_bind fun w => ?_
  cases hr : (w.transport number).receivers topic with
  | error e => exact reaction_chained.refl w
  | ok receivers =>
      show w.Reaction
          ((receivers.forM (hand performer number topic bytes) >>= fun _ =>
        pure (.ok receivers.length) : Act (Except InvalidTopic Nat)).left w)
      have hlimited := Keeps.forM limited_chained receivers fun k _ =>
        hand_limited hp number topic bytes k
      refine { hlimited.bind limited_chained
                 (fun _ => Keeps.pure limited_chained _) w with
               wired := fun hw => ?_ }
      have hadmits : ∀ k ∈ receivers, ∀ j, k = .detach j →
          w.Admits number topic j := by
        rintro k hk j rfl
        unfold Transport.receivers at hr
        cases hs : Topic.sanitize topic with
        | none =>
            rw [hs] at hr
            cases hr
        | some u =>
            rw [hs] at hr
            cases hr
            obtain ⟨slot, hslot, hlistens⟩ := (hw.subscriptions number u j).1 hk
            exact ⟨slot, u, hslot, hs, hlistens⟩
      have hwired :
          ((receivers.forM (hand performer number topic bytes)).left w).Wired :=
        forM_hand_wired hp hw hadmits
      rw [left_bind]
      unfold Act.left at hwired
      cases hrun :
          (receivers.forM (hand performer number topic bytes)).run w with
      | ok a v =>
          rw [hrun] at hwired
          exact hwired
      | error e v =>
          rw [hrun] at hwired
          exact hwired

/-- Every subscriber that a message is handed to is told in the history. -/
theorem handed_of_forM {number : Nat} {topic : String} {bytes : List UInt8}
    {c : Callback} :
    ∀ {l : List Callback} {w w' : World},
      (l.forM (hand performer number topic bytes)).run w = .ok () w' → c ∈ l →
        .handed number topic c ∈ w'.history
  | k :: l, w, w', h, hc => by
      have hcons : (hand performer number topic bytes k >>= fun _ =>
        l.forM (hand performer number topic bytes)).run w = .ok () w' := h
      obtain ⟨⟨⟩, v, hfirst, hrest⟩ := run_bind_eq_ok_iff.1 hcons
      rcases List.mem_cons.1 hc with rfl | hc
      · have hcall : (call performer c (.message bytes)).run
            (w.note (.handed number topic c)) = .ok () v := hfirst
        have hnoted : .handed number topic c ∈ v.history :=
          ((call_message_limited hp c bytes).of_ok hcall).history.subset
            List.mem_cons_self
        have hlimited := Keeps.forM limited_chained l fun k _ =>
          hand_limited hp number topic bytes k
        exact (hlimited.of_ok hrest).history.subset hnoted
      · exact handed_of_forM hrest hc

/-- A publish that returns hands its message to a joint exactly if the joint
listens to it. -/
theorem handed_iff_of_publishOn {number : Nat} {topic : String}
    {bytes : List UInt8} {j : Nat} {w w' : World}
    {result : Except InvalidTopic Nat} (hw : w.Wired)
    (h : (publishOn performer number topic bytes).run w = .ok result w') :
    .handed number topic (.detach j) ∈ w'.history ↔
      w.Admits number topic j := by
  have hreaction := (publishOn_reaction hp number topic bytes).of_ok h
  constructor
  · intro hmem
    exact ((hreaction.wired hw).handed hmem).of_still hreaction.joints.symm
  · rintro ⟨slot, u, hslot, hsanitize, hlistens⟩
    have hreceivers : (w.transport number).receivers topic =
        .ok ((w.transport number).subscribers u) := by
      simp [Transport.receivers, hsanitize]
    unfold publishOn at h
    rw [run_get_bind, hreceivers] at h
    obtain ⟨⟨⟩, v, hall, hlast⟩ := run_bind_eq_ok_iff.1 h
    cases hlast
    exact handed_of_forM hp hall
      ((hw.subscriptions number u j).2 ⟨slot, hslot, hlistens⟩)

end Publishing

/-! ## Actions -/

theorem onBus_reaction {α : Type} {number : Nat} {f : Nat → Act α}
    (h : ∀ b, Keeps Reaction (f b)) : Keeps Reaction (onBus number f) :=
  Keeps.bind reaction_chained
    (Keeps.change fun w => busNumbered_reaction w number) h

theorem onConnection_reaction {label : String} {f : Connection → Act Reply}
    (h : ∀ c, Keeps Reaction (f c)) :
    Keeps Reaction (onConnection label f) := by
  refine Keeps.get_bind fun w => ?_
  cases w.names.connections.get? label with
  | none => exact reaction_chained.refl w
  | some c => exact h c w

/-- Announcing is a reaction if the actions of listeners are. -/
theorem emitOn_reaction {performer : Performer}
    (hp : ∀ a, Keeps Reaction (performer none a)) (b : Nat) (s : Signal) :
    Keeps Reaction (emitOn performer b s) :=
  emitOn_keeps reaction_callable hp b s

/-- Performing an action outside of a store is a reaction if performing nested
ones is. -/
theorem performWith_reaction {performer : Performer}
    (hp : ∀ a, Keeps Reaction (performer none a)) (a : Action) :
    Keeps Reaction (performWith performer none a) := by
  have hpure : ∀ {α : Type} (a : α), Keeps Reaction (pure a) :=
    Keeps.pure reaction_chained
  cases a with
  | connect bus event label script runs =>
      exact connectPlayer_reaction bus event _
  | emit bus payload =>
      refine onBus_reaction fun b => Keeps.get_bind fun w => ?_
      cases payload.signal? w.names with
      | none => exact reaction_chained.refl w
      | some s =>
          exact (emitOn_reaction hp b s).bind reaction_chained
            (fun n => hpure _) w
  | listeners bus event =>
      exact onBus_reaction fun b => Keeps.get_bind fun w => hpure _ w
  | disconnect bus label =>
      refine onBus_reaction fun b => onConnection_reaction fun c =>
        Keeps.change fun w => ?_
      exact .of_move w (.disconnect b c) rfl rfl rfl rfl rfl rfl rfl rfl
  | isConnected bus label =>
      refine onBus_reaction fun b => onConnection_reaction fun c =>
        Keeps.change fun w => ?_
      exact .of_move w (.openChannel b c.event) rfl rfl rfl rfl rfl rfl rfl rfl
  | same label other =>
      exact onConnection_reaction fun c =>
        onConnection_reaction fun d => hpure _
  | describeBus bus =>
      exact onBus_reaction fun b => Keeps.get_bind fun w => hpure _ w
  | describeChannel bus event fresh =>
      cases fresh with
      | true => exact hpure _
      | false =>
          refine onBus_reaction fun b => Keeps.change fun w => ?_
          exact .of_move w (.openChannel b event) rfl rfl rfl rfl
            rfl rfl rfl rfl
  | subscribe ref topic label script runs =>
      exact subscribePlayer_reaction ref topic _
  | publish t topic bytes =>
      refine (publishOn_reaction hp t topic bytes).bind reaction_chained
        fun result => ?_
      cases result <;> exact hpure _
  | subscribers t topic => exact Keeps.get_bind fun w => hpure _ w
  | topics t => exact Keeps.get_bind fun w => hpure _ w
  | describeTransport t => exact Keeps.get_bind fun w => hpure _ w
  | request label => exact requestJoint_reaction label
  | message label => exact requestJoint_reaction label
  | panic text => exact Keeps.throw reaction_chained _
  | onStore op => exact hpure _
  | ifTold heeds a => exact hpure _

/-- Performing an action outside of a store is a reaction. -/
theorem perform_reaction :
    ∀ (depth : Nat) (a : Action), Keeps Reaction (perform depth none a)
  | 0, _ => Keeps.throw reaction_chained _
  | depth + 1, a => performWith_reaction (perform_reaction depth) a

theorem perform_rewires (depth : Nat) : (perform depth).Rewires :=
  fun a w => (perform_reaction depth a w).buses

end Linkage
