import Linkage.Proofs.Joint.Lifecycle
import Linkage.World.Perform

/-!
# Commands and the joints they reach

The history of a world tells which commands were given. A command reaches a
joint through its handle, or as a message that a transport hands to it. Whatever
happens, the flag of a joint that has not let go yet is up exactly if some
command has reached the joint, and a transport hands messages to a joint exactly
from the moment on at which the joint has attached, and on its topic only.

## Main results

* `World.Wired.command`: raising a flag together with the note of the command
  keeps the law.
* `World.Wired.subscribe`: other subscriptions do too.
-/

namespace Linkage

/-- Whether an occurrence is a command to a joint. -/
def Occurrence.commands (j : Nat) : Occurrence → Bool
  | .asked i => i = j
  | .handed _ _ k => k = .detach j

/-- Some command has reached a joint. -/
def Reached (j : Nat) (history : List Occurrence) : Prop :=
  ∃ o ∈ history, o.commands j = true

instance (j : Nat) (history : List Occurrence) :
    Decidable (Reached j history) :=
  inferInstanceAs (Decidable (∃ o ∈ history, o.commands j = true))

theorem reached_cons (j : Nat) (o : Occurrence) (history : List Occurrence) :
    Reached j (o :: history) ↔ o.commands j = true ∨ Reached j history := by
  simp [Reached]

namespace JointSlot

/-- The slot with its command flag down. -/
def still (slot : JointSlot) : JointSlot :=
  { slot with controller := { slot.controller with requested := false } }

/-- The joint of the slot listens on a transport to a topic. -/
def Listens (slot : JointSlot) (t : Nat) (u : String) : Prop :=
  slot.transport = .numbered t ∧ slot.controller.initialized = true ∧
  slot.controller.topic = u

variable {a b : JointSlot}

theorem Listens.of_still (h : a.still = b.still) {t : Nat} {u : String}
    (ha : a.Listens t u) :
    b.Listens t u := by
  have hstill : a.still.Listens t u := ha
  rw [h] at hstill
  exact hstill

theorem sound_of_still (h : a.still = b.still) (ha : a.controller.Sound) :
    b.controller.Sound := by
  have hstill : a.still.controller.Sound := { ha with }
  rw [h] at hstill
  exact { hstill with }

end JointSlot

namespace World

variable {w w' : World}

/-- A joint listens on a transport to the topic that a name is repaired to. -/
def Admits (w : World) (t : Nat) (name : String) (j : Nat) : Prop :=
  ∃ slot u, w.joints[j]? = some slot ∧ Topic.sanitize name = some u ∧
    slot.Listens t u

/-- Commands and joints agree: what transports hold and what the history tells
fits the joints, and the flag of a joint that has not let go yet tells whether a
command has reached it. -/
structure Wired (w : World) : Prop where
  controllers : ∀ {j : Nat} {slot : JointSlot}, w.joints[j]? = some slot →
    slot.controller.Sound
  labels : ∀ {l : String} {j : Nat}, w.names.joints.get? l = some j →
    j < w.joints.length
  subscriptions : ∀ t u j, .detach j ∈ (w.transport t).subscribers u ↔
    ∃ slot, w.joints[j]? = some slot ∧ slot.Listens t u
  handed : ∀ {t : Nat} {name : String} {j : Nat},
    .handed t name (.detach j) ∈ w.history →
    w.Admits t name j
  asked : ∀ {j : Nat}, .asked j ∈ w.history → j < w.joints.length
  flags : ∀ {j : Nat} {slot : JointSlot}, w.joints[j]? = some slot →
    ¬ slot.controller.HasLetGo →
    (slot.controller.requested = true ↔ Reached j w.history)

theorem wired_empty : Wired {} :=
  { controllers := by simp
    labels := by simp
    subscriptions := by
      intro t u j
      simp [transport, Transport.subscribers]
    handed := by simp
    asked := by simp
    flags := by simp }

theorem transport_congr (ht : w'.transports = w.transports) (t : Nat) :
    w'.transport t = w.transport t := by
  simp only [transport, ht]

/-- The law looks at the joints, the transports, the labels of joints and the
history only. -/
theorem Wired.congr (h : w.Wired) (hj : w'.joints = w.joints)
    (ht : ∀ t, w'.transport t = w.transport t)
    (hn : w'.names.joints = w.names.joints) (hh : w'.history = w.history) :
    w'.Wired := by
  refine { controllers := ?_, labels := ?_, subscriptions := ?_,
           handed := ?_, asked := ?_,
           flags := ?_ }
  · exact hj ▸ h.controllers
  · rw [hn, hj]
    exact h.labels
  · intro t u j
    rw [ht, hj]
    exact h.subscriptions t u j
  · rw [hh]
    intro t name j hmem
    have hadmits := h.handed hmem
    simp only [Admits] at hadmits ⊢
    rwa [hj]
  · rw [hh, hj]
    exact h.asked
  · rw [hh, hj]
    exact h.flags

/-! ## Joints that differ in their flags only -/

theorem slot_of_still
    (h : w'.joints.map JointSlot.still = w.joints.map JointSlot.still) {j : Nat}
    {slot : JointSlot} (hs : w.joints[j]? = some slot) :
    ∃ slot', w'.joints[j]? = some slot' ∧ slot'.still = slot.still := by
  have hj := congrArg (·[j]?) h
  simp only [List.getElem?_map, hs, Option.map_some] at hj
  exact Option.map_eq_some_iff.1 hj

theorem length_of_still
    (h : w'.joints.map JointSlot.still = w.joints.map JointSlot.still) :
    w'.joints.length = w.joints.length := by
  simpa using congrArg List.length h

theorem Admits.of_still
    (h : w'.joints.map JointSlot.still = w.joints.map JointSlot.still) {t : Nat}
    {name : String} {j : Nat} (ha : w.Admits t name j) :
    w'.Admits t name j := by
  obtain ⟨slot, u, hslot, hname, hlistens⟩ := ha
  obtain ⟨slot', hslot', hstill⟩ := slot_of_still h hslot
  exact ⟨slot', u, hslot', hname, hlistens.of_still hstill.symm⟩

/-! ## Giving a command -/

theorem joints_requestDetach (w : World) (j i : Nat) :
    (w.requestDetach j).joints[i]? = (w.joints[i]?).map fun slot =>
      if j = i then { slot with controller := slot.controller.request } else
          slot :=
  List.getElem?_modify _ j w.joints i

theorem still_requestDetach (w : World) (j : Nat) :
    (w.requestDetach j).joints.map JointSlot.still =
      w.joints.map JointSlot.still := by
  refine List.ext_getElem? fun i => ?_
  rw [List.getElem?_map, joints_requestDetach, List.getElem?_map,
    Option.map_map]
  congr 1
  funext slot
  by_cases h : j = i <;> simp [h, JointSlot.still, Controller.request]

/-- Noting an occurrence that is no command. -/
theorem Wired.note (h : w.Wired) {o : Occurrence}
    (ho : ∀ i, o.commands i = false) :
    (w.note o).Wired := by
  refine { controllers := h.controllers, labels := h.labels,
           subscriptions := h.subscriptions,
           handed := ?_, asked := ?_, flags := ?_ }
  · intro t name j hmem
    rcases List.mem_cons.1 hmem with rfl | hmem
    · exact absurd (ho j) (by simp [Occurrence.commands])
    · exact h.handed hmem
  · intro j hmem
    rcases List.mem_cons.1 hmem with rfl | hmem
    · exact absurd (ho j) (by simp [Occurrence.commands])
    · exact h.asked hmem
  · intro j slot hslot hheld
    rw [h.flags hslot hheld]
    show Reached j w.history ↔ Reached j (o :: w.history)
    rw [reached_cons, ho j]
    simp

/-- Noting a command and raising the flag of the joint that it reaches. -/
theorem Wired.command (h : w.Wired) {o : Occurrence} {j : Nat}
    (hj : j < w.joints.length) (ho : ∀ i, o.commands i = true ↔ i = j)
    (hhanded : ∀ t name, o = .handed t name (.detach j) → w.Admits t name j) :
    ((w.note o).requestDetach j).Wired := by
  have hstill : ((w.note o).requestDetach j).joints.map JointSlot.still =
      w.joints.map JointSlot.still := still_requestDetach _ _
  have hlength := length_of_still hstill
  have hjoint : ∀ i, ((w.note o).requestDetach j).joints[i]? =
      (w.joints[i]?).map fun slot =>
      if j = i then { slot with controller := slot.controller.request } else
          slot :=
    joints_requestDetach (w.note o) j
  refine { controllers := ?_, labels := ?_, subscriptions := ?_,
           handed := ?_, asked := ?_,
           flags := ?_ }
  · intro i slot hslot
    obtain ⟨before, hbefore, heq⟩ := slot_of_still hstill.symm hslot
    exact JointSlot.sound_of_still heq (h.controllers hbefore)
  · intro l i hl
    exact hlength ▸ h.labels hl
  · intro t u i
    refine (h.subscriptions t u i).trans ?_
    constructor
    · rintro ⟨slot, hslot, hlistens⟩
      obtain ⟨after, hafter, heq⟩ := slot_of_still hstill hslot
      exact ⟨after, hafter, hlistens.of_still heq.symm⟩
    · rintro ⟨slot, hslot, hlistens⟩
      obtain ⟨before, hbefore, heq⟩ := slot_of_still hstill.symm hslot
      exact ⟨before, hbefore, hlistens.of_still heq.symm⟩
  · intro t name i hmem
    rcases List.mem_cons.1 hmem with heq | hmem
    · have hij : i = j := (ho i).1 (by simp [← heq, Occurrence.commands])
      subst hij
      exact (hhanded t name heq.symm).of_still hstill
    · exact (h.handed hmem).of_still hstill
  · intro i hmem
    rw [hlength]
    rcases List.mem_cons.1 hmem with heq | hmem
    · have hij : i = j := (ho i).1 (by simp [← heq, Occurrence.commands])
      exact hij ▸ hj
    · exact h.asked hmem
  · intro i slot hslot hheld
    show slot.controller.requested = true ↔ Reached i (o :: w.history)
    rw [reached_cons, ho i]
    rw [hjoint, Option.map_eq_some_iff] at hslot
    obtain ⟨before, hbefore, rfl⟩ := hslot
    by_cases hij : j = i
    · simp [hij, Controller.request]
    · simp only [hij, if_false] at hheld ⊢
      rw [h.flags hbefore hheld]
      simp [Ne.symm hij]

/-! ## Subscribing -/

/-- Subscribing adds one subscriber to one topic of one transport. -/
theorem mem_subscribers_of_subscribe {ref : TransportRef} {topic : String}
    {k : Callback} {e : Endpoint Callback}
    (h : (w.endpoint ref).subscribe topic k = .ok e)
    (ht : w'.transports = w.transports) (t : Nat) (u : String) (c : Callback) :
    c ∈ ((w'.setEndpoint ref e).transport t).subscribers u ↔
      c ∈ (w.transport t).subscribers u ∨
      (ref = .numbered t ∧ u = topic ∧ c = k) := by
  cases ref with
  | refusing => cases h
  | numbered n =>
      have hmap : ((w.transport n).subscribe topic k).map Endpoint.connected =
          .ok e := h
      cases hsub : (w.transport n).subscribe topic k with
      | error cause =>
          rw [hsub] at hmap
          cases hmap
      | ok made =>
          rw [hsub] at hmap
          cases hmap
          have htransport :
              (w'.setEndpoint (.numbered n) (.connected made)).transport t =
              if t = n then made else w.transport t := by
            simp only [setEndpoint, setTransport, transport,
              SortedMap.get?_insert, ht]
            split <;> rfl
          rw [htransport]
          by_cases hn : t = n
          · subst hn
            rw [if_pos rfl, Transport.subscribers_subscribe hsub]
            by_cases hu : u = topic <;> simp [hu]
          · have hne : n ≠ t := fun heq => hn heq.symm
            simp [hn, hne]

/-- Subscribing anything but a joint. -/
theorem Wired.subscribe (h : w.Wired) {ref : TransportRef} {topic : String}
    {k : Callback} {e : Endpoint Callback}
    (hsub : (w.endpoint ref).subscribe topic k = .ok e)
    (hk : ∀ j, k ≠ .detach j) (hj : w'.joints = w.joints)
    (ht : w'.transports = w.transports) (hn : w'.names.joints = w.names.joints)
    (hh : w'.history = w.history) :
    (w'.setEndpoint ref e).Wired := by
  have hw' := h.congr hj (transport_congr ht) hn hh
  have hsame : (w'.setEndpoint ref e).joints = w'.joints ∧
      (w'.setEndpoint ref e).names = w'.names ∧
      (w'.setEndpoint ref e).history = w'.history := by
    unfold setEndpoint
    split <;> exact ⟨rfl, rfl, rfl⟩
  obtain ⟨hjoints, hnames, hhistory⟩ := hsame
  refine { controllers := hjoints ▸ hw'.controllers, labels := ?_,
           subscriptions := ?_,
           handed := ?_, asked := ?_, flags := ?_ }
  · rw [hnames, hjoints]
    exact hw'.labels
  · intro t u j
    rw [mem_subscribers_of_subscribe hsub ht, hjoints, hj,
      ← h.subscriptions t u j]
    simp [Ne.symm (hk j)]
  · rw [hhistory]
    intro t name j hmem
    have hadmits := hw'.handed hmem
    simp only [Admits] at hadmits ⊢
    rwa [hjoints]
  · rw [hhistory, hjoints]
    exact hw'.asked
  · rw [hhistory, hjoints]
    exact hw'.flags

end World

end Linkage
