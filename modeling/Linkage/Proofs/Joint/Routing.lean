import Linkage.Proofs.Text.Trimming
import Linkage.Proofs.World.Onward
import Linkage.Proofs.World.Turns
import Linkage.Proofs.World.Lineage
import Linkage.Proofs.World.Moments
import Mathlib.Data.List.Induction

/-!
# The way of a command

The topic of a joint goes through four hands: it is trimmed when the settings
are read, repaired when the joint is configured, checked when the joint
subscribes, and repaired again by whoever publishes. All four agree, so that a
message reaches the joints whose topic its name can be repaired to, and no
others, and the text that was written for a joint always reaches that joint.

## Main results

* `Topic.sanitize_trim`: a name and its trim are repaired to the same topic.
* `Controller.sanitize_writtenTopic`: what was written for a joint is repaired
  to its topic.
* `Controller.mutes_preUpdate`: on a transport that takes subscriptions no joint
  reports an error.
* `World.routes_of_reachable`: which joints a message reaches.
-/

namespace Linkage

open Act

/-! ## Names -/

namespace Topic

/-- A name and its trim are repaired to the same topic. -/
theorem sanitize_trim (name : String) :
    sanitize (String.ofList (Text.trim name.toList)) = sanitize name := by
  have hrepair : repair (String.ofList (Text.trim name.toList)).toList =
      repair name.toList := by
    simp only [repair, String.toList_ofList, Text.trim_trim]
  unfold sanitize
  rw [hrepair]

end Topic

namespace JointSpec

theorem required_eq_ok_iff {element : Element} {key value : String} :
    required element key = .ok value ↔ element.trimmed? key = some value := by
  unfold required
  cases element.trimmed? key <;> simp

/-- The settings that an element describes. -/
theorem ofElement_eq_ok_iff {element : Element} {spec : JointSpec} :
    ofElement element = .ok spec ↔
      element.trimmed? "parent_link" = some spec.parentLink ∧
        element.trimmed? "child_model" = some spec.childModel ∧
          element.trimmed? "child_link" = some spec.childLink ∧
            element.readOr ScalarType.readFlag? "suppress_child_warning" false =
              .ok spec.suppressChildWarning ∧
              element.trimmed? "topic" = spec.topic := by
  obtain ⟨parentLink, childModel, childLink, topic, suppress⟩ := spec
  simp only [← required_eq_ok_iff]
  unfold ofElement
  cases required element "parent_link" with
  | error cause => simp [bind, Except.bind]
  | ok parentLink' =>
      cases required element "child_model" with
      | error cause => simp [bind, Except.bind]
      | ok childModel' =>
          cases required element "child_link" with
          | error cause => simp [bind, Except.bind]
          | ok childLink' =>
              cases element.readOr ScalarType.readFlag?
                  "suppress_child_warning" false with
              | error cause => simp [bind, Except.bind, Except.mapError]
              | ok suppress' =>
                  simp only [bind, Except.bind, pure, Except.pure,
                    Except.mapError, Except.ok.injEq, JointSpec.mk.injEq]
                  constructor
                  · rintro ⟨h₁, h₂, h₃, h₄, h₅⟩
                    exact ⟨h₁, h₂, h₃, h₅, h₄⟩
                  · rintro ⟨h₁, h₂, h₃, h₅, h₄⟩
                    exact ⟨h₁, h₂, h₃, h₄, h₅⟩

end JointSpec

namespace Controller

/-- The text that a message for a joint may be published under: the override as
it was written if it can be repaired, and the default topic of the model
otherwise. -/
def writtenTopic (element : Element) (modelName : String) : String :=
  match element.text? "topic" with
  | none => JointSpec.defaultTopic modelName
  | some raw =>
      if (Topic.sanitize raw).isSome then raw else
        JointSpec.defaultTopic modelName

/-- What was written for a joint is repaired to the topic that its configuration
chooses. -/
theorem sanitize_writtenTopic {e : Entity} {element : Element} {s : Store}
    {found : Resolution} (h : resolve e element s = .ok found) :
    Topic.sanitize (writtenTopic element (s.nameOrEmpty e)) =
      some found.topic := by
  obtain ⟨-, hspec, -, hfirst⟩ := resolve_eq_ok_iff.1 h
  obtain ⟨-, -, -, -, htopic⟩ := JointSpec.ofElement_eq_ok_iff.1 hspec
  have hsingle : ∀ name,
      [name].findSome? Topic.sanitize = Topic.sanitize name := by
    intro name
    rw [List.findSome?_cons]
    cases Topic.sanitize name <;> rfl
  simp only [JointSpec.topicCandidates, ← htopic, Element.trimmed?,
    Topic.firstValid, List.findSome?_append, hsingle] at hfirst
  unfold writtenTopic
  cases hraw : element.text? "topic" with
  | none => simpa [hraw] using hfirst
  | some raw =>
      simp only [hraw, Option.map_some, Option.toList_some, hsingle,
        Topic.sanitize_trim] at hfirst
      cases hs : Topic.sanitize raw with
      | none => simpa [hs] using hfirst
      | some topic => simpa [hs] using hfirst

/-! ## Subscriptions -/

section Subscriptions

variable {κ : Type} {callback : κ} {x y z : Situation κ}

/-- The second situation has the log of the first with entries that are no
errors. -/
def Mutes (x y : Situation κ) : Prop :=
  ∃ added, y.log = x.log ++ added ∧ ∀ entry ∈ added, entry.level ≠ .error

theorem Mutes.refl (x : Situation κ) : Mutes x x := ⟨[], by simp, by simp⟩

theorem Mutes.trans (h : Mutes x y) (h' : Mutes y z) : Mutes x z := by
  obtain ⟨added, hy, hadded⟩ := h
  obtain ⟨later, hz, hlater⟩ := h'
  refine ⟨added ++ later, by rw [hz, hy, List.append_assoc],
    fun entry hentry => ?_⟩
  rcases List.mem_append.1 hentry with hentry | hentry
  · exact hadded entry hentry
  · exact hlater entry hentry

theorem mutes_entry (entry : LogEntry) (h : y.log = x.log ++ [entry])
    (hlevel : entry.level ≠ .error) : Mutes x y :=
  ⟨[entry], h, fun _ hmem => (List.mem_singleton.1 hmem) ▸ hlevel⟩

theorem exists_of_isValid (t : Transport κ) {topic : String}
    (h : Topic.isValid topic = true) (callback : κ) :
    ∃ u, t.subscribe topic callback = .ok u := by
  unfold Transport.subscribe
  rw [if_pos h]
  exact ⟨_, rfl⟩

/-- A joint with a valid topic is heard by a transport that takes
subscriptions. -/
theorem mutes_fasten {t : Transport κ} (ht : x.endpoint = .connected t)
    (hvalid : Topic.isValid x.controller.topic = true)
    (parentLink childLink : Entity) :
    Mutes x (fasten callback parentLink childLink x) := by
  obtain ⟨u, hu⟩ := exists_of_isValid t hvalid callback
  have hsubscribe : x.endpoint.subscribe x.controller.topic callback =
      .ok (.connected u) := by
    simp [Endpoint.subscribe, ht, hu, Except.map]
  refine mutes_entry
    ⟨.info,
      s!"DetachableJoint subscribing to messages on [{x.controller.topic}]"⟩ ?_
        ?_
  · simp only [fasten, Situation.create, Situation.setJoint,
      Situation.subscribe, hsubscribe, Situation.report]
  · simp

theorem mutes_seek {t : Transport κ} (ht : x.endpoint = .connected t)
    (hvalid : Topic.isValid x.controller.topic = true) (spec : JointSpec)
    (model : Entity) :
    Mutes x (seek callback spec model x) := by
  unfold seek
  cases search spec model x.store with
  | link childLink =>
      unfold attach
      cases x.controller.parentLink with
      | none => exact .refl x
      | some parentLink => exact mutes_fasten ht hvalid parentLink childLink
  | noModel =>
      show Mutes x (if spec.suppressChildWarning then x
        else x.report (modelMissing spec))
      split
      · exact .refl x
      · exact mutes_entry _ rfl (by simp [modelMissing])
  | noLink => exact mutes_entry _ rfl (by simp [linkMissing])

theorem mutes_detach (x : Situation κ) : Mutes x (Controller.detach x) := by
  unfold Controller.detach
  cases x.controller.joint with
  | none => exact .refl x
  | some joint =>
      show Mutes x (if x.controller.requested then _ else x)
      split
      · exact mutes_entry ⟨.debug,
          s!"Removing entity: {joint.text}"⟩ rfl (by simp)
      · exact .refl x

/-- On a transport that takes subscriptions no turn of a joint reports an
error. -/
theorem mutes_preUpdate (hx : x.controller.Sound) {t : Transport κ}
    (ht : x.endpoint = .connected t) : Mutes x (preUpdate callback x) := by
  have hdiscover : x.controller.validConfig = true →
      Mutes x (discover callback x) := by
    intro hv
    unfold discover
    cases x.controller.spec with
    | none => exact .refl x
    | some spec =>
        cases x.controller.model with
        | none => exact .refl x
        | some model => exact mutes_seek ht (hx.topic hv) spec model
  have hfirst :
      Mutes x (if x.controller.validConfig && !x.controller.initialized then
      discover callback x else x) := by
    split
    · next h => exact hdiscover (by simp_all)
    · exact .refl x
  have hsecond : ∀ y : Situation κ, Mutes x y →
      Mutes x (if y.controller.initialized then Controller.detach y
      else y) := by
    intro y hy
    split
    · exact hy.trans (mutes_detach y)
    · exact hy
  exact hsecond _ hfirst

end Subscriptions

end Controller

/-! ## Publishing -/

/-- The joint with its flag up. -/
def JointSlot.flagged (slot : JointSlot) : JointSlot :=
  { slot with controller := slot.controller.request }

instance (slot : JointSlot) (t : Nat) (u : String) :
    Decidable (slot.Listens t u) :=
  inferInstanceAs (Decidable (_ ∧ _ ∧ _))

namespace World

section Publishing

variable (performer : Performer) (number : Nat) (name : String)
  (bytes : List UInt8)

/-- Whoever receives a message and is no joint returns and leaves the joints
alone, where it gets the message after those before it. -/
def LeavesJoints (w : World) (receivers : List Callback) : Prop :=
  ∀ before k later v, receivers = before ++ k :: later → (∀ j, k ≠ .detach j) →
    (before.forM (hand performer number name bytes)).run w = .ok () v →
      ∃ v', (hand performer number name bytes k).run v = .ok () v' ∧
        v'.joints = v.joints

variable {performer number name bytes} {w : World}

/-- If all who receive a message are joints, no other can touch them. -/
theorem leavesJoints_of_joints {receivers : List Callback}
    (h : ∀ k ∈ receivers, ∃ j, k = .detach j) :
    LeavesJoints performer number name bytes w receivers := by
  intro before k later v heq hother _
  obtain ⟨j, hj⟩ := h k (by simp [heq])
  exact absurd hj (hother j)

/-- Handing a message on raises the flags of the joints that it is handed to. -/
theorem joints_of_forM_hand {receivers : List Callback}
    (h : LeavesJoints performer number name bytes w receivers)
    {l later : List Callback} (hl : receivers = l ++ later) :
    ∃ v, (l.forM (hand performer number name bytes)).run w = .ok () v ∧
      ∀ i, v.joints[i]? = (w.joints[i]?).map fun slot =>
        if .detach i ∈ l then slot.flagged else slot := by
  induction l using List.reverseRecOn generalizing later with
  | nil => exact ⟨w, rfl, fun i => by simp⟩
  | append_singleton l k ih =>
      obtain ⟨v, hrun, hjoints⟩ :=
        ih (show receivers = l ++ k :: later by simpa using hl)
      have hlast : ∃ v',
          (hand performer number name bytes k).run v = .ok () v' ∧
          ∀ i, v'.joints[i]? = (v.joints[i]?).map fun slot =>
            if k = .detach i then slot.flagged else slot := by
        by_cases hk : ∃ j, k = .detach j
        · obtain ⟨j, rfl⟩ := hk
          refine ⟨(v.note (.handed number name (.detach j))).requestDetach j,
            rfl, fun i => ?_⟩
          simp only [Callback.detach.injEq]
          exact joints_requestDetach
            (v.note (.handed number name (.detach j))) j i
        · obtain ⟨v', hv', hsame⟩ := h l k later v (by simpa using hl)
            (fun j hj => hk ⟨j, hj⟩) hrun
          refine ⟨v', hv', fun i => ?_⟩
          have hne : k ≠ .detach i := fun hj => hk ⟨i, hj⟩
          simp [hsame, hne]
      obtain ⟨v', hv', hlater⟩ := hlast
      refine ⟨v', ?_, fun i => ?_⟩
      · rw [forM_append, run_bind, hrun]
        show ((hand performer number name bytes k >>= fun _ => pure ()) :
          Act Unit).run v = _
        rw [run_bind, hv']
        rfl
      · rw [hlater, hjoints, Option.map_map]
        congr 1
        funext slot
        by_cases hmem : Callback.detach i ∈ l <;> by_cases hk :
          k = .detach i <;>
          simp [hmem, hk, eq_comm, JointSlot.flagged, Controller.request]

/-- A name that cannot be repaired is refused and reaches nobody. -/
theorem run_publishOn_of_none (h : Topic.sanitize name = none) :
    (publishOn performer number name bytes).run w = .ok (.error ⟨name⟩) w := by
  have hreceivers : (w.transport number).receivers name = .error ⟨name⟩ := by
    simp [Transport.receivers, h]
  unfold publishOn
  rw [run_get_bind, hreceivers]
  rfl

/-- A message reaches the joints that listen to the topic its name is repaired
to. -/
theorem run_publishOn_of_some (hw : w.Wired) {topic : String}
    (htopic : Topic.sanitize name = some topic)
    (h :
      LeavesJoints performer number name bytes w
        ((w.transport number).subscribers topic)) :
    ∃ w' : World, (publishOn performer number name bytes).run w =
        .ok (.ok ((w.transport number).subscribers topic).length) w' ∧
      ∀ i : Nat, w'.joints[i]? = (w.joints[i]?).map fun slot =>
        if slot.Listens number topic then slot.flagged else slot := by
  have hreceivers : (w.transport number).receivers name =
      .ok ((w.transport number).subscribers topic) := by
    simp [Transport.receivers, htopic]
  obtain ⟨w', hrun, hjoints⟩ := joints_of_forM_hand h (List.append_nil _).symm
  refine ⟨w', ?_, fun i => ?_⟩
  · unfold publishOn
    rw [run_get_bind, hreceivers]
    show ((((w.transport number).subscribers topic).forM
      (hand performer number name bytes)
      >>= fun _ => pure (.ok _)) : Act (Except InvalidTopic Nat)).run w = _
    rw [run_bind, hrun]
    rfl
  · rw [hjoints]
    cases hslot : w.joints[i]? with
    | none => rfl
    | some slot =>
        have hlistens : .detach i ∈ (w.transport number).subscribers topic ↔
            slot.Listens number topic := by
          rw [hw.subscriptions, hslot]
          simp
        simp only [Option.map_some, hlistens]

end Publishing

/-! ## Routes -/

/-- A deed that configures a joint for the first time, for an entity and with an
element, on a store. -/
inductive Configures (u : World) (j : Nat) (e : Entity)
    (element : Element) (s : Store) :
    Deed → Prop
  | alone {ref : StoreRef} {slot : JointSlot} (there : u.joints[j]? = some slot)
      (first : slot.controller.configured = false)
      (on : u.store? ref = some s) :
      Configures u j e element s (.configure j ref e element)
  | enrolled {r : Nat} {label : Option String} {transport : TransportRef}
      {runner : Runner} (fresh : j = u.joints.length)
      (there : u.runner? r = some runner) (on : runner.store = s) :
      Configures u j e element s (.enrol r label transport e element)

/-- A joint that is configured is there. -/
theorem exists_slot_of_configures {u : World} {j : Nat} {e : Entity}
    {element : Element} {s : Store} {d : Deed}
    (h : u.Configures j e element s d) :
    ∃ slot, (d.apply u).joints[j]? = some slot := by
  have hlength : ∀ {v : World}, j < v.joints.length →
      ∃ slot, v.joints[j]? = some slot :=
    fun hj => ⟨_, List.getElem?_eq_getElem hj⟩
  cases h with
  | alone there first on =>
      refine hlength ?_
      simp only [Deed.apply, length_configureJoint]
      exact (List.getElem?_eq_some_iff.1 there).1
  | @enrolled r label transport runner fresh there on =>
      refine hlength ?_
      obtain ⟨entries, heq⟩ := left_enrol r label transport e element u
      obtain ⟨names, -, hadd⟩ := left_addJoint label transport u
      simp only [Deed.apply, heq, joints_register, length_configureJoint]
      show j < ((Session.addJoint label transport).left u).joints.length
      rw [hadd, fresh, List.length_append]
      exact Nat.lt_succ_self _

/-- A joint that is valid after its first configuration listens on the topic
that was found. -/
theorem exists_resolution_of_configures {u : World} (hu : u.Sound)
    {j : Nat} {e : Entity} {element : Element} {s : Store} {d : Deed}
    (h : u.Configures j e element s d) {slot : JointSlot}
    (hslot : (d.apply u).joints[j]? = some slot) :
    slot.controller.configured = true ∧ (slot.controller.validConfig = true →
      ∃ found, Controller.resolve e element s = .ok found ∧
        slot.controller.topic = found.topic) := by
  obtain ⟨c, hc, hfirst, hconfigured⟩ : ∃ c : Controller, c.Sound ∧
      c.configured = false ∧
      slot.controller = (c.configure e element s).1 := by
    cases h with
    | @alone ref before there first on =>
        refine ⟨before.controller, hu.wired.controllers there, first, ?_⟩
        have hleft : (configureJoint j ref e element).left u =
            (u.setController j
              (before.controller.configure e element s).1).report
              (before.controller.configure e element s).2 := by
          simp only [configureJoint, left_modify, there, on]
        have hjoints := joints_setController u j
          (before.controller.configure e element s).1 j
        simp only [Deed.apply, hleft] at hslot
        have hset := hjoints.symm.trans hslot
        rw [there, Option.map_some, if_pos rfl, Option.some.injEq] at hset
        exact (congrArg JointSlot.controller hset).symm
    | @enrolled r label transport runner fresh there on =>
        subst fresh on
        exact ⟨{}, Controller.sound_new, rfl, slot_of_enrol there hslot⟩
  have hinvalid : c.validConfig = false := by
    by_contra hv
    have hdone := hc.configured (by simpa using hv)
    rw [hfirst] at hdone
    cases hdone
  rw [hconfigured]
  unfold Controller.configure
  rw [hfirst, if_neg Bool.false_ne_true]
  cases hr : Controller.resolve e element s with
  | error cause => exact ⟨rfl, fun hv => absurd hv (by simp [hinvalid])⟩
  | ok found => exact ⟨rfl, fun _ => ⟨found, rfl, rfl⟩⟩

/-- What is settled about a joint that has been configured is settled for
good. -/
theorem Path.settled {P : World → Deed → Prop} {u v : World}
    (h : Path P u v) {j : Nat} {slot : JointSlot}
    (hslot : u.joints[j]? = some slot) (hc : slot.controller.configured = true)
    {slot' : JointSlot} (hslot' : v.joints[j]? = some slot') :
    slot'.controller.settled = slot.controller.settled := by
  induction h generalizing slot' with
  | refl =>
      cases hslot.symm.trans hslot'
      rfl
  | react _ reaction ih =>
      obtain ⟨before, hbefore, hstill⟩ :=
        slot_of_still reaction.joints.symm hslot'
      rw [← ih hbefore]
      exact (settled_of_still hstill).symm
  | @deed v d before allowed ih =>
      have hj : j < v.joints.length :=
        Nat.lt_of_lt_of_le (List.getElem?_eq_some_iff.1 hslot).1
          before.onward.joints
      obtain ⟨middle, hmiddle, hkept⟩ := slot_of_deed hj hslot'
      have hsettled := ih hmiddle
      have hconfigured : middle.controller.settled.configured = true := by
        rw [hsettled]
        exact hc
      rw [hkept hconfigured, hsettled]

/-- The text that was written for a joint, when it was first configured, is
repaired to the topic of the joint ever after. -/
theorem sanitize_writtenTopic_of_configures {P : World → Deed → Prop}
    {u : World} (hu : u.Sound) {j : Nat} {e : Entity} {element : Element}
    {s : Store} {d : Deed} (h : u.Configures j e element s d)
    (hpath : Path P (d.apply u) w) (hw : w.Sound) {slot : JointSlot}
    (hslot : w.joints[j]? = some slot)
    (hi : slot.controller.initialized = true) :
    Topic.sanitize (Controller.writtenTopic element (s.nameOrEmpty e)) =
      some slot.controller.topic := by
  obtain ⟨first, hfirst⟩ := exists_slot_of_configures h
  obtain ⟨hconfigured, hresolved⟩ := exists_resolution_of_configures hu h hfirst
  have hsettled := hpath.settled hfirst hconfigured hslot
  have hvalid : slot.controller.validConfig = true :=
    (hw.wired.controllers hslot).valid hi
  have hsame : first.controller.validConfig = slot.controller.validConfig :=
    (congrArg Controller.validConfig hsettled).symm
  obtain ⟨found, hfound, htopic⟩ := hresolved (hsame.trans hvalid)
  have hkept : slot.controller.settled.topic =
      first.controller.settled.topic := by rw [hsettled]
  have hsametopic : slot.controller.topic = first.controller.topic := hkept
  rw [Controller.sanitize_writtenTopic hfound, hsametopic, htopic]

/-- The routes of commands in a world. Joints over a numbered transport are
subscribed once they are attached and never fail to subscribe; a message whose
name cannot be repaired reaches nobody, and any other one exactly the attached
joints of its topic, unless others touch the joints; and what was written for a
joint reaches it. -/
structure Routes (w : World) : Prop where
  subscribed : ∀ {j : Nat} {slot : JointSlot} {t : Nat},
    w.joints[j]? = some slot →
    slot.transport = .numbered t → slot.controller.initialized = true →
      .detach j ∈ (w.transport t).subscribers slot.controller.topic
  mutes : ∀ {j : Nat} {slot : JointSlot} {t : Nat} (ref : StoreRef),
    w.joints[j]? = some slot →
    slot.transport = .numbered t →
      ∃ added, ((updateJoint j ref).left w).log = w.log ++ added ∧
      ∀ entry ∈ added, entry.level ≠ .error
  refused : ∀ (depth t : Nat) {name : String} (bytes : List UInt8),
    Topic.sanitize name = none →
      (publishOn (perform depth) t name bytes).run w = .ok (.error ⟨name⟩) w
  reached : ∀ (depth t : Nat) {name topic : String} (bytes : List UInt8),
    Topic.sanitize name = some topic →
      LeavesJoints (perform depth) t name bytes w
        ((w.transport t).subscribers topic) →
        ∃ w' : World, (publishOn (perform depth) t name bytes).run w =
            .ok (.ok ((w.transport t).subscribers topic).length) w' ∧
          ∀ i : Nat, w'.joints[i]? = (w.joints[i]?).map fun slot =>
            if slot.Listens t topic then slot.flagged else slot
  written : ∀ {P : World → Deed → Prop} {u : World} {j : Nat} {e : Entity}
    {element : Element}
    {s : Store} {d : Deed} {slot : JointSlot} {t : Nat} (depth : Nat)
    (bytes : List UInt8),
    u.Reachable → u.Configures j e element s d → Path P (d.apply u) w →
      w.joints[j]? = some slot → slot.Listens t slot.controller.topic →
        LeavesJoints (perform depth) t
            (Controller.writtenTopic element (s.nameOrEmpty e)) bytes w
            ((w.transport t).subscribers slot.controller.topic) →
          ∃ (n : Nat) (w' : World), (publishOn (perform depth) t
              (Controller.writtenTopic element (s.nameOrEmpty e)) bytes).run w =
                .ok (.ok n) w' ∧
            w'.joints[j]? = some slot.flagged

theorem log_setEndpoint (w : World) (ref : TransportRef)
    (e : Endpoint Callback) :
    (w.setEndpoint ref e).log = w.log := by
  obtain ⟨transports, heq⟩ := setEndpoint_eq w ref e
  rw [heq]

/-- The turn of a joint over a numbered transport logs no error. -/
theorem log_updateJoint (hw : w.Sound) {j : Nat} {slot : JointSlot} {t : Nat}
    (ref : StoreRef) (hslot : w.joints[j]? = some slot)
    (ht : slot.transport = .numbered t) :
    ∃ added, ((updateJoint j ref).left w).log = w.log ++ added ∧
      ∀ entry ∈ added, entry.level ≠ .error := by
  unfold updateJoint
  rw [left_modify, hslot]
  cases hs : w.store? ref with
  | none => exact ⟨[], by simp, by simp⟩
  | some s =>
      have hconnected : (w.situation slot s).endpoint =
          .connected (w.transport t) := by
        simp only [situation, ht]
        rfl
      have hmutes : Controller.Mutes (w.situation slot s)
          (Controller.preUpdate (.detach j) (w.situation slot s)) :=
        Controller.mutes_preUpdate (hw.wired.controllers hslot) hconnected
      obtain ⟨added, hlog, hadded⟩ := hmutes
      have hnew : (Controller.preUpdate (.detach j) (w.situation slot s)).log =
          added := hlog
      refine ⟨added, ?_, hadded⟩
      show (((w.setController j _).setStore ref _).setEndpoint slot.transport
        _).log ++ _ = _
      rw [log_setEndpoint, log_setStore]
      exact congrArg (w.log ++ ·) hnew

/-- The routes of commands in every world that is reached. -/
theorem routes_of_reachable {w : World} (h : w.Reachable) : w.Routes where
  subscribed hslot ht hi :=
  (h.sound.wired.subscriptions _ _ _).2 ⟨_, hslot, ht, hi, rfl⟩
  mutes ref hslot ht := log_updateJoint h.sound ref hslot ht
  refused depth t name bytes := run_publishOn_of_none
  reached depth t name topic bytes := run_publishOn_of_some h.sound.wired
  written depth bytes hu hconfigures hpath hslot hlistens hleaves := by
    have hname := sanitize_writtenTopic_of_configures hu.sound hconfigures
      hpath h.sound hslot hlistens.2.1
    obtain ⟨w', hrun, hjoints⟩ :=
      run_publishOn_of_some h.sound.wired hname hleaves
    refine ⟨_, w', hrun, ?_⟩
    rw [hjoints, hslot, Option.map_some, if_pos hlistens]

/-- Two joints on one transport, of which a message reaches the one that it was
written for. -/
theorem routes_of_two_joints :
    let requests : List Request :=
      [⟨.runner 0, .makeRunner none defaultStep none⟩,
      ⟨.runner 0, .act (.onStore (.spawn "my car" ["body"] (some "car")))⟩,
      ⟨.runner 0, .act (.onStore (.spawn "cart" ["eye"] none))⟩,
      ⟨.runner 0, .addSystem 0 (.joint none (.numbered 0)) (.label "car")
        ((Session.jointElement "body" "cart" "eye").withParam "topic"
          (.text " tow//the bar@ "))⟩,
      ⟨.runner 0, .addSystem 0 (.joint none (.numbered 0)) (.label "car")
        (Session.jointElement "body" "cart" "eye")⟩,
      ⟨.runner 0, .step 0⟩]
    let w := Session.after {} requests
    w.Reachable ∧ w.joints.map (·.controller.topic) =
        ["tow/the_bar", "/model/my_car/detachable_joint/detach"] ∧
      w.Routes ∧ ∃ w' : World,
        (publishOn (perform 1) 0 " tow//the bar@ " []).run w = .ok (.ok 1) w' ∧
          w'.joints.map (·.controller.requested) = [true, false] := by
  intro requests w
  have hreachable : w.Reachable := Session.reachable_after requests
  have hsubscribers : (w.transport 0).subscribers "tow/the_bar" =
      [.detach 0] := by
    decide +kernel
  have hsanitize : Topic.sanitize " tow//the bar@ " = some "tow/the_bar" := by
    decide +kernel
  have halone : LeavesJoints (perform 1) 0 " tow//the bar@ " [] w
      ((w.transport 0).subscribers "tow/the_bar") :=
    leavesJoints_of_joints (by simp [hsubscribers])
  obtain ⟨w', hrun, hjoints⟩ :=
    (routes_of_reachable hreachable).reached 1 0 [] hsanitize halone
  rw [hsubscribers] at hrun
  have hlist : w'.joints = w.joints.map fun slot =>
      if slot.Listens 0 "tow/the_bar" then slot.flagged else slot :=
    List.ext_getElem? fun i => by rw [hjoints, List.getElem?_map]
  refine ⟨hreachable, by decide +kernel,
    routes_of_reachable hreachable, w', hrun, ?_⟩
  rw [hlist]
  decide +kernel

end World

end Linkage
