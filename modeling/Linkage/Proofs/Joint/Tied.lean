import Linkage.Proofs.Joint.Ties
import Linkage.Proofs.World.Deeds

/-!
# Joints of a runner and components of its store

A runner may have any number of joints among its systems. What its joints hold
is tied to the components in its store, and every deed that leaves its joints
alone keeps it so, whichever runner or joint the deed is about.

A store that has used up every index but the one that names no entity makes no
further entity that a component can be attached to. The ties are therefore
stated for stores within capacity.

## Main results

* `Tied.turn`: the joints of the runner take their turns.
* `Tied.deed`: a deed that leaves the joints of a runner alone keeps them tied
  to its store.
-/

namespace Linkage

open Act

/-- What a joint holds: its entity and the component for its two links. -/
def Controller.attachment? (c : Controller) : Option (Entity × Joint) :=
  match c.joint, c.parentLink, c.childLink with
  | some e, some parentLink, some childLink =>
      some (e, Joint.fixed parentLink childLink)
  | _, _, _ => none

/-- What the joint of a number holds. -/
def World.held (w : World) (j : Nat) : Option (Entity × Joint) :=
  (w.joints[j]?).bind fun slot => slot.controller.attachment?

/-- What the joints of a runner hold, in the order of its systems. -/
def World.attachments (w : World) (runner : Runner) : List (Entity × Joint) :=
  runner.jointIds.filterMap w.held

/-- The call on a store that an action is. -/
def Action.onStore? : Action → Option StoreAction
  | .onStore op => some op
  | _ => none

/-- What the actions do to stores is mild. -/
def MildScript (script : List Scheduled) : Prop :=
  ∀ a ∈ script, ∀ op ∈ a.action.onStore?, op.Mild

instance (script : List Scheduled) : Decidable (MildScript script) :=
  inferInstanceAs (Decidable (∀ a ∈ script, ∀ op ∈ a.action.onStore?, op.Mild))

namespace World

variable {w w' : World} {r : Nat}

/-- The call sets no joint and does not ask for the removal of an entity that a
joint of the runner holds. -/
def Spares (w : World) (r : Nat) (op : StoreAction) : Prop :=
  op.setsJoint = false ∧ ∀ ref ∈ op.removes?, ∀ e ∈ w.names.entity? ref,
    ∀ runner ∈ w.runner? r, ∀ j ∈ runner.jointIds,
      (w.held j).map Prod.fst ≠ some e

instance (w : World) (r : Nat) (op : StoreAction) : Decidable (w.Spares r op) :=
  inferInstanceAs
    (Decidable (_ ∧ ∀ ref ∈ op.removes?, ∀ e ∈ w.names.entity? ref,
    ∀ runner ∈ w.runner? r, ∀ j ∈ runner.jointIds,
      (w.held j).map Prod.fst ≠ some e))

theorem spares_of_mild {op : StoreAction} (h : op.Mild) : w.Spares r op := by
  refine ⟨h.1, fun ref href => ?_⟩
  rw [h.2] at href
  cases href

/-- The deed leaves the joints of a runner alone, and their components. -/
def Harmless (r : Nat) (w : World) : Deed → Prop
  | .call ref op => ref = .runner r → w.Spares r op
  | .turn j ref =>
      ref = .runner r ↔ ∃ runner, w.runner? r = some runner ∧
      j ∈ runner.jointIds
  | .enlistScript q _ update => q = r → MildScript update
  | _ => True

/-- The joints of a runner are tied to its store, and its other systems are
mild. -/
structure Tied (r : Nat) (w : World) : Prop where
  ties : ∀ {runner : Runner}, w.runner? r = some runner →
    runner.store.WithinCapacity →
    Ties runner.jointIds w.held runner.store
  mild : ∀ {runner : Runner} {name : String} {update : List Scheduled},
    w.runner? r = some runner → .script name update ∈ runner.systems →
    MildScript update

/-! ## What joints hold -/

theorem attachment?_of_none {c : Controller} (h : c.joint = none) :
    c.attachment? = none := by
  simp [Controller.attachment?, h]

theorem held_of_slot {j : Nat} {slot : JointSlot}
    (h : w.joints[j]? = some slot) :
    w.held j = slot.controller.attachment? := by
  simp [held, h]

theorem held_setController (w : World) (j : Nat) (c : Controller) (i : Nat) :
    (w.setController j c).held i =
      if j = i ∧ i < w.joints.length then c.attachment? else w.held i := by
  unfold held
  rw [joints_setController]
  by_cases hlt : i < w.joints.length
  · rw [List.getElem?_eq_getElem hlt]
    by_cases hij : j = i <;> simp [hij, hlt]
  · rw [List.getElem?_eq_none (by omega)]
    simp [hlt]

theorem Limited.held (h : w.Limited w') (j : Nat) : w'.held j = w.held j := by
  have hj := congrArg (·[j]?) h.joints
  simp only [List.getElem?_map] at hj
  unfold World.held
  cases hs : w.joints[j]? with
  | none =>
      rw [hs] at hj
      have hnone : w'.joints[j]? = none := by simpa using hj
      simp [hnone]
  | some slot =>
      obtain ⟨slot', hslot', hstill⟩ := slot_of_still h.joints hs
      have hattachment :
          slot'.still.controller.attachment? =
            slot.still.controller.attachment? := by
        rw [hstill]
      rw [hslot']
      exact hattachment

/-- A sound controller that has a joint knows both its links. -/
theorem attachment?_of_joint {c : Controller} (h : c.Sound) {e : Entity}
    (hj : c.joint = some e) :
    ∃ parentLink childLink, c.parentLink = some parentLink ∧
      c.childLink = some childLink ∧
      c.attachment? = some (e, Joint.fixed parentLink childLink) := by
  have hinit := h.initialized (by simp [hj])
  obtain ⟨p, hp⟩ :=
    Option.isSome_iff_exists.1 (h.parentLink.trans (h.valid hinit))
  obtain ⟨q, hq⟩ := Option.isSome_iff_exists.1 (h.childLink.trans hinit)
  exact ⟨p, q, hp, hq, by simp [Controller.attachment?, hj, hp, hq]⟩

/-- There is no joint after the last. -/
theorem held_length (w : World) : w.held w.joints.length = none := by
  simp [held]

/-! ## Deeds that leave the runner's joints alone -/

/-- The ties go by the runner's joints, what they hold, and its store. -/
theorem Tied.congr (h : w.Tied r)
    (hr : ∀ {b : Runner}, w'.runner? r = some b → ∃ a, w.runner? r = some a ∧
      b.systems = a.systems ∧ b.store = a.store)
    (hheld : ∀ {a : Runner}, w.runner? r = some a → ∀ j ∈ a.jointIds,
      w'.held j = w.held j) :
    w'.Tied r := by
  refine { ties := ?_, mild := ?_ }
  · intro b hb hc
    obtain ⟨a, ha, hsystems, hstore⟩ := hr hb
    have hids : b.jointIds = a.jointIds :=
      congrArg (·.filterMap System.joint?) hsystems
    rw [hids, hstore]
    exact (h.ties ha (hstore ▸ hc)).congr (hheld ha)
  · intro b name update hb hs
    obtain ⟨a, ha, hsystems, -⟩ := hr hb
    exact h.mild ha (hsystems ▸ hs)

theorem Tied.reaction (h : w.Tied r) (hr : w.Limited w') : w'.Tied r := by
  refine h.congr (fun {b} hb => ?_) fun _ j _ => hr.held j
  obtain ⟨a, ha, hstill⟩ := hr.runner? hb
  exact ⟨a, ha, (Runner.systems_of_still hstill).symm,
    (Runner.store_of_still hstill).symm⟩

/-- Another store of the runner in place. -/
theorem Tied.setStore (h : w.Tied r) (ref : StoreRef) (s : Store)
    (hjoints : w'.joints = w.joints)
    (hrunner : ∀ q, w'.runner? q = (w.setStore ref s).runner? q)
    (hties : ref = .runner r → ∀ a, w.runner? r = some a → s.WithinCapacity →
      Ties a.jointIds w.held s) : w'.Tied r := by
  have hheld : w'.held = w.held := by
    funext j
    simp only [held, hjoints]
  by_cases href : ref = .runner r
  · refine { ties := ?_, mild := ?_ }
    · intro b hb hc
      rw [hrunner, runner?_setStore, Option.map_eq_some_iff] at hb
      obtain ⟨a, ha, rfl⟩ := hb
      rw [if_pos href] at hc ⊢
      rw [hheld]
      exact hties href a ha hc
    · intro b name update hb hs
      rw [hrunner, runner?_setStore, Option.map_eq_some_iff] at hb
      obtain ⟨a, ha, rfl⟩ := hb
      rw [if_pos href] at hs
      exact h.mild ha hs
  · refine h.congr (fun {b} hb => ?_) fun _ j _ => congrFun hheld j
    rw [hrunner, runner?_setStore, Option.map_eq_some_iff] at hb
    obtain ⟨a, ha, rfl⟩ := hb
    rw [if_neg href]
    exact ⟨a, ha, rfl, rfl⟩

theorem Tied.call (h : w.Tied r) (hw : w.Sound) (ref : StoreRef)
    (op : StoreAction) (hop : ref = .runner r → w.Spares r op) :
    ((callStore ref op).left w).Tied r := by
  rcases left_callStore ref op w with heq | ⟨s, reply, names, s', hs, hrun, heq⟩
  · rw [heq]
    exact h
  · rw [heq]
    refine h.setStore ref s' (joints_setStore w ref s') (fun _ => rfl) ?_
    rintro rfl a ha hc
    have hsa : s = a.store := by simpa [store?, ha] using hs.symm
    subst hsa
    have hsound := hw.stores hs
    rcases (StoreAction.run?_cases hrun).2 with ⟨calls, rfl, hplain⟩ |
      ⟨target, e, rfl, he, rfl⟩ | ⟨a', b, c, kind, e, joint, rfl, -⟩ | ⟨-, rfl⟩
    · have hslots := Store.slots_length_le_serveAll a.store calls
      have hbefore : a.store.WithinCapacity := Nat.lt_of_le_of_lt hslots hc
      exact (h.ties ha hbefore).plain ⟨calls, rfl, hplain⟩
    · have hbefore : a.store.WithinCapacity := by
        unfold Store.WithinCapacity at hc
        rwa [Store.pool_requestRemoval] at hc
      refine (h.ties ha hbefore).requestRemoval fun j hj k hheld => ?_
      exact (hop rfl).2 target rfl e he a ha j hj (by rw [hheld]; rfl)
    · exact absurd (hop rfl).1 (by simp [StoreAction.setsJoint])
    · have hbefore : a.store.WithinCapacity := by
        unfold Store.WithinCapacity Pool.WithinCapacity at hc ⊢
        rwa [Store.slots_length_applyRemovals] at hc
      exact (h.ties ha hbefore).applyRemovals hsound

theorem Tied.sweep (h : w.Tied r) (hw : w.Sound) (q : Nat) :
    ((applyRemovals q).left w).Tied r := by
  rcases left_applyRemovals q w with ⟨-, heq⟩ | ⟨s, hs, heq⟩
  · rw [heq]
    exact h
  · rw [heq]
    refine h.setStore (.runner q) _ (joints_setStore w _ _) (fun _ => rfl) ?_
    intro href a ha hc
    cases href
    have hsa : s = a.store := by simpa [store?, ha] using hs.symm
    subst hsa
    have hbefore : a.store.WithinCapacity := by
      unfold Store.WithinCapacity Pool.WithinCapacity at hc ⊢
      rwa [Store.slots_length_applyRemovals] at hc
    exact (h.ties ha hbefore).applyRemovals (hw.stores hs)

/-- A runner whose systems grow by one, which is no joint that holds
anything. -/
theorem Tied.register (h : w.Tied r) (q : Nat) {system : System}
    (hs : ∀ j, system.joint? = some j → w.held j = none)
    (hmild : q = r → ∀ name update, system = .script name update →
      MildScript update) :
    (w.register q system).Tied r := by
  have hheld : (w.register q system).held = w.held := by
    funext j
    simp only [held, joints_register]
  refine { ties := ?_, mild := ?_ }
  · intro b hb hc
    rw [hheld]
    rcases runner?_register hb with hb | ⟨-, a, ha, rfl⟩
    · exact h.ties hb hc
    · rw [jointIds_concat]
      cases hj : system.joint? with
      | none => simpa using h.ties ha hc
      | some j => exact (h.ties ha hc).concat (hs j hj)
  · intro b name update hb hmem
    rcases runner?_register hb with hb | ⟨hq, a, ha, rfl⟩
    · exact h.mild hb hmem
    · rcases List.mem_append.1 hmem with hmem | hmem
      · exact h.mild ha hmem
      · exact hmild hq.symm name update (List.mem_singleton.1 hmem).symm

/-! ## Turns -/

theorem held_settle (w : World) (j : Nat) (ref : StoreRef) (t : TransportRef)
    (y : Controller.Situation Callback) (i : Nat) :
    (w.settle j ref t y).held i =
      if j = i ∧ i < w.joints.length then y.controller.attachment? else
          w.held i := by
  rw [← held_setController]
  simp only [held, joints_settle]

/-- A turn of one of several joints on a store that they are tied to. -/
theorem ties_of_turn {ids : List Nat}
    {held held' : Nat → Option (Entity × Joint)}
    {x y : Controller.Situation Callback} {j : Nat} (h : Ties ids held x.store)
    (hs : x.store.Sound) (hsound : x.controller.Sound)
    (hc : y.store.WithinCapacity) (hturn : Controller.Turn (.detach j) x y)
    (hj : j ∈ ids) (hheld : held j = x.controller.attachment?)
    (hheld' : held' j = y.controller.attachment?)
    (hothers : ∀ i ∈ ids, i ≠ j → held' i = held i) :
    Ties ids held' y.store := by
  have hattach : ∀ {parentLink childLink : Entity},
      Controller.Finds x parentLink childLink →
      (x.controller.attachedTo childLink x.store.create.1).attachment? =
        some (x.store.create.1, Joint.fixed parentLink childLink) := by
    intro parentLink childLink finds
    simp [Controller.attachment?, Controller.attachedTo, finds.parent]
  have hunattached : ∀ {parentLink childLink : Entity},
      Controller.Finds x parentLink childLink → held j = none := by
    intro parentLink childLink finds
    rw [hheld]
    exact attachment?_of_none (hsound.joint_eq_none finds.unattached)
  cases hturn with
  | idle _ =>
      refine h.congr fun i hi => ?_
      by_cases hij : i = j
      · rw [hij, hheld, hheld']
      · exact hothers i hi hij
  | attach finds _ =>
      have hcapacity : x.store.create.2.WithinCapacity := by
        unfold Store.WithinCapacity at hc ⊢
        rwa [← Store.pool_attach x.store.create.2]
      exact h.attach hj hothers hs hcapacity (hunattached finds)
        (hheld'.trans (hattach finds))
  | @attachAndLetGo p q before log finds _ =>
      have hcapacity : x.store.create.2.WithinCapacity := by
        have hpool :
            ((x.store.create.2.setJoint x.store.create.1
              (Joint.fixed p q)).requestRemoval
            x.store.create.1).pool = x.store.create.2.pool :=
          (Store.pool_requestRemoval _ _).trans (Store.pool_attach _ _ _)
        show x.store.create.2.pool.WithinCapacity
        rw [← hpool]
        exact hc
      -- between attaching and letting go the joint is held for a moment
      have hmoment : Ties ids
          (fun i => if i = j then some (x.store.create.1, Joint.fixed p q)
          else held i)
          (x.store.create.2.setJoint x.store.create.1 (Joint.fixed p q)) :=
        h.attach hj (fun i _ hij => if_neg hij) hs hcapacity
          (hunattached finds) (if_pos rfl)
      refine hmoment.letGo hj (fun i hi hij => ?_) (hs.create.setJoint _ _)
        (if_pos rfl) ?_
      · rw [if_neg hij]
        exact hothers i hi hij
      · rw [hheld']
        exact attachment?_of_none rfl
  | letGo attached holds _ =>
      obtain ⟨p, q, -, -, hk⟩ := attachment?_of_joint hsound holds
      refine h.letGo hj hothers hs (hheld.trans hk) ?_
      rw [hheld']
      exact attachment?_of_none rfl

theorem Tied.turn (h : w.Tied r) (hw : w.Sound) (j : Nat) (ref : StoreRef)
    (hj : ref = .runner r ↔ ∃ runner, w.runner? r = some runner ∧
      j ∈ runner.jointIds) :
    ((updateJoint j ref).left w).Tied r := by
  rcases left_updateJoint j ref w with heq | ⟨slot, s, y, hslot, hs, hturn, heq⟩
  · rw [heq]
    exact h
  · have hlt := (List.getElem?_eq_some_iff.1 hslot).1
    rw [heq]
    by_cases href : ref = .runner r
    · obtain ⟨a, ha, hmem⟩ := hj.1 href
      have hsa : s = a.store := by
        rw [href] at hs
        simpa [store?, ha] using hs.symm
      have hrunner : (w.settle j ref slot.transport y).runner? r =
          some { a with store := y.store } := by
        rw [runner?_settle, runner?_setStore, ha]
        simp [href]
      refine { ties := ?_, mild := ?_ }
      · intro b hb hc
        rw [hrunner] at hb
        cases hb
        have hbefore : s.WithinCapacity :=
          Nat.lt_of_le_of_lt (Controller.slots_length_le_turn hturn) hc
        have hties : Ties a.jointIds w.held s := hsa ▸ h.ties ha (hsa ▸ hbefore)
        refine ties_of_turn (x := w.situation slot s) hties (hw.stores hs)
          (hw.wired.controllers hslot) hc hturn hmem (held_of_slot hslot) ?_ ?_
        · rw [held_settle, if_pos ⟨rfl, hlt⟩]
        · intro i _ hij
          rw [held_settle, if_neg fun hboth => hij hboth.1.symm]
      · intro b name update hb hmem'
        rw [hrunner] at hb
        cases hb
        exact h.mild ha hmem'
    · refine h.congr (fun {b} hb => ?_) fun {a} ha i hi => ?_
      · rw [runner?_settle, runner?_setStore, Option.map_eq_some_iff] at hb
        obtain ⟨a, ha, rfl⟩ := hb
        rw [if_neg href]
        exact ⟨a, ha, rfl, rfl⟩
      · have hij : j ≠ i := by
          rintro rfl
          exact href (hj.2 ⟨a, ha, hi⟩)
        rw [held_settle, if_neg fun hboth => hij hboth.1]

/-! ## Every deed -/

/-- A configuration changes nothing that is held: a joint is configured before
it attaches. -/
theorem held_configureJoint (hw : w.Sound) (j : Nat)
    (ref : StoreRef) (e : Entity) (element : Element) (i : Nat) :
    ((configureJoint j ref e element).left w).held i = w.held i := by
  rcases left_configureJoint j ref e element w with
    heq | ⟨slot, s, log, hslot, -, heq⟩
  · rw [heq]
  · rw [heq]
    have hsound := hw.wired.controllers hslot
    obtain ⟨hinit, hjoint, -, hsame⟩ := configure_same hsound e element s
    show (w.setController j _).held i = w.held i
    rw [held_setController]
    split
    · next hi =>
      rw [← hi.1, held_of_slot hslot]
      cases hattached : slot.controller.initialized with
      | true => rw [hsame hattached]
      | false =>
          have hnone := hsound.joint_eq_none hattached
          rw [attachment?_of_none hnone,
            attachment?_of_none (hjoint.trans hnone)]
    · rfl

theorem Tied.configure (h : w.Tied r) (hw : w.Sound) (j : Nat)
    (ref : StoreRef) (e : Entity) (element : Element) :
    ((configureJoint j ref e element).left w).Tied r := by
  refine h.congr (fun {b} hb => ⟨b, ?_, rfl, rfl⟩) fun _ i _ =>
    held_configureJoint hw j ref e _ i
  rwa [runner?_configureJoint] at hb

theorem held_addJoint (w : World) (label : Option String)
    (transport : TransportRef) (j : Nat) :
    ((Session.addJoint label transport).left w).held j = w.held j := by
  obtain ⟨names, -, heq⟩ := left_addJoint label transport w
  rw [heq]
  simp only [held]
  rcases Nat.lt_trichotomy j w.joints.length with hlt | rfl | hgt
  · rw [List.getElem?_append_left hlt]
  · simp [attachment?_of_none]
  · rw [List.getElem?_eq_none (by simp; omega),
      List.getElem?_eq_none (by omega)]

theorem Tied.makeJoint (h : w.Tied r) (label : Option String)
    (transport : TransportRef) :
    ((Session.addJoint label transport).left w).Tied r := by
  refine h.congr (fun {b} hb => ?_) fun _ j _ =>
    held_addJoint w label transport j
  obtain ⟨names, -, heq⟩ := left_addJoint label transport w
  rw [heq] at hb
  exact ⟨b, hb, rfl, rfl⟩

theorem Tied.enrol (h : w.Tied r) (hw : w.Sound) (q : Nat)
    (label : Option String) (transport : TransportRef) (e : Entity)
    (element : Element) :
    ((Session.addJoint label transport >>= fun j =>
      addSystem q (.joint j) e element).left w).Tied r := by
  obtain ⟨entries, heq⟩ := left_enrol q label transport e element w
  rw [heq]
  have hmade := (hw.makeJoint label transport).report entries
  have htied :
      (((Session.addJoint label transport).left w).report entries).Tied r :=
    (h.makeJoint label transport).congr (fun {b} hb => ⟨b, hb, rfl, rfl⟩)
      fun _ _ _ => rfl
  refine (htied.configure hmade w.joints.length (.runner q) e element).register
    q (fun j hj => ?_) fun _ _ _ heq => by cases heq
  obtain rfl := Option.some.inj hj
  rw [held_configureJoint hmade]
  exact (held_addJoint w label transport w.joints.length).trans (held_length w)

theorem Tied.makeRunner (h : w.Tied r) (b : Nat) (dt : Duration) :
    ((makeRunner b dt).left w).Tied r := by
  obtain ⟨runner, hstore, hsystems, heq⟩ := left_makeRunner b dt w
  have hrunner : ∀ q, ((Linkage.makeRunner b dt).left w).runner? q =
      if q = w.runners.length then some runner else w.runner? q := by
    intro q
    rw [heq]
    exact runner?_append w runner q
  have hheld : ((Linkage.makeRunner b dt).left w).held = w.held := by
    rw [heq]
    rfl
  refine { ties := ?_, mild := ?_ }
  · intro a ha hc
    rw [hrunner] at ha
    split at ha
    · cases ha
      have hids : runner.jointIds = [] := by simp [Runner.jointIds, hsystems]
      rw [hids, hstore]
      exact Ties.nil
    · rw [hheld]
      exact h.ties ha hc
  · intro a name update ha hmem
    rw [hrunner] at ha
    split at ha
    · cases ha
      rw [hsystems] at hmem
      cases hmem
    · exact h.mild ha hmem

theorem Tied.dropRunner (h : w.Tied r) (q : Nat) :
    ((dropRunner q).left w).Tied r := by
  rcases left_dropRunner q w with heq | ⟨runner, hq, heq⟩
  · rw [heq]
    exact h
  · rw [heq]
    refine h.congr (fun {b} hb => ?_) fun _ _ _ => rfl
    have hb' : (w.setRunner q none).runner? r = some b := hb
    rw [runner?_setRunner_of hq] at hb'
    split at hb'
    · cases hb'
    · exact ⟨b, hb', rfl, rfl⟩

/-- A deed that leaves the joints of a runner alone keeps them tied to its
store. -/
theorem Tied.deed (h : w.Tied r) (hw : w.Sound) {d : Deed}
    (hd : w.Harmless r d) :
    (d.apply w).Tied r := by
  cases d with
  | call ref op => exact h.call hw ref op hd
  | copy ref target =>
      simp only [Deed.apply]
      cases w.store? ref with
      | none => exact h
      | some s =>
          exact h.setStore (.standalone target) s (joints_setStore w _ s)
            (fun _ => rfl) fun heq => by cases heq
  | turn j ref => exact h.turn hw j ref hd
  | configure j ref e element => exact h.configure hw j ref e element
  | sweep q => exact h.sweep hw q
  | clock q info =>
      simp only [Deed.apply, setClock]
      cases hq : w.runner? q with
      | none => exact h
      | some x =>
          refine h.congr (fun {b} hb => ?_) fun _ _ _ => rfl
          rw [runner?_setRunner_of hq] at hb
          split at hb
          · next hrq =>
            cases hb
            exact ⟨x, hrq ▸ hq, rfl, rfl⟩
          · exact ⟨b, hb, rfl, rfl⟩
  | makeJoint label transport => exact h.makeJoint label transport
  | enrol q label transport e element =>
      exact h.enrol hw q label transport e element
  | enlistScript q name update =>
      refine h.register q (fun j hj => by cases hj)
        fun hq name' update' heq => ?_
      cases heq
      exact hd hq
  | enlistInert q =>
      exact h.register q (fun j hj => by cases hj) fun _ _ _ heq => by cases heq
  | makeRunner b dt => exact h.makeRunner b dt
  | dropRunner q => exact h.dropRunner q

end World

end Linkage
