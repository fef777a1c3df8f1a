import Linkage.Proofs.World.Paths

/-!
# What lasts

Some things are never undone. The history only grows, a runner that is gone does
not come back, systems are only ever added, and nobody comes to own a joint that
was there before. Apart from its flag, an attached joint changes only in a turn
of its own, and not even then once it has let go.

## Main results

* `World.Path.onward`: what lasts on every path.
* `World.steady_deed`: what an attached joint keeps.
-/

namespace Linkage

open Act

namespace World

variable {w w' : World}

/-- Going on from one world to another: nothing that lasts is undone. -/
structure Onward (w w' : World) : Prop where
  history : w.history <:+ w'.history
  runners : w.runners.length ≤ w'.runners.length
  joints : w.joints.length ≤ w'.joints.length
  systems : ∀ {r : Nat} {b : Runner}, w'.runner? r = some b →
    r < w.runners.length →
    ∃ a, w.runner? r = some a ∧ a.systems <+: b.systems
  owns : ∀ {r j : Nat} {b : Runner}, w'.runner? r = some b → j ∈ b.jointIds →
    j < w.joints.length → ∃ a, w.runner? r = some a ∧ j ∈ a.jointIds

theorem onward_chained : Chained Onward :=
  { refl := fun w =>
      { history := List.suffix_refl _, runners := Nat.le_refl _,
        joints := Nat.le_refl _,
        systems := fun {r b} hb _ => ⟨b, hb, List.prefix_refl _⟩
        owns := fun {r j b} hb hj _ => ⟨b, hb, hj⟩ }
    trans := fun {w₁ w₂ w₃} h h' => by
      refine { history := h.history.trans h'.history,
               runners := Nat.le_trans h.runners h'.runners,
               joints := Nat.le_trans h.joints h'.joints,
               systems := ?_, owns := ?_ }
      · intro r c hc hr
        obtain ⟨b, hb, hbc⟩ := h'.systems hc (Nat.lt_of_lt_of_le hr h.runners)
        obtain ⟨a, ha, hab⟩ := h.systems hb hr
        exact ⟨a, ha, hab.trans hbc⟩
      · intro r j c hc hj hlt
        obtain ⟨b, hb, hjb⟩ := h'.owns hc hj (Nat.lt_of_lt_of_le hlt h.joints)
        exact h.owns hb hjb hlt }

/-- It is enough that every runner has the systems that it had before. -/
theorem Onward.of_runners (hh : w.history <:+ w'.history)
    (hl : w.runners.length ≤ w'.runners.length)
    (hj : w.joints.length ≤ w'.joints.length)
    (hr : ∀ {r : Nat} {b : Runner}, w'.runner? r = some b →
      ∃ a, w.runner? r = some a ∧ b.systems = a.systems) : w.Onward w' := by
  refine { history := hh, runners := hl, joints := hj,
           systems := ?_, owns := ?_ }
  · intro r b hb _
    obtain ⟨a, ha, heq⟩ := hr hb
    exact ⟨a, ha, heq ▸ List.prefix_refl _⟩
  · intro r j b hb hmem _
    obtain ⟨a, ha, heq⟩ := hr hb
    have hids : b.jointIds = a.jointIds :=
      congrArg (·.filterMap System.joint?) heq
    exact ⟨a, ha, hids ▸ hmem⟩

theorem Reaction.onward (h : w.Reaction w') : w.Onward w' := by
  refine .of_runners h.history ?_ (Nat.le_of_eq (length_of_still h.joints).symm)
    fun {r b} hb => ?_
  · have hlength := congrArg List.length h.runners
    rw [List.length_map, List.length_map] at hlength
    exact Nat.le_of_eq hlength.symm
  · obtain ⟨a, ha, hstill⟩ := h.runner? hb
    exact ⟨a, ha, (Runner.systems_of_still hstill).symm⟩

/-! ## Every deed -/

theorem length_setRunner (w : World) (r : Nat) (x : Option Runner) :
    (w.setRunner r x).runners.length = w.runners.length :=
  List.length_set

theorem length_setStore (w : World) (ref : StoreRef) (s : Store) :
    (w.setStore ref s).runners.length = w.runners.length := by
  unfold setStore
  split
  · rfl
  · split
    · exact length_setRunner w _ _
    · rfl

/-- The systems of runners after another store is in place. -/
theorem systems_setStore {ref : StoreRef} {s : Store} {r : Nat} {b : Runner}
    (h : (w.setStore ref s).runner? r = some b) :
    ∃ a, w.runner? r = some a ∧ b.systems = a.systems := by
  rw [runner?_setStore, Option.map_eq_some_iff] at h
  obtain ⟨a, ha, rfl⟩ := h
  refine ⟨a, ha, ?_⟩
  split <;> rfl

theorem onward_setStore (w : World) (ref : StoreRef) (s : Store) :
    w.Onward (w.setStore ref s) := by
  have hjoints := congrArg List.length (joints_setStore w ref s)
  exact .of_runners (history_setStore w ref s ▸ List.suffix_refl _)
    (Nat.le_of_eq (length_setStore w ref s).symm) (Nat.le_of_eq hjoints.symm)
      systems_setStore

theorem onward_settle (w : World) (j : Nat) (ref : StoreRef) (t : TransportRef)
    (y : Controller.Situation Callback) : w.Onward (w.settle j ref t y) := by
  have hjoints : (w.settle j ref t y).joints.length = w.joints.length := by
    rw [joints_settle, length_setController]
  refine .of_runners (history_settle w j ref t y ▸ List.suffix_refl _) ?_
    (Nat.le_of_eq hjoints.symm) fun {r b} hb => ?_
  · obtain ⟨transports, h⟩ := setEndpoint_eq
      ((w.setController j y.controller).setStore ref y.store) t y.endpoint
    unfold settle
    rw [h]
    exact Nat.le_of_eq
      (length_setStore (w.setController j y.controller) ref y.store).symm
  · rw [runner?_settle] at hb
    exact systems_setStore hb

theorem onward_configure (w : World) (j : Nat) (ref : StoreRef) (e : Entity)
    (element : Element) :
    w.Onward ((configureJoint j ref e element).left w) := by
  rcases left_configureJoint j ref e element w with
    heq | ⟨slot, s, log, -, -, heq⟩
  · rw [heq]
    exact onward_chained.refl w
  · have hjoints :=
      length_setController w j (slot.controller.configure e element s).1
    rw [heq]
    exact .of_runners (List.suffix_refl _) (Nat.le_refl _)
      (Nat.le_of_eq hjoints.symm) fun {r b} hb => ⟨b, hb, rfl⟩

theorem onward_makeJoint (w : World) (label : Option String)
    (transport : TransportRef) :
    w.Onward ((Session.addJoint label transport).left w) := by
  obtain ⟨names, -, heq⟩ := left_addJoint label transport w
  rw [heq]
  refine .of_runners (List.suffix_refl _) (Nat.le_refl _) ?_ fun {r b} hb =>
    ⟨b, hb, rfl⟩
  simp

/-- Registering a system that is not a joint which was there before. -/
theorem onward_register {v : World} (h : w.Onward v) (q : Nat) {system : System}
    (hs : ∀ j, system.joint? = some j → w.joints.length ≤ j) :
    w.Onward (v.register q system) := by
  have hsystems : ∀ {r : Nat} {b : Runner},
      (v.register q system).runner? r = some b → r < w.runners.length →
      ∃ a, w.runner? r = some a ∧ a.systems <+: b.systems := by
    intro r b hb hr
    rcases runner?_register hb with hb | ⟨-, x, hx, rfl⟩
    · exact h.systems hb hr
    · obtain ⟨a, ha, hpre⟩ := h.systems hx hr
      exact ⟨a, ha, hpre.trans (List.prefix_append _ _)⟩
  have howns : ∀ {r j : Nat} {b : Runner},
      (v.register q system).runner? r = some b →
      j ∈ b.jointIds → j < w.joints.length → ∃ a, w.runner? r = some a ∧
      j ∈ a.jointIds := by
    intro r j b hb hj hlt
    rcases runner?_register hb with hb | ⟨-, x, hx, rfl⟩
    · exact h.owns hb hj hlt
    · rw [jointIds_concat, List.mem_append, Option.mem_toList] at hj
      rcases hj with hj | hj
      · exact h.owns hx hj hlt
      · exact absurd (hs j hj) (Nat.not_le_of_lt hlt)
  obtain ⟨runners, hlength, heq⟩ := register_eq v q system
  rw [heq] at hsystems howns ⊢
  exact { history := h.history, runners := hlength ▸ h.runners,
          joints := h.joints,
          systems := hsystems, owns := howns }

theorem onward_enrol (w : World) (q : Nat) (label : Option String)
    (transport : TransportRef) (e : Entity) (element : Element) :
    w.Onward ((Session.addJoint label transport >>= fun j =>
      addSystem q (.joint j) e element).left w) := by
  obtain ⟨entries, heq⟩ := left_enrol q label transport e element w
  rw [heq]
  refine onward_register ?_ q fun j hj => ?_
  · have hmade := onward_makeJoint w label transport
    have hreport : ((Session.addJoint label transport).left w).Onward
        (((Session.addJoint label transport).left w).report entries) :=
      .of_runners (List.suffix_refl _) (Nat.le_refl _) (Nat.le_refl _)
        fun {r b} hb => ⟨b, hb, rfl⟩
    exact onward_chained.trans hmade
      (onward_chained.trans hreport (onward_configure _ _ _ _ _))
  · cases hj
    exact Nat.le_refl _

theorem onward_makeRunner (w : World) (b : Nat) (dt : Duration) :
    w.Onward ((makeRunner b dt).left w) := by
  obtain ⟨runner, -, hsystems, heq⟩ := left_makeRunner b dt w
  have hrunner : ∀ r, ((makeRunner b dt).left w).runner? r =
      if r = w.runners.length then some runner else w.runner? r := by
    intro r
    rw [heq]
    exact runner?_append w runner r
  have hlength : ((makeRunner b dt).left w).runners.length =
      w.runners.length + 1 := by
    rw [heq]
    exact List.length_append
  refine { history := ?_, runners := by omega, joints := ?_,
           systems := ?_, owns := ?_ }
  · rw [heq]
    exact List.suffix_refl _
  · rw [heq]
    exact Nat.le_refl _
  · intro r x hx hr
    rw [hrunner, if_neg (Nat.ne_of_lt hr)] at hx
    exact ⟨x, hx, List.prefix_refl _⟩
  · intro r j x hx hj _
    rw [hrunner] at hx
    split at hx
    · cases hx
      simp [Runner.jointIds, hsystems] at hj
    · exact ⟨x, hx, hj⟩

theorem onward_dropRunner (w : World) (q : Nat) :
    w.Onward ((dropRunner q).left w) := by
  rcases left_dropRunner q w with heq | ⟨runner, hq, heq⟩
  · rw [heq]
    exact onward_chained.refl w
  · have hrunner : ∀ r, ((dropRunner q).left w).runner? r =
        if r = q then none else w.runner? r := by
      intro r
      rw [heq]
      exact runner?_setRunner_of hq none r
    refine .of_runners ?_ ?_ ?_ fun {r b} hb => ?_
    · rw [heq]
      exact List.suffix_refl _
    · rw [heq]
      exact Nat.le_of_eq (length_setRunner _ q none).symm
    · rw [heq]
      exact Nat.le_refl _
    · rw [hrunner] at hb
      split at hb
      · cases hb
      · exact ⟨b, hb, rfl⟩

/-- No deed undoes what lasts. -/
theorem onward_deed (w : World) (d : Deed) : w.Onward (d.apply w) := by
  cases d with
  | call ref op =>
      show w.Onward ((callStore ref op).left w)
      rcases left_callStore ref op w with heq | ⟨s, reply, names, s', -, -, heq⟩
      · rw [heq]
        exact onward_chained.refl w
      · have hset := onward_setStore w ref s'
        rw [heq]
        refine onward_chained.trans hset ?_
        exact .of_runners (List.suffix_refl _) (Nat.le_refl _) (Nat.le_refl _)
          fun {r b} hb => ⟨b, hb, rfl⟩
  | copy ref target =>
      simp only [Deed.apply]
      cases w.store? ref with
      | none => exact onward_chained.refl w
      | some s => exact onward_setStore w _ s
  | turn j ref =>
      show w.Onward ((updateJoint j ref).left w)
      rcases left_updateJoint j ref w with heq | ⟨slot, s, y, -, -, -, heq⟩
      · rw [heq]
        exact onward_chained.refl w
      · rw [heq]
        exact onward_settle w j ref slot.transport y
  | configure j ref e element => exact onward_configure w j ref e element
  | sweep r =>
      show w.Onward ((applyRemovals r).left w)
      rcases left_applyRemovals r w with ⟨-, heq⟩ | ⟨s, -, heq⟩
      · rw [heq]
        exact onward_chained.refl w
      · rw [heq]
        exact onward_setStore w _ _
  | clock r info =>
      simp only [Deed.apply, setClock]
      cases hr : w.runner? r with
      | none => exact onward_chained.refl w
      | some x =>
          refine .of_runners (List.suffix_refl _)
            (Nat.le_of_eq (length_setRunner w r _).symm)
            (Nat.le_refl _) fun {q b} hb => ?_
          rw [runner?_setRunner_of hr] at hb
          split at hb
          · next heq =>
            cases hb
            exact ⟨x, heq ▸ hr, rfl⟩
          · exact ⟨b, hb, rfl⟩
  | makeJoint label transport => exact onward_makeJoint w label transport
  | enrol r label transport e element =>
      exact onward_enrol w r label transport e element
  | enlistScript r name update =>
      exact onward_register (onward_chained.refl w) r fun j hj => by cases hj
  | enlistInert r =>
      exact onward_register (onward_chained.refl w) r fun j hj => by cases hj
  | makeRunner b dt => exact onward_makeRunner w b dt
  | dropRunner r => exact onward_dropRunner w r

/-- Nothing that lasts is undone on a path. -/
theorem Path.onward {P : World → Deed → Prop} {u v : World} (h : Path P u v) :
    u.Onward v := by
  induction h with
  | refl => exact onward_chained.refl u
  | react _ reaction ih => exact onward_chained.trans ih reaction.onward
  | deed _ _ ih => exact onward_chained.trans ih (onward_deed _ _)

/-! ## Attached joints -/

/-- The joint, once it has attached, is the same but for its flag. -/
def Steady (j : Nat) (w w' : World) : Prop :=
  ∀ slot, w.joints[j]? = some slot → slot.controller.initialized = true →
    ∃ slot', w'.joints[j]? = some slot' ∧ slot'.still = slot.still

/-- The joint has attached and let go. -/
def Spent (j : Nat) (w : World) : Prop :=
  ∃ slot, w.joints[j]? = some slot ∧ slot.controller.HasLetGo

theorem initialized_of_still {a b : JointSlot} (h : a.still = b.still) :
    a.controller.initialized = b.controller.initialized := by
  show a.still.controller.initialized = b.still.controller.initialized
  rw [h]

theorem joint_of_still {a b : JointSlot} (h : a.still = b.still) :
    a.controller.joint = b.controller.joint := by
  show a.still.controller.joint = b.still.controller.joint
  rw [h]

theorem steady_reactive (j : Nat) : Reactive (Steady j) :=
  { refl := fun w slot hslot _ => ⟨slot, hslot, rfl⟩
    trans := fun h h' slot hslot hinit => by
      obtain ⟨slot', hslot', hstill⟩ := h slot hslot hinit
      obtain ⟨slot'', hslot'', hstill'⟩ :=
        h' slot' hslot' ((initialized_of_still hstill).trans hinit)
      exact ⟨slot'', hslot'', hstill'.trans hstill⟩
    react := fun h slot hslot _ => slot_of_still h.joints hslot }

theorem Steady.of_joints {j : Nat} (h : w'.joints[j]? = w.joints[j]?) :
    Steady j w w' :=
  fun slot hslot _ => ⟨slot, h.trans hslot, rfl⟩

theorem Steady.spent {j : Nat} (h : Steady j w w') (hspent : w.Spent j) :
    w'.Spent j := by
  obtain ⟨slot, hslot, hinit, hjoint⟩ := hspent
  obtain ⟨slot', hslot', hstill⟩ := h slot hslot hinit
  exact ⟨slot', hslot', (initialized_of_still hstill).trans hinit,
    (joint_of_still hstill).trans hjoint⟩

/-- A turn leaves the other joints alone, and it leaves a joint alone that has
let go. -/
theorem steady_turn {i j : Nat} {ref : StoreRef} (h : i = j → w.Spent j) :
    Steady j w ((updateJoint i ref).left w) := by
  rcases left_updateJoint i ref w with heq | ⟨slot, s, y, hslot, -, hturn, heq⟩
  · rw [heq]
    exact (steady_reactive j).refl w
  · rw [heq]
    by_cases hij : i = j
    · obtain ⟨slot', hslot', hinit, hjoint⟩ := h hij
      subst hij
      rw [hslot] at hslot'
      cases hslot'
      refine .of_joints ?_
      rw [joints_settle, joints_setController, hslot]
      cases hturn with
      | idle _ => simp [situation]
      | attach finds _ =>
          exact absurd (hinit.symm.trans finds.unattached) (by simp)
      | attachAndLetGo finds _ =>
          exact absurd (hinit.symm.trans finds.unattached) (by simp)
      | letGo _ holds _ => exact absurd (hjoint.symm.trans holds) (by simp)
    · refine .of_joints ?_
      rw [joints_settle, joints_setController]
      simp [hij]

theorem steady_configure (hw : w.Sound) (i j : Nat)
    (ref : StoreRef) (e : Entity) (element : Element) :
    Steady j w ((configureJoint i ref e element).left w) := by
  rcases left_configureJoint i ref e element w with
    heq | ⟨slot, s, log, hslot, -, heq⟩
  · rw [heq]
    exact (steady_reactive j).refl w
  · intro slot' hslot' hinit
    rw [heq]
    show ∃ after, (w.setController i _).joints[j]? = some after ∧
      after.still = slot'.still
    rw [joints_setController, hslot']
    refine ⟨_, rfl, ?_⟩
    split
    · next hij =>
      subst hij
      rw [hslot] at hslot'
      cases hslot'
      rw [(configure_same (hw.wired.controllers hslot) e element s).2.2.2 hinit]
    · rfl

theorem steady_makeJoint (j : Nat) (label : Option String)
    (transport : TransportRef) :
    Steady j w ((Session.addJoint label transport).left w) := by
  obtain ⟨names, -, heq⟩ := left_addJoint label transport w
  rw [heq]
  intro slot hslot _
  refine ⟨slot, ?_, rfl⟩
  show (w.joints ++ [({ transport } : JointSlot)])[j]? = some slot
  rw [List.getElem?_append_left (List.getElem?_eq_some_iff.1 hslot).1, hslot]

/-- Apart from its flag an attached joint changes only in a turn of its own, and
not even then once it has let go. -/
theorem steady_deed {j : Nat} (hw : w.Sound) {d : Deed}
    (hturn : ∀ ref, d = .turn j ref → w.Spent j) : Steady j w (d.apply w) := by
  cases d with
  | call ref op =>
      show Steady j w ((callStore ref op).left w)
      rcases left_callStore ref op w with heq | ⟨s, reply, names, s', -, -, heq⟩
      · rw [heq]
        exact (steady_reactive j).refl w
      · rw [heq]
        exact .of_joints (congrArg (·[j]?) (joints_setStore w ref s'))
  | copy ref target =>
      simp only [Deed.apply]
      cases w.store? ref with
      | none => exact (steady_reactive j).refl w
      | some s => exact .of_joints (congrArg (·[j]?) (joints_setStore w _ s))
  | turn i ref =>
      refine steady_turn fun hij => ?_
      exact hturn ref (hij ▸ rfl)
  | configure i ref e element => exact steady_configure hw i j ref e element
  | sweep r =>
      show Steady j w ((applyRemovals r).left w)
      rcases left_applyRemovals r w with ⟨-, heq⟩ | ⟨s, -, heq⟩
      · rw [heq]
        exact (steady_reactive j).refl w
      · rw [heq]
        exact .of_joints (congrArg (·[j]?) (joints_setStore w _ _))
  | clock r info =>
      exact .of_joints (congrArg (·[j]?) (joints_setClock w r info))
  | makeJoint label transport => exact steady_makeJoint j label transport
  | enrol r label transport e element =>
      obtain ⟨entries, heq⟩ := left_enrol r label transport e element w
      show Steady j w ((Session.addJoint label transport >>= fun j =>
        addSystem r (.joint j) e element).left w)
      rw [heq]
      have hmade := (hw.makeJoint label transport).report entries
      have hconfigured :=
        steady_configure hmade w.joints.length j (.runner r) e element
      refine (steady_reactive j).trans (steady_makeJoint j label transport) ?_
      refine (steady_reactive j).trans (.of_joints rfl)
        ((steady_reactive j).trans hconfigured ?_)
      exact .of_joints (congrArg (·[j]?) (joints_register _ r _))
  | enlistScript r name update =>
      exact .of_joints (congrArg (·[j]?) (joints_register w r _))
  | enlistInert r => exact .of_joints (congrArg (·[j]?) (joints_register w r _))
  | makeRunner b dt => exact .of_joints rfl
  | dropRunner r =>
      show Steady j w ((Linkage.dropRunner r).left w)
      rcases left_dropRunner r w with heq | ⟨runner, -, heq⟩
      · rw [heq]
        exact (steady_reactive j).refl w
      · rw [heq]
        exact .of_joints rfl

/-- A joint that has let go stays so. -/
theorem Path.spent {P : World → Deed → Prop} {u v : World} (h : Path P u v)
    (hu : u.Sound) {j : Nat} (hspent : u.Spent j) : v.Spent j := by
  have hR : Chained fun w w' : World => w.Spent j → w'.Spent j :=
    { refl := fun _ => id, trans := fun h h' hw => h' (h hw) }
  refine h.keeps hR (fun _ hreaction hw => ?_)
    (fun hw _ hbefore => ?_) hu hspent
  · exact ((steady_reactive j).react hreaction).spent hw
  · exact (steady_deed hw fun _ _ => hbefore).spent hbefore

end World

end Linkage
