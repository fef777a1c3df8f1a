import Linkage.Proofs.World.Safety
import Linkage.Proofs.World.Turns

/-!
# The entity of a joint

From its attaching on a joint holds its entity, until a turn in which a command
has reached it. In that turn it lets go of the entity and asks for its removal,
and the end of the step removes it. As long as nobody else touches the entity
there is nothing in between.

## Main results

* `Custody.spared`: what others do leaves the entity where it is.
* `Custody.turn`, `custody_attach`: a turn of the joint lets go exactly if a
  command has reached it.
* `Custody.finish`: the end of a step removes the entity exactly if the joint
  has let go.
-/

namespace Linkage

open Act

namespace World

variable {w w' : World} {r p q j : Nat} {e : Entity} {held : Bool}
  {runner : Runner}

/-- What happens neither removes an entity of the runner's store nor asks for
that. -/
def Untouched (r : Nat) (e : Entity) (w w' : World) : Prop :=
  ∀ s ∈ w.store? (.runner r), ∀ s' ∈ w'.store? (.runner r), s.has e = true →
    s'.has e = true ∧ (e ∈ s'.pending ↔ e ∈ s.pending)

instance (r : Nat) (e : Entity) (w w' : World) :
    Decidable (Untouched r e w w') :=
  inferInstanceAs
    (Decidable (∀ s ∈ w.store? (.runner r), ∀ s' ∈ w'.store? (.runner r),
    s.has e = true → s'.has e = true ∧ (e ∈ s'.pending ↔ e ∈ s.pending)))

/-- The entity of a joint is live, and the joint either holds it or has let go
of it and asked for its removal. -/
structure Custody (r j : Nat) (e : Entity) (held : Bool) (w : World) :
    Prop where
  joint : ∃ slot, w.joints[j]? = some slot ∧
    slot.controller.initialized = true ∧
    slot.controller.joint = if held then some e else none
  store : ∀ {s : Store}, w.store? (.runner r) = some s →
    s.has e = true ∧ (e ∈ s.pending ↔ held = false)

/-- Nothing that joints, stores and transports have in them changes. -/
structure Unmoved (w w' : World) : Prop where
  joints : w'.joints = w.joints
  stores : ∀ ref, w'.store? ref = w.store? ref
  transports : ∀ t, w'.transport t = w.transport t
  buses : w'.buses = w.buses
  history : w'.history = w.history
  log : w'.log = w.log

theorem untouched_of_store (h : w'.store? (.runner r) = w.store? (.runner r)) :
    Untouched r e w w' := by
  intro s hs s' hs' hlive
  rw [h, hs] at hs'
  cases hs'
  exact ⟨hlive, Iff.rfl⟩

theorem Custody.spent (h : w.Custody r j e false) : w.Spent j := by
  obtain ⟨slot, hslot, hinit, hjoint⟩ := h.joint
  exact ⟨slot, hslot, hinit, hjoint⟩

theorem Custody.safe (h : w.Custody r j e true) : Safe r e w := by
  intro s hs
  obtain ⟨hlive, hpending⟩ := h.store hs
  exact ⟨hlive, fun hmem => absurd (hpending.1 hmem) (by simp)⟩

/-- An attached joint that is left alone keeps the custody of a joint. -/
theorem Steady.holds (hsteady : Steady j w w') (h : w.Custody r j e held) :
    ∃ slot, w'.joints[j]? = some slot ∧ slot.controller.initialized = true ∧
      slot.controller.joint = if held then some e else none := by
  obtain ⟨slot, hslot, hinit, hjoint⟩ := h.joint
  obtain ⟨slot', hslot', hstill⟩ := hsteady slot hslot hinit
  exact ⟨slot', hslot', (initialized_of_still hstill).trans hinit,
    (joint_of_still hstill).trans hjoint⟩

/-- The joint still holds an entity that is safe. -/
theorem Custody.of_safe (h : w.Custody r j e true) (hsteady : Steady j w w')
    (hsafe : Safe r e w') : w'.Custody r j e true := by
  refine { joint := hsteady.holds h, store := fun {s} hs => ?_ }
  obtain ⟨hlive, hpending⟩ := hsafe s hs
  exact ⟨hlive, by simp [hpending]⟩

/-- What others do leaves the entity where it is. -/
theorem Custody.spared (h : w.Custody r j e held) (hsteady : Steady j w w')
    (huntouched : Untouched r e w w') (honward : w.Onward w')
    (hr : r < w.runners.length) :
    w'.Custody r j e held := by
  refine { joint := hsteady.holds h, store := ?_ }
  intro s' hs'
  obtain ⟨b, hb, -⟩ := Option.map_eq_some_iff.1 hs'
  obtain ⟨a, ha, -⟩ := honward.systems hb hr
  have hs : w.store? (.runner r) = some a.store := by simp [store?, ha]
  obtain ⟨hlive, hpending⟩ := h.store hs
  obtain ⟨hlive', hpending'⟩ := huntouched _ hs _ hs' hlive
  exact ⟨hlive', hpending'.trans hpending⟩

theorem Custody.unmoved (h : w.Custody r j e held) (hsame : w.Unmoved w') :
    w'.Custody r j e held := by
  refine { joint := ?_, store := ?_ }
  · rw [hsame.joints]
    exact h.joint
  · intro s hs
    rw [hsame.stores] at hs
    exact h.store hs

/-! ## A turn of the joint -/

theorem left_updateJoint_eq {slot : JointSlot} {ref : StoreRef} {s : Store}
    (hslot : w.joints[j]? = some slot) (hs : w.store? ref = some s) :
    (updateJoint j ref).left w = w.settle j ref slot.transport
      (Controller.preUpdate (.detach j) (w.situation slot s)) := by
  unfold updateJoint
  rw [left_modify]
  simp only [hslot, hs]
  rfl

/-- Putting everything back moves nothing. -/
theorem unmoved_settle {slot : JointSlot} {ref : StoreRef} {s : Store}
    (hslot : w.joints[j]? = some slot) (hs : w.store? ref = some s) :
    w.Unmoved (w.settle j ref slot.transport (w.situation slot s)) := by
  refine { joints := ?_, stores := ?_, transports := ?_,
           buses := buses_settle .., log := ?_,
           history := history_settle .. }
  · rw [joints_settle]
    refine List.ext_getElem? fun i => ?_
    rw [joints_setController]
    by_cases hij : j = i
    · subst hij
      rw [hslot]
      simp [situation]
    · simp [hij]
  · intro other
    rw [store?_settle _ _ _ _ _ hs]
    split
    · next heq => rw [heq, hs]; rfl
    · rfl
  · intro n
    rw [transport_settle]
    exact transport_setEndpoint_self w slot.transport n
  · obtain ⟨transports, h⟩ := setEndpoint_eq
      ((w.setController j slot.controller).setStore ref s) slot.transport
        (w.endpoint slot.transport)
    have hlog : ((w.setController j slot.controller).setStore ref s).log =
        w.log :=
      log_setStore _ ref s
    show ((((w.setController j slot.controller).setStore ref s).setEndpoint
      slot.transport (w.endpoint slot.transport)).report []).log = w.log
    rw [h, ← hlog]
    exact List.append_nil _

/-- A joint whose turn leaves its situation as it is moves nothing. -/
theorem unmoved_of_same {slot : JointSlot} (hslot : w.joints[j]? = some slot)
    (ref : StoreRef)
    (hsame : ∀ s, Controller.preUpdate (.detach j) (w.situation slot s) =
      w.situation slot s) :
    w.Unmoved ((updateJoint j ref).left w) := by
  cases hs : w.store? ref with
  | none =>
      have heq : (updateJoint j ref).left w = w := by
        unfold updateJoint
        rw [left_modify]
        simp [hslot, hs]
      rw [heq]
      exact { joints := rfl, stores := fun _ => rfl,
              transports := fun _ => rfl, buses := rfl,
              history := rfl, log := rfl }
  | some s =>
      rw [left_updateJoint_eq hslot hs, hsame]
      exact unmoved_settle hslot hs

/-- A joint that has let go does nothing in its turn. -/
theorem unmoved_of_spent (h : w.Spent j) (ref : StoreRef) :
    w.Unmoved ((updateJoint j ref).left w) := by
  obtain ⟨slot, hslot, hinit, hjoint⟩ := h
  refine unmoved_of_same hslot ref fun s => ?_
  have hinit' : (w.situation slot s).controller.initialized = true := hinit
  rw [Controller.preUpdate_of_initialized (.detach j) hinit']
  exact Controller.detach_of_none hjoint

/-- A joint that holds its entity does nothing in its turn as long as no command
has reached it. -/
theorem Custody.unmoved_of_untold (h : w.Custody r j e true) (hw : w.Sound)
    (ref : StoreRef) (huntold : ¬ Reached j w.history) :
    w.Unmoved ((updateJoint j ref).left w) := by
  obtain ⟨slot, hslot, hinit, hjoint⟩ := h.joint
  have hholds : ¬ slot.controller.HasLetGo := fun hgone =>
    absurd (hgone.2.symm.trans hjoint) (by simp)
  have hflag : slot.controller.requested = false := by
    cases hrequested : slot.controller.requested with
    | false => rfl
    | true => exact absurd ((hw.wired.flags hslot hholds).1 hrequested) huntold
  refine unmoved_of_same hslot ref fun s => ?_
  have hinit' : (w.situation slot s).controller.initialized = true := hinit
  rw [Controller.preUpdate_of_initialized (.detach j) hinit']
  exact Controller.detach_of_untold hflag

/-- After its turn the joint has let go and its flag is down. -/
def Released (j : Nat) (w : World) : Prop :=
  ∃ slot, w.joints[j]? = some slot ∧ slot.controller.joint = none ∧
    slot.controller.requested = false

/-- The store after letting go of a live entity. -/
theorem letGo_store {s : Store} (h : s.has e = true) :
    (s.requestRemoval e).has e = true ∧ e ∈ (s.requestRemoval e).pending :=
  ⟨(Store.has_requestRemoval s e e).trans h,
    Store.mem_pending_requestRemoval.2 (.inr ⟨rfl, h⟩)⟩

/-- What is left after a turn that ends in a situation. -/
theorem custody_of_settle {slot : JointSlot} {s : Store}
    {y : Controller.Situation Callback} (hslot : w.joints[j]? = some slot)
    (hs : w.store? (.runner r) = some s)
    (hinit : y.controller.initialized = true)
    (hjoint : y.controller.joint = if held then some e else none)
    (hlive : y.store.has e = true)
    (hpending : e ∈ y.store.pending ↔ held = false) :
    (w.settle j (.runner r) slot.transport y).Custody r j e held := by
  refine { joint := ⟨{ slot with controller := y.controller }, ?_, hinit,
             hjoint⟩, store := ?_ }
  · rw [joints_settle, joints_setController, hslot]
    simp
  · intro s' hs'
    rw [store?_settle _ _ _ _ _ hs, if_pos rfl] at hs'
    cases hs'
    exact ⟨hlive, hpending⟩

theorem released_of_settle {slot : JointSlot} {ref : StoreRef}
    {t : TransportRef} {y : Controller.Situation Callback}
    (hslot : w.joints[j]? = some slot) (hjoint : y.controller.joint = none)
    (hrequested : y.controller.requested = false) :
    (w.settle j ref t y).Released j := by
  refine ⟨{ slot with controller := y.controller }, ?_, hjoint, hrequested⟩
  rw [joints_settle, joints_setController, hslot]
  simp

/-- A joint that holds its entity lets go of it in its turn once a command has
reached it. -/
theorem Custody.turn (h : w.Custody r j e true) (hw : w.Sound) {s : Store}
    (hs : w.store? (.runner r) = some s) (htold : Reached j w.history) :
    ((updateJoint j (.runner r)).left w).Custody r j e false ∧
      ((updateJoint j (.runner r)).left w).Released j := by
  obtain ⟨slot, hslot, hinit, hjoint⟩ := h.joint
  have hholds : ¬ slot.controller.HasLetGo := fun hgone =>
    absurd (hgone.2.symm.trans hjoint) (by simp)
  have hflag : slot.controller.requested = true :=
    (hw.wired.flags hslot hholds).2 htold
  have hinit' : (w.situation slot s).controller.initialized = true := hinit
  obtain ⟨log, hdetach⟩ :=
    Controller.detach_of_told (x := w.situation slot s) hjoint hflag
  obtain ⟨hlive, hpending⟩ := letGo_store (h.store hs).1
  rw [left_updateJoint_eq hslot hs,
    Controller.preUpdate_of_initialized (.detach j) hinit', hdetach]
  constructor
  · exact custody_of_settle hslot hs hinit rfl hlive
      (by simp [Controller.Situation.released,
      situation, hpending])
  · exact released_of_settle hslot rfl rfl

/-- In the turn in which it attaches a joint comes to hold the entity made next,
or lets go of it at once if a command has reached it before. -/
theorem custody_attach (hw : w.Sound) {slot : JointSlot}
    (hslot : w.joints[j]? = some slot) {s : Store}
    (hs : w.store? (.runner r) = some s)
    (hbefore : slot.controller.initialized = false)
    (hafter : ∃ slot',
      ((updateJoint j (.runner r)).left w).joints[j]? = some slot' ∧
      slot'.controller.initialized = true) :
    (¬ Reached j w.history →
        ((updateJoint j (.runner r)).left w).Custody r j s.create.1 true) ∧
      (Reached j w.history →
        ((updateJoint j (.runner r)).left w).Custody r j s.create.1 false ∧
          ((updateJoint j (.runner r)).left w).Released j) := by
  have hholds : ¬ slot.controller.HasLetGo := fun hgone =>
    absurd (hgone.1.symm.trans hbefore) (by simp)
  have hflag := hw.wired.flags hslot hholds
  have hsound := hw.stores hs
  have hlive : ∀ k,
      (s.create.2.setJoint s.create.1 k).has s.create.1 = true := by
    intro k
    exact (Store.has_attach ..).trans (Store.has_created hsound)
  have hpending : ∀ k,
      s.create.1 ∉ (s.create.2.setJoint s.create.1 k).pending := by
    intro k
    rw [Store.setJoint, Store.pending_attach]
    exact Store.not_mem_pending_create hsound
  rw [left_updateJoint_eq hslot hs] at hafter ⊢
  have hturn := Controller.preUpdate_turn (.detach j) (w.situation slot s)
  generalize Controller.preUpdate (.detach j) (w.situation slot s) =
    y at hturn hafter
  cases hturn with
  | idle _ =>
      obtain ⟨slot', hslot', hinit⟩ := hafter
      rw [joints_settle, joints_setController, hslot] at hslot'
      simp only [Option.map_some, if_true, Option.some.injEq] at hslot'
      rw [← hslot'] at hinit
      exact absurd (hinit.symm.trans hbefore) (by simp)
  | letGo attached _ _ => exact absurd (attached.symm.trans hbefore) (by simp)
  | attach finds untold =>
      constructor
      · intro _
        exact custody_of_settle hslot hs rfl rfl (hlive _) (by
          simpa [Controller.Situation.attached, situation] using hpending _)
      · intro htold
        exact absurd (hflag.2 htold) (by simpa [situation] using untold)
  | attachAndLetGo finds told =>
      constructor
      · intro huntold
        exact absurd (hflag.1 told) huntold
      · intro _
        obtain ⟨hlive', hpending'⟩ := letGo_store (hlive (Joint.fixed _ _))
        constructor
        · exact custody_of_settle hslot hs rfl rfl hlive' (by
            simpa [Controller.Situation.released,
              Controller.Situation.attached, situation] using hpending')
        · exact released_of_settle hslot rfl rfl

/-! ## The end of a step -/

/-- Applying the removals leaves an entity in place that its joint holds. -/
theorem Custody.sweep (h : w.Custody r j e true) :
    ((applyRemovals r).left w).Custody r j e true := by
  rcases left_applyRemovals r w with ⟨-, heq⟩ | ⟨s, hs, heq⟩
  · rwa [heq]
  · rw [heq]
    obtain ⟨hlive, hpending⟩ := h.store hs
    refine { joint := ?_, store := ?_ }
    · rw [joints_setStore]
      exact h.joint
    · intro s' hs'
      rw [store?_setStore w hs, if_pos rfl] at hs'
      cases hs'
      refine ⟨(Store.has_applyRemovals s e).2 ⟨?_, hlive⟩, ?_⟩
      · simpa using hpending
      · simp [Store.applyRemovals_pending]

/-- Applying the removals takes an entity away that its joint has let go of. -/
theorem Custody.removed (h : w.Custody r j e false) {s : Store}
    (hs : w.store? (.runner r) = some s) : ∃ s',
      ((applyRemovals r).left w).store? (.runner r) = some s' ∧
      s'.has e = false := by
  have hpending := (h.store hs).2.2 rfl
  refine ⟨_, store?_applyRemovals hs, ?_⟩
  cases hhas : s.applyRemovals.2.has e with
  | false => rfl
  | true => exact absurd hpending ((Store.has_applyRemovals s e).1 hhas).1

/-! ## A whole step -/

section Step

variable (h : (step r).run w = .ok true w') (hr : w.runner? r = some runner)
  (hw : w.Sound) (hp : runner.systems[p]? = some (.joint j))
include h hr hw hp

omit h in
/-- No other system of the runner is the joint. -/
theorem other_system {system : System} (hq : runner.systems[q]? = some system)
    (hne : q ≠ p) :
    system.joint? ≠ some j := by
  intro hsystem
  have hpairs := List.pairwise_filterMap.1 (hw.owned.nodup hr)
  obtain ⟨hqlt, hqeq⟩ := List.getElem?_eq_some_iff.1 hq
  obtain ⟨hplt, hpeq⟩ := List.getElem?_eq_some_iff.1 hp
  have hjoint : (runner.systems[p]).joint? = some j := by rw [hpeq]; rfl
  have hother : (runner.systems[q]).joint? = some j := by
    rw [hqeq]; exact hsystem
  rcases Nat.lt_or_gt_of_ne hne with hlt | hgt
  · exact List.pairwise_iff_getElem.1 hpairs q p hqlt hplt hlt j
      hother j hjoint rfl
  · exact List.pairwise_iff_getElem.1 hpairs p q hplt hqlt hgt j
      hjoint j hother rfl

/-- A turn of another system that leaves the entity alone. -/
theorem custody_turn (hne : q ≠ p)
    (huntouched : q < runner.systems.length →
      Untouched r e (w.atTurn r q) (w.atTurn r (q + 1)))
    (hc : (w.atTurn r q).Custody r j e held) :
    (w.atTurn r (q + 1)).Custody r j e held := by
  cases hq : runner.systems[q]? with
  | none =>
      rw [atTurn_of_length_le hr (List.getElem?_eq_none_iff.1 hq)]
      exact hc
  | some system =>
      have hlt : r < (w.atTurn r q).runners.length :=
        Nat.lt_of_lt_of_le (lt_of_runner? hr) (atTurn_path w r q).onward.runners
      have hsteady : Steady j (w.atTurn r q) (w.atTurn r (q + 1)) := by
        rw [turn_of_step h hr hq]
        exact updateSystem_steady _ r runner.info
          (other_system hr hw hp hq hne) _
      exact hc.spared hsteady (huntouched (List.getElem?_eq_some_iff.1 hq).1)
        (turn_path h hr q).onward hlt

/-- The turns before the joint's own. -/
theorem custody_before (huntouched : ∀ q, q < p →
      Untouched r e (w.atTurn r q) (w.atTurn r (q + 1)))
    (hc : w.Custody r j e held) : (w.atTurn r p).Custody r j e held := by
  have hall : ∀ q, q ≤ p → (w.atTurn r q).Custody r j e held := by
    intro q
    induction q with
    | zero =>
        intro _
        rwa [atTurn_zero]
    | succ q ih =>
        intro hq
        exact custody_turn h hr hw hp (by omega) (fun _ => huntouched q hq)
          (ih (by omega))
  exact hall p (Nat.le_refl p)

/-- The turns after the joint's own. -/
theorem custody_after (huntouched : ∀ q, p < q → q < runner.systems.length →
      Untouched r e (w.atTurn r q) (w.atTurn r (q + 1)))
    (hc : (w.atTurn r (p + 1)).Custody r j e held) {q : Nat} (hq : p < q) :
    (w.atTurn r q).Custody r j e held := by
  induction q with
  | zero => omega
  | succ q ih =>
      by_cases heq : q = p
      · rwa [heq]
      · have hlt : p < q := by omega
        exact custody_turn h hr hw hp heq (huntouched q hlt) (ih hlt)

omit hw hp in
/-- A step ends with the entity in place if its joint still holds it. -/
theorem custody_end
    (hc : (w.atTurn r runner.systems.length).Custody r j e true) :
    w'.Custody r j e true := by
  have hpath := atTurn_path w r runner.systems.length
  obtain ⟨w₂, info, hreaction, rfl⟩ := end_of_step h hr (Nat.le_refl _)
  have honward := onward_chained.trans hpath.onward (onward_deed _ (.sweep r))
  have hlt := Nat.lt_of_lt_of_le (lt_of_runner? hr) honward.runners
  have hreacted : w₂.Custody r j e true :=
    hc.sweep.spared ((steady_reactive j).react hreaction)
    (untouched_of_store (hreaction.store? _)) hreaction.onward hlt
  exact hreacted.spared
    (.of_joints (congrArg (·[j]?) (joints_setClock w₂ r info)))
    (untouched_of_store (store?_setClock w₂ r info _))
      (onward_deed w₂ (.clock r info))
    (Nat.lt_of_lt_of_le hlt hreaction.onward.runners)

omit hw hp in
/-- A step ends without the entity if its joint has let go of it. -/
theorem removed_end
    (hc : (w.atTurn r runner.systems.length).Custody r j e false) :
    ∃ s', w'.store? (.runner r) = some s' ∧ s'.has e = false := by
  obtain ⟨after, hafter, -⟩ := (atTurn_stepping hr runner.systems.length).2
  obtain ⟨w₂, info, hreaction, rfl⟩ := end_of_step h hr (Nat.le_refl _)
  rw [store?_setClock, hreaction.store?]
  exact hc.removed (s := after.store) (by simp [store?, hafter])

end Step

end World

end Linkage
