import Linkage.Proofs.Joint.Discovery
import Linkage.Proofs.Joint.Custody
import Linkage.Proofs.Scene.Placement

/-!
# Steps of a runner that has nothing but joints

In such a step the joints take their turns one after the other, and none of the
turns breaks off. A store only grows while joints take turns: what is live stays
live and as it was, and what is new is a joint and nothing else. So whatever a
name singled out before it singles out still, and a joint that was configured
and sees its child link attaches in its turn, however many joints take theirs
before.

## Main results

* `Store.Grows.only_model`, `Store.Grows.only_link`: what a name singles out in
  a growing store.
* `World.attaches_of_turns`: a joint that is ready attaches in its turn, to a
  new entity.
* `World.left_step_of_joints`: after the turns a step only sweeps, announces and
  sets the clock.
* `World.holdsIn_of_step`, `World.eq_of_holdsIn`: what fresh joints hold after
  the step.
-/

namespace Linkage

open Act

namespace Store

/-! ## Growing stores -/

/-- All that is live stays live and as it was, and what is new is a joint and
nothing else. -/
structure Grows (s t : Store) : Prop where
  kept : ∀ {e : Entity} {r : Record}, s.record? e = some r →
    t.record? e = some r
  new : ∀ {e : Entity} {r : Record}, t.record? e = some r →
    s.record? e = some r ∨ (s.has e = false ∧ ∃ k, r = { joint := some k })

/-- A joint that is put in a store is a new entity with no other component. -/
theorem record?_joined {s : Store} (hs : s.Sound)
    (hc : s.create.2.WithinCapacity) (k : Joint) (e : Entity) :
    (s.create.2.setJoint s.create.1 k).record? e =
      if e = s.create.1 then some { joint := some k } else s.record? e := by
  rw [record?_setJoint hs.create _ hc, record?_create hs]
  split
  · rfl
  · rfl

namespace Grows

variable {s t u : Store} {e model : Entity} {name : String}

theorem refl (s : Store) : s.Grows s := { kept := id, new := .inl }

theorem has (h : s.Grows t) (he : s.has e = true) : t.has e = true := by
  obtain ⟨r, hr⟩ := exists_record?_of_has he
  exact ((record?_eq_some_iff _ _ _).1 (h.kept hr)).1

theorem trans (h : s.Grows t) (h' : t.Grows u) : s.Grows u := by
  refine { kept := fun hr => h'.kept (h.kept hr), new := fun {e r} hr => ?_ }
  rcases h'.new hr with hr | ⟨hdead, hjoint⟩
  · exact h.new hr
  · refine .inr ⟨?_, hjoint⟩
    cases he : s.has e with
    | false => rfl
    | true => rw [h.has he] at hdead; cases hdead

theorem requestRemoval (s : Store) (e : Entity) :
    s.Grows (s.requestRemoval e) := by
  refine { kept := fun hr => ?_, new := fun hr => .inl ?_ }
  · rwa [record?_requestRemoval]
  · rwa [record?_requestRemoval] at hr

theorem joined (hs : s.Sound) (hc : s.create.2.WithinCapacity) (k : Joint) :
    s.Grows (s.create.2.setJoint s.create.1 k) := by
  have hdead := not_has_create hs
  refine { kept := fun {e r} hr => ?_, new := fun {e r} hr => ?_ }
  · have hne : e ≠ s.create.1 := by
      rintro rfl
      rw [((record?_eq_some_iff _ _ _).1 hr).1] at hdead
      cases hdead
    rwa [record?_joined hs hc, if_neg hne]
  · rw [record?_joined hs hc] at hr
    split at hr
    · next heq =>
      subst heq
      exact .inr ⟨hdead, k, (Option.some.inj hr).symm⟩
    · exact .inl hr

theorem only_model (h : s.Grows t) (he : s.IsOnly (s.ModelNamed name) e) :
    t.IsOnly (t.ModelNamed name) e := by
  obtain ⟨r, hr⟩ := exists_record?_of_has he.live
  have hnamed := (modelNamed_iff_of_record? hr).1 he.holds
  refine { live := h.has he.live,
           holds := (modelNamed_iff_of_record? (h.kept hr)).2 hnamed,
           only := fun f hlive hf => ?_ }
  obtain ⟨q, hq⟩ := exists_record?_of_has hlive
  have hmodel := (modelNamed_iff_of_record? hq).1 hf
  rcases h.new hq with hq | ⟨-, k, rfl⟩
  · exact he.only f ((record?_eq_some_iff _ _ _).1 hq).1
      ((modelNamed_iff_of_record? hq).2 hmodel)
  · exact absurd hmodel.1 (by simp)

theorem only_link (h : s.Grows t) (he : s.IsOnly (s.LinkNamed model name) e) :
    t.IsOnly (t.LinkNamed model name) e := by
  obtain ⟨r, hr⟩ := exists_record?_of_has he.live
  have hnamed := (linkNamed_iff_of_record? hr).1 he.holds
  refine { live := h.has he.live,
           holds := (linkNamed_iff_of_record? (h.kept hr)).2 hnamed,
           only := fun f hlive hf => ?_ }
  obtain ⟨q, hq⟩ := exists_record?_of_has hlive
  have hlink := (linkNamed_iff_of_record? hq).1 hf
  rcases h.new hq with hq | ⟨-, k, rfl⟩
  · exact he.only f ((record?_eq_some_iff _ _ _).1 hq).1
      ((linkNamed_iff_of_record? hq).2 hlink)
  · exact absurd hlink.1 (by simp)

end Grows

end Store

open Controller World

/-- The joint is valid, has not attached, and will find a link however much the
store grows. -/
structure Controller.ReadyFor (c : Controller) (s : Store)
    (parentLink childLink : Entity) :
    Prop where
  valid : c.validConfig = true
  unattached : c.initialized = false
  parent : c.parentLink = some parentLink
  found : ∃ spec model, c.spec = some spec ∧ c.model = some model ∧
    ∀ t, s.Grows t → search spec model t = .link childLink

theorem Controller.ReadyFor.grows {c : Controller} {s t : Store}
    {parentLink childLink : Entity} (h : c.ReadyFor s parentLink childLink)
    (ht : s.Grows t) :
    c.ReadyFor t parentLink childLink := by
  obtain ⟨spec, model, hspec, hmodel, hfound⟩ := h.found
  exact { valid := h.valid, unattached := h.unattached, parent := h.parent,
          found := ⟨spec, model, hspec, hmodel,
            fun u hu => hfound u (ht.trans hu)⟩ }

namespace World

/-! ## One turn -/

section Turn

variable {w : World} {r i j : Nat} {s : Store} {slot : JointSlot}

/-- A turn lets the store grow and leaves the other joints alone. -/
theorem exists_store_of_turn (hw : w.Sound) (hs : w.store? (.runner r) = some s)
    (j : Nat) :
    ∃ t, ((updateJoint j (.runner r)).left w).store? (.runner r) = some t ∧
      s.pool.slots.length ≤ t.pool.slots.length ∧
        (t.WithinCapacity → s.Grows t) ∧
        ∀ i, i ≠ j → ((updateJoint j (.runner r)).left w).joints[i]? =
          w.joints[i]? := by
  rcases left_updateJoint j (.runner r) w with
    heq | ⟨slot, s', y, -, hs', hturn, heq⟩
  · rw [heq]
    exact ⟨s, hs, Nat.le_refl _, fun _ => .refl s, fun _ _ => rfl⟩
  · rw [hs, Option.some.injEq] at hs'
    subst hs'
    have hsound := hw.stores hs
    have hcreated : ∀ k,
        (s.create.2.setJoint s.create.1 k).pool = s.create.2.pool :=
      fun k => Store.pool_attach _ _ _
    rw [heq]
    refine ⟨y.store, ?_, slots_length_le_turn hturn, ?_, ?_⟩
    · rw [store?_settle _ _ _ _ _ hs, if_pos rfl]
    · intro hcapacity
      cases hturn with
      | idle _ => exact .refl s
      | attach _ _ =>
          refine .joined hsound ?_ _
          rwa [Store.WithinCapacity, ← hcreated]
      | attachAndLetGo _ _ =>
          refine Store.Grows.trans (.joined hsound ?_ _) (.requestRemoval _ _)
          have hpool := hcapacity
          rw [Store.WithinCapacity] at hpool
          simp only [Situation.released, Store.pool_requestRemoval] at hpool
          rwa [Store.WithinCapacity, ← hcreated]
      | letGo _ _ _ => exact .requestRemoval s _
    · intro i hij
      rw [joints_settle, joints_setController]
      simp [Ne.symm hij]

/-- A joint that was never told to let go and has not attached asks for no
removal, and if it holds an entity after its turn then a new one. -/
theorem fresh_of_turn (hw : w.Sound) (hs : w.store? (.runner r) = some s)
    (hslot : w.joints[j]? = some slot)
    (huntold : slot.controller.requested = false)
    (hunattached : slot.controller.initialized = false) :
    ∃ (t : Store) (slot' : JointSlot),
      ((updateJoint j (.runner r)).left w).store? (.runner r) = some t ∧
      ((updateJoint j (.runner r)).left w).joints[j]? = some slot' ∧
      t.pending = s.pending ∧
      ∀ e, slot'.controller.joint = some e → s.has e = false ∧
        t.has e = true := by
  have hsound := hw.stores hs
  have hturn : Turn (Callback.detach j) (w.situation slot s)
    (preUpdate (.detach j) (w.situation slot s)) := preUpdate_turn _ _
  rw [left_updateJoint_eq hslot hs]
  generalize preUpdate (.detach j) (w.situation slot s) = y at hturn
  refine ⟨y.store, { slot with controller := y.controller }, ?_, ?_, ?_⟩
  · rw [store?_settle _ _ _ _ _ hs, if_pos rfl]
  · rw [joints_settle, joints_setController, hslot]
    simp
  · cases hturn with
    | idle _ =>
        refine ⟨rfl, fun e he => ?_⟩
        have hnone := (hw.wired.controllers hslot).joint_eq_none hunattached
        exact absurd (hnone.symm.trans he) (by simp)
    | attach _ _ =>
        refine ⟨?_, fun e he => ?_⟩
        · exact Store.pending_attach _ _ _
        · cases he
          exact ⟨Store.not_has_create hsound,
            (Store.has_attach _ _ _ _).trans (Store.has_created hsound)⟩
    | attachAndLetGo _ htold =>
        exact absurd (huntold.symm.trans htold) (by simp)
    | letGo hattached _ _ =>
        exact absurd (hunattached.symm.trans hattached) (by simp)

/-- A joint that is ready attaches in its turn. -/
theorem attaches_of_turn {parentLink childLink : Entity}
    (hs : w.store? (.runner r) = some s) (hslot : w.joints[j]? = some slot)
    (huntold : slot.controller.requested = false)
    (hready : slot.controller.ReadyFor s parentLink childLink) :
    ∃ slot' : JointSlot,
      ((updateJoint j (.runner r)).left w).joints[j]? = some slot' ∧
      ((updateJoint j (.runner r)).left w).store? (.runner r) =
        some (s.create.2.setJoint s.create.1
          (Joint.fixed parentLink childLink)) ∧
      slot'.controller.initialized = true ∧
      slot'.controller.joint = some s.create.1 := by
  obtain ⟨spec, model, hspec, hmodel, hfound⟩ := hready.found
  have hpre : preUpdate (.detach j) (w.situation slot s) =
      Controller.detach
        (fasten (.detach j) parentLink childLink (w.situation slot s)) :=
    preUpdate_of_link hready.valid hready.unattached hspec hmodel hready.parent
      (hfound s (.refl s))
  obtain ⟨log, hfasten⟩ :=
    fasten_eq (Callback.detach j) parentLink childLink (w.situation slot s)
  rw [hfasten,
    detach_of_untold (x := (w.situation slot s).attached _ _ _ log)
      huntold] at hpre
  rw [left_updateJoint_eq hslot hs, hpre]
  refine ⟨{ slot with
    controller := slot.controller.attachedTo childLink s.create.1 },
    ?_, ?_, rfl, rfl⟩
  · rw [joints_settle, joints_setController, hslot, Option.map_some, if_pos rfl]
    rfl
  · rw [store?_settle _ _ _ _ _ hs, if_pos rfl]
    rfl

end Turn

/-! ## Many turns -/

/-- The world after turns of joints of a runner, one after the other. -/
def turns (r : Nat) (ids : List Nat) (w : World) : World :=
  ids.foldl (fun w j => (updateJoint j (.runner r)).left w) w

section Turns

variable {w : World} {r j : Nat} {s : Store} {ids : List Nat}

theorem turns_append (r : Nat) (ids later : List Nat) (w : World) :
    w.turns r (ids ++ later) = (w.turns r ids).turns r later :=
  List.foldl_append

theorem Sound.turns (hw : w.Sound) (r : Nat) (ids : List Nat) :
    (w.turns r ids).Sound := by
  induction ids generalizing w with
  | nil => exact hw
  | cons i ids ih => exact ih (hw.turn i (.runner r))

/-- Turns let the store grow and leave the joints alone whose turns they are
not. -/
theorem exists_store_of_turns (hw : w.Sound)
    (hs : w.store? (.runner r) = some s) (ids : List Nat) :
    ∃ t, (w.turns r ids).store? (.runner r) = some t ∧
      s.pool.slots.length ≤ t.pool.slots.length ∧
        (t.WithinCapacity → s.Grows t) ∧
        ∀ i, i ∉ ids → (w.turns r ids).joints[i]? = w.joints[i]? := by
  induction ids generalizing w s with
  | nil => exact ⟨s, hs, Nat.le_refl _, fun _ => .refl s, fun _ _ => rfl⟩
  | cons j ids ih =>
      obtain ⟨t, ht, hslots, hgrows, hothers⟩ := exists_store_of_turn hw hs j
      obtain ⟨u, hu, hslots', hgrows', hothers'⟩ :=
        ih (hw.turn j (.runner r)) ht
      refine ⟨u, hu, Nat.le_trans hslots hslots', fun hcapacity => ?_,
        fun i hi => ?_⟩
      · exact (hgrows (Nat.lt_of_le_of_lt hslots' hcapacity)).trans
          (hgrows' hcapacity)
      · rw [List.mem_cons, not_or] at hi
        exact (hothers' i hi.2).trans (hothers i hi.1)

/-- The joint exists, was never told to let go, and has not attached. -/
def Fresh (w : World) (j : Nat) : Prop :=
  ∃ slot, w.joints[j]? = some slot ∧ slot.controller.requested = false ∧
    slot.controller.initialized = false

/-- Joints that were never told to let go ask for no removal in their turns, and
what they hold afterwards is new and held by no other of them. -/
theorem fresh_of_turns (hw : w.Sound) (hs : w.store? (.runner r) = some s)
    (hnodup : ids.Nodup) (hfresh : ∀ j ∈ ids, w.Fresh j) :
    ∃ t, (w.turns r ids).store? (.runner r) = some t ∧ t.pending = s.pending ∧
      (t.WithinCapacity → ∀ j ∈ ids, ∀ slot e,
        (w.turns r ids).joints[j]? = some slot →
        slot.controller.joint = some e → s.has e = false ∧ t.has e = true ∧
          ∀ i ∈ ids, ∀ other, (w.turns r ids).joints[i]? = some other →
            other.controller.joint = some e → i = j) := by
  induction ids generalizing w s with
  | nil => exact ⟨s, hs, rfl, fun _ j hj => by cases hj⟩
  | cons k ids ih =>
      obtain ⟨hk, hnodup⟩ := List.nodup_cons.1 hnodup
      obtain ⟨slot, hslot, huntold, hunattached⟩ := hfresh k (by simp)
      obtain ⟨t, slot', ht, hslot', hpending, hnew⟩ :=
        fresh_of_turn hw hs hslot huntold hunattached
      obtain ⟨t', ht', hslots, hgrows, hothers⟩ := exists_store_of_turn hw hs k
      cases ht.symm.trans ht'
      have hsound := hw.turn k (.runner r)
      have hlater : ∀ j ∈ ids,
          ((updateJoint k (.runner r)).left w).Fresh j := by
        intro j hj
        have hne : j ≠ k := fun heq => hk (heq ▸ hj)
        obtain ⟨slot, hslot, hflags⟩ := hfresh j (by simp [hj])
        exact ⟨slot, (hothers j hne).trans hslot, hflags⟩
      obtain ⟨u, hu, hpending', hheld⟩ := ih hsound ht hnodup hlater
      obtain ⟨u', hu', hslots', hgrows', hothers'⟩ :=
        exists_store_of_turns hsound ht ids
      cases hu.symm.trans hu'
      refine ⟨u, hu, hpending'.trans hpending, fun hcapacity => ?_⟩
      have hcapacity' : t.WithinCapacity := Nat.lt_of_le_of_lt hslots' hcapacity
      have hfirst : (w.turns r (k :: ids)).joints[k]? = some slot' :=
        (hothers' k hk).trans hslot'
      have hrest := hheld hcapacity
      intro j hj after e hafter he
      rcases List.mem_cons.1 hj with rfl | hj
      · rw [hfirst, Option.some.injEq] at hafter
        subst hafter
        obtain ⟨hdead, hlive⟩ := hnew e he
        refine ⟨hdead, (hgrows' hcapacity).has hlive,
          fun i hi other hother he' => ?_⟩
        rcases List.mem_cons.1 hi with rfl | hi
        · rfl
        · obtain ⟨hdead', -⟩ := hrest i hi other e hother he'
          rw [hlive] at hdead'
          cases hdead'
      · obtain ⟨hdead, hlive, honly⟩ := hrest j hj after e hafter he
        refine ⟨?_, hlive, fun i hi other hother he' => ?_⟩
        · cases hs' : s.has e with
          | false => rfl
          | true =>
              rw [(hgrows hcapacity').has hs'] at hdead
              cases hdead
        · rcases List.mem_cons.1 hi with rfl | hi
          · rw [hfirst, Option.some.injEq] at hother
            subst hother
            rw [(hnew e he').2] at hdead
            cases hdead
          · exact honly i hi other hother he'

/-- A joint that is ready attaches in its turn, whoever takes turns before and
after. -/
theorem attaches_of_turns (hw : w.Sound) (hs : w.store? (.runner r) = some s)
    (hcapacity : ∀ t, (w.turns r ids).store? (.runner r) = some t →
      t.WithinCapacity)
    (hnodup : ids.Nodup) (hj : j ∈ ids) {slot : JointSlot}
    (hslot : w.joints[j]? = some slot)
    (huntold : slot.controller.requested = false)
    {parentLink childLink : Entity}
    (hready : slot.controller.ReadyFor s parentLink childLink) :
    ∃ (t : Store) (slot' : JointSlot) (e : Entity),
      (w.turns r ids).store? (.runner r) = some t ∧
        (w.turns r ids).joints[j]? = some slot' ∧
        slot'.controller.initialized = true ∧ slot'.controller.joint = some e ∧
          t.record? e =
            some { joint := some (Joint.fixed parentLink childLink) } := by
  obtain ⟨before, after, rfl⟩ := List.append_of_mem hj
  obtain ⟨-, hafter, hapart⟩ := List.nodup_append.1 hnodup
  have hbefore : j ∉ before := fun hmem => hapart j hmem j (by simp) rfl
  have hlater : j ∉ after := (List.nodup_cons.1 hafter).1
  rw [turns_append] at hcapacity ⊢
  obtain ⟨t₁, ht₁, -, hgrows₁, hothers₁⟩ := exists_store_of_turns hw hs before
  have hu := hw.turns r before
  obtain ⟨t₂, ht₂, hslots₂, -, -⟩ := exists_store_of_turn hu ht₁ j
  obtain ⟨t₃, ht₃, hslots₃, hgrows₃, hothers₃⟩ :=
    exists_store_of_turns (hu.turn j (.runner r)) ht₂ after
  have hcapacity₃ : t₃.WithinCapacity := hcapacity t₃ ht₃
  have hcapacity₂ : t₂.WithinCapacity := Nat.lt_of_le_of_lt hslots₃ hcapacity₃
  have hcapacity₁ : t₁.WithinCapacity := Nat.lt_of_le_of_lt hslots₂ hcapacity₂
  obtain ⟨slot', hslot', hstore, hinitialized, hholds⟩ := attaches_of_turn ht₁
    ((hothers₁ j hbefore).trans hslot) huntold
      (hready.grows (hgrows₁ hcapacity₁))
  rw [ht₂, Option.some.injEq] at hstore
  have hcreate : t₁.create.2.WithinCapacity := by
    rwa [hstore, Store.WithinCapacity, Store.setJoint,
      Store.pool_attach] at hcapacity₂
  have hrecord : t₂.record? t₁.create.1 =
      some { joint := some (Joint.fixed parentLink childLink) } := by
    rw [hstore, Store.record?_joined (hu.stores ht₁) hcreate, if_pos rfl]
  exact ⟨t₃, slot', t₁.create.1, ht₃, (hothers₃ j hlater).trans hslot',
    hinitialized, hholds, (hgrows₃ hcapacity₃).kept hrecord⟩

end Turns

/-! ## A step -/

/-- The store of the runner is as it was, and so are the joints but for their
flags. -/
structure Calm (r : Nat) (w w' : World) : Prop where
  store : w'.store? (.runner r) = w.store? (.runner r)
  joints : w'.joints.map JointSlot.still = w.joints.map JointSlot.still

theorem calm_reactive (r : Nat) : Reactive (Calm r) :=
  { refl := fun _ => { store := rfl, joints := rfl }
    trans := fun h h' =>
      { store := h'.store.trans h.store, joints := h'.joints.trans h.joints }
    react := fun h => { store := h.store? (.runner r), joints := h.joints } }

theorem run_forM_joints (performer : Performer) (r : Nat) (info : StepInfo)
    (ids : List Nat) (w : World) :
    ((ids.map System.joint).forM (updateSystem performer r info)).run w =
      .ok () (w.turns r ids) := by
  induction ids generalizing w with
  | nil => rfl
  | cons j ids ih => exact ih ((updateJoint j (.runner r)).left w)

/-- After the turns a step only sweeps the store, announces and sets the clock,
even if one of the announcements breaks off. -/
theorem left_step_of_joints {w : World} {r : Nat} {ids : List Nat} {a : Runner}
    (hr : w.runner? r = some a) (hgo : (a.stopped || a.paused) = false)
    (hids : a.systems = ids.map System.joint) :
    Calm r ((applyRemovals r).left (w.turns r ids)) ((step r).left w) := by
  have hR := calm_reactive r
  have hclock : Keeps (Calm r) (advance r) := by
    intro v
    obtain ⟨info, heq⟩ := left_advance r v
    rw [heq]
    exact { store := store?_setClock v r info _,
            joints := by rw [joints_setClock] }
  have hrest : ∀ removed : List Entity, ∀ depth : Nat, Keeps (Calm r) (do
      removed.forM (announceRemoval (perform depth) a.bus)
      announceSnapshot (perform depth) r a.bus a.info
      advance r) := by
    intro removed depth
    refine (Keeps.forM hR.toChained removed fun e _ =>
      announceRemoval_keeps hR depth a.bus e).bind hR.toChained fun _ => ?_
    exact (announceSnapshot_keeps hR depth r a.bus a.info).bind hR.toChained
      fun _ => hclock
  have hphases : (step r).left w =
      (stepPhases (perform (w.weight + systemsWeight a.systems + 1)) r a).left
        w := by
    have hbind := left_bind
      (stepPhases (perform (w.weight + systemsWeight a.systems + 1)) r a)
      (fun _ => pure true) w
    unfold Act.left at hbind ⊢
    rw [run_step hr hgo, hbind]
    cases (stepPhases (perform (w.weight + systemsWeight a.systems + 1)) r
      a).run w <;> rfl
  rw [hphases, stepPhases, left_bind, hids, run_forM_joints]
  exact hrest _ _ _

/-- The joint has attached and holds an entity, which stands for a joint in a
runner's store. -/
structure HoldsIn (w : World) (r j : Nat) (e : Entity) (joint : Joint) :
    Prop where
  slot : ∃ slot, w.joints[j]? = some slot ∧ slot.controller.initialized = true ∧
    slot.controller.joint = some e
  store : ∃ s, w.store? (.runner r) = some s ∧ s.has e = true ∧
    s.joint? e = some joint

section Step

variable {w : World} {r : Nat} {a : Runner} {old new : List Nat}
  (hw : w.Sound) (ha : w.runner? r = some a)
  (hgo : (a.stopped || a.paused) = false)
  (hids : a.systems = (old ++ new).map System.joint)
  (hfresh : ∀ j ∈ new, w.Fresh j)
  (hcapacity : ∀ s, ((step r).left w).store? (.runner r) = some s →
    s.WithinCapacity)
include hw ha hgo hids hfresh hcapacity

omit hgo hfresh hcapacity in
theorem nodup_of_systems : (old ++ new).Nodup := by
  have hnodup := hw.owned.nodup ha
  have hjointIds : a.jointIds = old ++ new := by
    rw [Runner.jointIds, hids, List.filterMap_map]
    exact List.filterMap_some
  rwa [hjointIds] at hnodup

/-- What a step of a runner leaves behind that has nothing but joints, of which
some are fresh. -/
theorem exists_of_step : ∃ t₁ t₂ : Store,
    (w.turns r old).store? (.runner r) = some t₁ ∧
    ((w.turns r old).turns r new).store? (.runner r) = some t₂ ∧
    a.store.Grows t₁ ∧ a.store.WithinCapacity ∧ t₂.WithinCapacity ∧
    (∀ j ∈ new, (w.turns r old).joints[j]? = w.joints[j]?) ∧
    (∀ j ∈ new, (w.turns r old).Fresh j) ∧
    ((step r).left w).store? (.runner r) = some t₂.applyRemovals.2 ∧
    ((step r).left w).joints.map JointSlot.still =
      ((w.turns r old).turns r new).joints.map JointSlot.still := by
  obtain ⟨-, -, hapart⟩ := List.nodup_append.1 (nodup_of_systems hw ha hids)
  have hs : w.store? (.runner r) = some a.store := store?_of_runner? ha
  obtain ⟨t₁, ht₁, hslots₁, hgrows₁, hothers⟩ := exists_store_of_turns hw hs old
  obtain ⟨t₂, ht₂, hslots, -, -⟩ :=
    exists_store_of_turns (hw.turns r old) ht₁ new
  have hcalm := left_step_of_joints ha hgo hids
  rw [turns_append] at hcalm
  have hswept : (applyRemovals r).left ((w.turns r old).turns r new) =
      ((w.turns r old).turns r new).setStore (.runner r) t₂.applyRemovals.2 :=
    left_of_ok (run_applyRemovals ht₂)
  have hstore : ((step r).left w).store? (.runner r) =
      some t₂.applyRemovals.2 := by
    rw [hcalm.store, hswept, store?_setStore _ ht₂, if_pos rfl]
  have hcapacity₂ : t₂.WithinCapacity := by
    have hlast := hcapacity _ hstore
    rwa [Store.WithinCapacity, Pool.WithinCapacity,
      Store.slots_length_applyRemovals] at hlast
  have hsame : ∀ j ∈ new, (w.turns r old).joints[j]? = w.joints[j]? :=
    fun j hj => hothers j fun hmem => hapart j hmem j hj rfl
  have hcapacity₁ : t₁.WithinCapacity := Nat.lt_of_le_of_lt hslots hcapacity₂
  refine ⟨t₁, t₂, ht₁, ht₂, hgrows₁ hcapacity₁,
    Nat.lt_of_le_of_lt hslots₁ hcapacity₁, hcapacity₂,
    hsame, fun j hj => ?_, hstore, ?_⟩
  · obtain ⟨slot, hslot, hflags⟩ := hfresh j hj
    exact ⟨slot, (hsame j hj).trans hslot, hflags⟩
  · rw [hcalm.joints, hswept, joints_setStore]

/-- A fresh joint that is ready holds its joint after the step. -/
theorem holdsIn_of_step {j : Nat} (hj : j ∈ new) {slot : JointSlot}
    (hslot : w.joints[j]? = some slot) {parentLink childLink : Entity}
    (hready : slot.controller.ReadyFor a.store parentLink childLink) :
    ∃ e, ((step r).left w).HoldsIn r j e
      (Joint.fixed parentLink childLink) := by
  obtain ⟨t₁, t₂, ht₁, ht₂, hgrows, -, hcapacity₂, hsame, hfresh',
      hstore, hstill⟩ :=
    exists_of_step hw ha hgo hids hfresh hcapacity
  obtain ⟨-, hnodup, -⟩ := List.nodup_append.1 (nodup_of_systems hw ha hids)
  have hu := hw.turns r old
  have huntold : slot.controller.requested = false := by
    obtain ⟨slot', hslot', huntold, -⟩ := hfresh j hj
    cases hslot.symm.trans hslot'
    exact huntold
  obtain ⟨t, ht, hpending, hheld⟩ := fresh_of_turns hu ht₁ hnodup hfresh'
  cases ht₂.symm.trans ht
  have hlast : ∀ t, ((w.turns r old).turns r new).store? (.runner r) = some t →
      t.WithinCapacity := fun t ht => by
    cases ht₂.symm.trans ht
    exact hcapacity₂
  obtain ⟨t, slot', e, ht, hslot', hinit, hholds, hrecord⟩ :=
    attaches_of_turns hu ht₁ hlast hnodup
    hj ((hsame j hj).trans hslot) huntold (hready.grows hgrows)
  cases ht₂.symm.trans ht
  have hdead := (hheld hcapacity₂ j hj slot' e hslot' hholds).1
  have hstays : e ∉ t₂.pending := by
    rw [hpending]
    intro hmem
    rw [(hu.stores ht₁).pending_live e hmem] at hdead
    cases hdead
  have hswept := t₂.record?_applyRemovals e
  rw [if_neg hstays, hrecord] at hswept
  obtain ⟨hlive, hview⟩ := (Store.record?_eq_some_iff _ _ _).1 hswept
  obtain ⟨slot'', hslot'', heq⟩ := slot_of_still hstill hslot'
  exact ⟨e, { slot := ⟨slot'', hslot'', (initialized_of_still heq).trans hinit,
                (joint_of_still heq).trans hholds⟩
              store := ⟨_, hstore, hlive, congrArg Record.joint hview⟩ }⟩

/-- No two fresh joints hold the same entity after the step. -/
theorem eq_of_holdsIn {i j : Nat} (hi : i ∈ new) (hj : j ∈ new)
    {e : Entity} {x y : Joint} (hx : ((step r).left w).HoldsIn r i e x)
    (hy : ((step r).left w).HoldsIn r j e y) : i = j := by
  obtain ⟨t₁, t₂, ht₁, ht₂, -, -, hcapacity₂, -, hfresh', -, hstill⟩ :=
    exists_of_step hw ha hgo hids hfresh hcapacity
  obtain ⟨-, hnodup, -⟩ := List.nodup_append.1 (nodup_of_systems hw ha hids)
  obtain ⟨t, ht, -, hheld⟩ := fresh_of_turns (hw.turns r old) ht₁ hnodup hfresh'
  cases ht₂.symm.trans ht
  obtain ⟨slot, hslot, -, hholds⟩ := hx.slot
  obtain ⟨other, hother, -, hholds'⟩ := hy.slot
  obtain ⟨before, hbefore, heq⟩ := slot_of_still hstill.symm hslot
  obtain ⟨before', hbefore', heq'⟩ := slot_of_still hstill.symm hother
  obtain ⟨-, -, honly⟩ := hheld hcapacity₂ j hj before' e hbefore'
    ((joint_of_still heq').trans hholds')
  exact honly i hi before hbefore ((joint_of_still heq).trans hholds)

end Step

end World

end Linkage
