import Linkage.Proofs.World.Paths

/-!
# Where runners and joints come from

A runner is made empty. From then on its store changes by calls only, and a
joint comes to it in one way only: it is made, configured on the runner's store
and registered in a single deed. What a configuration has decided about a joint
is never decided again.

## Main results

* `World.origin_of_deed`: what a runner was before a deed.
* `World.slot_of_deed`, `World.slot_of_enrol`: what a joint was before a deed,
  or how it began.
-/

namespace Linkage

open Act

/-- What a configuration decides about a controller. -/
def Controller.settled (c : Controller) : Controller :=
  { c with initialized := false, childLink := none, joint := none,
           requested := false }

namespace Controller.Turn

variable {κ : Type} {callback : κ} {x y : Controller.Situation κ}

theorem settled (h : Turn callback x y) :
    y.controller.settled = x.controller.settled := by
  cases h <;> rfl

/-- A turn changes the store by calls. -/
theorem serves (h : Turn callback x y) :
    ∃ calls, y.store = x.store.serveAll calls := by
  cases h with
  | idle _ => exact ⟨[], rfl⟩
  | attach _ _ => exact ⟨[.create, .attach x.store.create.1 (.joint _)], rfl⟩
  | attachAndLetGo _ _ =>
      exact ⟨[.create, .attach x.store.create.1 (.joint _),
        .requestRemoval x.store.create.1], rfl⟩
  | letGo _ _ _ => exact ⟨[.requestRemoval _], rfl⟩

end Controller.Turn

namespace StoreAction

/-- Whether the call spawns a model or a link. -/
def spawns : StoreAction → Bool
  | .spawnModel .. => true
  | .spawnLink .. => true
  | _ => false

/-- A scenario's call changes the store by calls, and one that spawns applies no
removals. -/
theorem serves_of_run? {op : StoreAction} {names names' : Names} {s s' : Store}
    {reply : Reply} (h : op.run? names s = some (reply, names', s')) :
    ∃ calls, s' = s.serveAll calls ∧
      (op.spawns = true → .applyRemovals ∉ calls) := by
  cases hspawns : op.spawns with
  | true =>
      cases op with
      | spawnModel name label =>
          cases h
          exact ⟨[.create, .attach s.create.1 .model,
            .attach s.create.1 (.name name)], rfl, by simp⟩
      | spawnLink model name label =>
          simp only [run?, Option.bind_eq_bind, Option.bind_eq_some_iff] at h
          obtain ⟨e, he, h⟩ := h
          cases h
          exact ⟨[.create, .attach s.create.1 .link,
            .attach s.create.1 (.name name),
            .attach s.create.1 (.parent e)], rfl, by simp⟩
      | _ => cases hspawns
  | false =>
      rcases (StoreAction.run?_cases h).2 with
        ⟨calls, rfl, -⟩ | ⟨ref, e, -, -, rfl⟩ |
        ⟨a, b, c, kind, e, joint, -, rfl⟩ | ⟨-, rfl⟩
      · exact ⟨calls, rfl, fun h => by cases h⟩
      · exact ⟨[.requestRemoval e], rfl, fun h => by cases h⟩
      · exact ⟨[.attach e (.joint joint)], rfl, fun h => by cases h⟩
      · exact ⟨[.applyRemovals], rfl, fun h => by cases h⟩

end StoreAction

namespace Deed

/-- The deed adds a joint to a runner. -/
def Enrols : Deed → Prop
  | .enrol .. => True
  | _ => False

/-- The deed spawns a model or a link, or adds a joint to a runner. -/
def Builds : Deed → Prop
  | .call _ op => op.spawns = true
  | .enrol .. => True
  | _ => False

end Deed

namespace World

variable {w w' : World} {r j : Nat} {a b : Runner}

/-! ## Runners -/

theorem Sound.runner_store (h : w.Sound) (ha : w.runner? r = some a) :
    a.store.Sound := by
  have hs : w.store? (.runner r) = some a.store := by simp [store?, ha]
  exact h.stores hs

theorem jointIds_of_systems (h : b.systems = a.systems) :
    b.jointIds = a.jointIds :=
  congrArg (·.filterMap System.joint?) h

/-- What a runner was before a deed: it has just been made, the deed changed no
more than its store, or the deed added a joint to it. -/
inductive Origin (w : World) (r : Nat) (d : Deed) (b : Runner) : Prop
  | made (empty : b.jointIds = []) (fresh : w.runners.length ≤ r)
  | kept {a : Runner} (calls : List StoreCall) (before : w.runner? r = some a)
      (joints : b.jointIds = a.jointIds)
      (store : b.store = a.store.serveAll calls)
      (spared : d.Builds → .applyRemovals ∉ calls)
  | enrolled {a : Runner} (before : w.runner? r = some a)
      (joints : b.jointIds = a.jointIds ++ [w.joints.length])
      (store : b.store = a.store)
      (enrols : ∃ label transport e element,
        d = .enrol r label transport e element)

/-- A runner whose systems and store a deed leaves alone. -/
theorem Origin.of_same {d : Deed} (ha : w.runner? r = some a)
    (hsystems : b.systems = a.systems) (hstore : b.store = a.store) :
    w.Origin r d b :=
  .kept [] ha (jointIds_of_systems hsystems) hstore (by simp)

theorem Origin.setStore {d : Deed} {ref : StoreRef} {s : Store}
    (calls : List StoreCall) (hs : w.store? ref = some s)
    (hspared : d.Builds → .applyRemovals ∉ calls)
    (hb : (w.setStore ref (s.serveAll calls)).runner? r = some b) :
    w.Origin r d b := by
  rw [runner?_setStore, Option.map_eq_some_iff] at hb
  obtain ⟨a, ha, rfl⟩ := hb
  by_cases href : ref = .runner r
  · subst href
    have hstore : a.store = s := by simpa [store?, ha] using hs
    rw [if_pos rfl]
    exact .kept calls ha rfl (hstore ▸ rfl) hspared
  · rw [if_neg href]
    exact .of_same ha rfl rfl

theorem Origin.enrol (q : Nat) (label : Option String)
    (transport : TransportRef) (e : Entity) (element : Element)
    (hb : ((Deed.enrol q label transport e element).apply w).runner? r =
      some b) :
    w.Origin r (.enrol q label transport e element) b := by
  obtain ⟨entries, heq⟩ := left_enrol q label transport e element w
  obtain ⟨names, -, hadd⟩ := left_addJoint label transport w
  have hbefore : ∀ p,
      ((configureJoint w.joints.length (.runner q) e element).left
      (((Session.addJoint label transport).left w).report entries)).runner? p =
        w.runner? p := by
    intro p
    rw [runner?_configureJoint, hadd]
    rfl
  simp only [Deed.apply, heq] at hb
  rcases runner?_register hb with hb | ⟨rfl, a, ha, rfl⟩
  · rw [hbefore] at hb
    exact .of_same hb rfl rfl
  · rw [hbefore] at ha
    exact .enrolled ha (jointIds_concat a (.joint w.joints.length)) rfl
      ⟨label, transport, e, element, rfl⟩

/-- Whatever is done, a runner that has joints was there before, and its store
comes by calls from the one that it had. -/
theorem origin_of_deed {d : Deed} (hb : (d.apply w).runner? r = some b) :
    w.Origin r d b := by
  cases d with
  | call ref op =>
      simp only [Deed.apply] at hb
      rcases left_callStore ref op w with
        heq | ⟨s, reply, names, s', hs, hrun, heq⟩
      · rw [heq] at hb
        exact .of_same hb rfl rfl
      · obtain ⟨calls, rfl, hspared⟩ := StoreAction.serves_of_run? hrun
        rw [heq] at hb
        exact .setStore calls hs hspared hb
  | copy ref target =>
      simp only [Deed.apply] at hb
      cases hs : w.store? ref with
      | none =>
          rw [hs] at hb
          exact .of_same hb rfl rfl
      | some s =>
          rw [hs] at hb
          exact .of_same (a := b) hb rfl rfl
  | turn i ref =>
      simp only [Deed.apply] at hb
      rcases left_updateJoint i ref w with heq | ⟨slot, s, y, -, hs, hturn, heq⟩
      · rw [heq] at hb
        exact .of_same hb rfl rfl
      · obtain ⟨calls, hcalls⟩ := hturn.serves
        rw [heq, runner?_settle, hcalls] at hb
        exact .setStore calls hs (fun h => absurd h id) hb
  | configure i ref e element =>
      simp only [Deed.apply, runner?_configureJoint] at hb
      exact .of_same hb rfl rfl
  | sweep q =>
      simp only [Deed.apply] at hb
      rcases left_applyRemovals q w with ⟨-, heq⟩ | ⟨s, hs, heq⟩
      · rw [heq] at hb
        exact .of_same hb rfl rfl
      · rw [heq] at hb
        exact .setStore [.applyRemovals] hs (fun h => absurd h id) hb
  | clock q info =>
      simp only [Deed.apply, setClock] at hb
      cases hq : w.runner? q with
      | none =>
          rw [hq] at hb
          exact .of_same hb rfl rfl
      | some x =>
          simp only [hq, runner?_setRunner_of hq] at hb
          split at hb
          · next hrq =>
            cases hb
            exact .of_same (a := x) (hrq ▸ hq) rfl rfl
          · exact .of_same hb rfl rfl
  | makeJoint label transport =>
      obtain ⟨names, -, heq⟩ := left_addJoint label transport w
      simp only [Deed.apply, heq] at hb
      exact .of_same (a := b) hb rfl rfl
  | enrol q label transport e element =>
      exact .enrol q label transport e element hb
  | enlistScript q name update =>
      rcases runner?_register hb with hb | ⟨-, a, ha, rfl⟩
      · exact .of_same hb rfl rfl
      · exact .kept [] ha ((jointIds_concat a _).trans (List.append_nil _)) rfl
          (by simp)
  | enlistInert q =>
      rcases runner?_register hb with hb | ⟨-, a, ha, rfl⟩
      · exact .of_same hb rfl rfl
      · exact .kept [] ha ((jointIds_concat a _).trans (List.append_nil _)) rfl
          (by simp)
  | makeRunner bus dt =>
      obtain ⟨runner, -, hsystems, heq⟩ := left_makeRunner bus dt w
      simp only [Deed.apply, heq] at hb
      have hrunner := (runner?_append w runner r).symm.trans hb
      split at hrunner
      · next hr =>
        cases hrunner
        exact .made (by simp [Runner.jointIds, hsystems]) (Nat.le_of_eq hr.symm)
      · exact .of_same hrunner rfl rfl
  | dropRunner q =>
      simp only [Deed.apply] at hb
      rcases left_dropRunner q w with heq | ⟨runner, hq, heq⟩
      · rw [heq] at hb
        exact .of_same hb rfl rfl
      · rw [heq] at hb
        have hrunner := (runner?_setRunner_of hq none r).symm.trans hb
        split at hrunner
        · cases hrunner
        · exact .of_same hrunner rfl rfl

/-! ## Joints -/

theorem settled_of_still {slot slot' : JointSlot}
    (h : slot'.still = slot.still) :
    slot'.controller.settled = slot.controller.settled := by
  show slot'.still.controller.settled = slot.still.controller.settled
  rw [h]

/-- A configuration leaves a joint alone that has been configured, and all other
joints. -/
theorem slot_of_configureJoint {i : Nat} {ref : StoreRef} {e : Entity}
    {element : Element} {slot' : JointSlot}
    (h : ((configureJoint i ref e element).left w).joints[j]? = some slot') :
    ∃ slot, w.joints[j]? = some slot ∧
      (slot.controller.configured = true → slot' = slot) := by
  rcases left_configureJoint i ref e element w with
    heq | ⟨slot, s, log, hslot, -, heq⟩
  · rw [heq] at h
    exact ⟨slot', h, fun _ => rfl⟩
  · rw [heq] at h
    have hjoints := joints_setController w i
      (slot.controller.configure e element s).1 j
    obtain ⟨before, hbefore, rfl⟩ :=
      Option.map_eq_some_iff.1 (hjoints.symm.trans h)
    refine ⟨before, hbefore, fun hc => ?_⟩
    split
    · next hij =>
      subst hij
      cases hslot.symm.trans hbefore
      rw [Controller.configure_of_configured hc]
    · rfl

/-- A joint that a deed adds to a runner has been configured on the runner's
store. -/
theorem slot_of_enrol {label : Option String}
    {transport : TransportRef} {e : Entity} {element : Element}
    {slot : JointSlot} (ha : w.runner? r = some a)
    (h : ((Deed.enrol r label transport e element).apply
      w).joints[w.joints.length]? = some slot) :
    slot.controller = (({} : Controller).configure e element a.store).1 := by
  obtain ⟨entries, heq⟩ := left_enrol r label transport e element w
  obtain ⟨names, -, hadd⟩ := left_addJoint label transport w
  let made := ((Session.addJoint label transport).left w).report entries
  have hslot : made.joints[w.joints.length]? = some { transport } := by
    show (((Session.addJoint label transport).left
      w)).joints[w.joints.length]? = _
    rw [hadd]
    exact List.getElem?_concat_length
  have hstore : made.store? (.runner r) = some a.store := by
    show (((Session.addJoint label transport).left w).runner? r).map
      Runner.store = _
    rw [hadd]
    exact congrArg (Option.map Runner.store) ha
  have hconfigured :
      (configureJoint w.joints.length (.runner r) e element).left made =
      (made.setController w.joints.length
        (({} : Controller).configure e element a.store).1).report
        (({} : Controller).configure e element a.store).2 := by
    simp only [configureJoint, left_modify, hslot, hstore]
  simp only [Deed.apply, heq, joints_register] at h
  have hjoints :=
    (congrArg (·.joints[w.joints.length]?) hconfigured).symm.trans h
  have hset := (joints_setController made w.joints.length
    (({} : Controller).configure e element a.store).1
      w.joints.length).symm.trans hjoints
  rw [hslot, Option.map_some, if_pos rfl, Option.some.injEq] at hset
  exact (congrArg JointSlot.controller hset).symm

/-- Whatever is done, what a configuration has decided about a joint stays. -/
theorem slot_of_deed {d : Deed} (hj : j < w.joints.length) {slot' : JointSlot}
    (h : (d.apply w).joints[j]? = some slot') :
    ∃ slot, w.joints[j]? = some slot ∧ (slot.controller.configured = true →
      slot'.controller.settled = slot.controller.settled) := by
  have hsame : ∀ {v : World}, v.joints = w.joints → v.joints[j]? = some slot' →
      ∃ slot, w.joints[j]? = some slot ∧ (slot.controller.configured = true →
        slot'.controller.settled = slot.controller.settled) :=
    fun hv hslot => ⟨slot', hv ▸ hslot, fun _ => rfl⟩
  have hold : ∀ transport : TransportRef,
      (w.joints ++ [({ transport } : JointSlot)])[j]? =
      w.joints[j]? := fun _ => List.getElem?_append_left hj
  cases d with
  | call ref op =>
      simp only [Deed.apply] at h
      rcases left_callStore ref op w with heq | ⟨s, reply, names, s', -, -, heq⟩
      · exact hsame (by rw [heq]) h
      · exact hsame (by rw [heq]; exact joints_setStore w ref s') h
  | copy ref target =>
      refine hsame ?_ h
      simp only [Deed.apply]
      cases w.store? ref with
      | none => rfl
      | some s => exact joints_setStore w _ s
  | turn i ref =>
      simp only [Deed.apply] at h
      rcases left_updateJoint i ref w with
        heq | ⟨slot, s, y, hslot, -, hturn, heq⟩
      · exact hsame (by rw [heq]) h
      · rw [heq, joints_settle, joints_setController] at h
        obtain ⟨before, hbefore, rfl⟩ := Option.map_eq_some_iff.1 h
        refine ⟨before, hbefore, fun _ => ?_⟩
        split
        · next hij =>
          subst hij
          cases hslot.symm.trans hbefore
          exact hturn.settled
        · rfl
  | configure i ref e element =>
      obtain ⟨slot, hslot, hkept⟩ := slot_of_configureJoint h
      exact ⟨slot, hslot, fun hc => by rw [hkept hc]⟩
  | sweep q =>
      simp only [Deed.apply] at h
      rcases left_applyRemovals q w with ⟨-, heq⟩ | ⟨s, -, heq⟩
      · exact hsame (by rw [heq]) h
      · exact hsame (by rw [heq]; exact joints_setStore w _ _) h
  | clock q info => exact hsame (joints_setClock w q info) h
  | makeJoint label transport =>
      obtain ⟨names, -, heq⟩ := left_addJoint label transport w
      simp only [Deed.apply, heq, hold] at h
      exact ⟨slot', h, fun _ => rfl⟩
  | enrol q label transport e element =>
      obtain ⟨entries, heq⟩ := left_enrol q label transport e element w
      obtain ⟨names, -, hadd⟩ := left_addJoint label transport w
      simp only [Deed.apply, heq, joints_register] at h
      obtain ⟨slot, hslot, hkept⟩ := slot_of_configureJoint h
      rw [hadd] at hslot
      exact ⟨slot, (hold transport).symm.trans hslot,
        fun hc => by rw [hkept hc]⟩
  | enlistScript q name update => exact hsame (joints_register w q _) h
  | enlistInert q => exact hsame (joints_register w q _) h
  | makeRunner bus dt => exact hsame rfl h
  | dropRunner q =>
      simp only [Deed.apply] at h
      rcases left_dropRunner q w with heq | ⟨runner, -, heq⟩
      · exact hsame (by rw [heq]) h
      · exact hsame (by rw [heq]; rfl) h

end World

end Linkage
