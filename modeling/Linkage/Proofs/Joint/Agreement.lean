import Linkage.Proofs.Joint.Tied
import Linkage.Proofs.World.Moments

/-!
# Agreement of joints and components

While a runner is stepped, paused and resumed, its joints are commanded and its
store is edited, its joints stay tied to the components in the store, as long as
nobody else sets a joint or asks for the removal of the entity of one. After a
step nothing is pending any more, and the agreement is exact.

## Main results

* `tied_worldAt`: in every session that leaves the joints of a runner alone they
  are always tied.
* `agreement_of_step`: after a step the components of joints in the store are
  exactly those of the joints that are attached.
-/

namespace Linkage

open Act

namespace World

variable {w w' : World} {r : Nat}

/-! ## Every request -/

/-- The request neither sets a joint in the store of a runner nor asks for the
removal of an entity that one of its joints holds, and a scripted system that it
adds to the runner is mild. It has no joint of the runner, and no joint in the
store of the runner, take a turn outside of a step. -/
def Undisturbed (r : Nat) (w : World) (request : Request) : Prop :=
  match request.operation with
  | .act (.onStore op) => request.store = .runner r → w.Spares r op
  | .updateJoint label =>
      request.store ≠ .runner r ∧ ∀ j ∈ w.names.joints.get? label,
      ∀ runner ∈ w.runner? r, j ∉ runner.jointIds
  | .addSystem q (.script _ configure update) _ _ =>
      q = r → MildScript configure ∧ MildScript update
  | _ => True

instance (r : Nat) (w : World) (request : Request) :
    Decidable (Undisturbed r w request) := by
  unfold Undisturbed
  split <;> infer_instance

/-- The deeds of a step leave the joints of every runner alone, those of the
runner that is stepped in the sense that they are the ones that take turns. -/
theorem harmless_of_stepDeed {q : Nat} {d : Deed} (h : w.Tied r) (hw : w.Sound)
    (hd : StepDeed q w d) : w.Harmless r d := by
  cases hd with
  | @turn runner j hrunner hj =>
      constructor
      · intro heq
        cases heq
        exact ⟨runner, hrunner, hj⟩
      · rintro ⟨a, ha, hj'⟩
        rw [hw.owned.apart hrunner ha hj hj']
  | @call runner name update a op hrunner hs ha hop =>
      intro heq
      cases heq
      exact spares_of_mild (h.mild hrunner hs a ha op (by rw [hop]; rfl))
  | sweep => trivial
  | clock info => trivial

theorem harmless_of_undisturbed {request : Request} {v : World} {d : Deed}
    (hrequest : w.Undisturbed r request) (h : v.Tied r) (hv : v.Sound)
    (hd : RequestDeed w request.store request.operation v d) :
    v.Harmless r d := by
  obtain ⟨ref, op⟩ := request
  cases hd with
  | call op => exact hrequest
  | copy => trivial
  | makeRunner => trivial
  | dropRunner => trivial
  | step deed => exact harmless_of_stepDeed h hv deed
  | run deed => exact harmless_of_stepDeed h hv deed
  | enrol => trivial
  | configureCall ha hop =>
      intro heq
      cases heq
      exact spares_of_mild ((hrequest rfl).1 _ ha _ (by rw [hop]; rfl))
  | enlistScript => exact fun heq => (hrequest heq).2
  | enlistInert => trivial
  | makeJoint => trivial
  | configure => trivial
  | turn hl =>
      constructor
      · exact fun heq => absurd heq hrequest.1
      · rintro ⟨a, ha, hj⟩
        exact absurd hj (hrequest.2 _ hl a ha)
  | spawnModel => exact fun _ => spares_of_mild ⟨rfl, rfl⟩
  | spawnLink => exact fun _ => spares_of_mild ⟨rfl, rfl⟩
  | sceneJoint => trivial

/-- Along a path of harmless deeds the joints of a runner stay tied to its
store. -/
theorem Path.tied {P : World → Deed → Prop} {u v : World} (hpath : Path P u v)
    (hu : u.Sound) (h : u.Tied r)
    (hP : ∀ {w : World} {d : Deed}, w.Sound → w.Tied r → P w d →
      w.Harmless r d) : v.Tied r := by
  have hR : Chained fun w w' : World => w.Tied r → w'.Tied r :=
    { refl := fun _ => id, trans := fun h h' hw => h' (h hw) }
  exact hpath.keeps hR (fun _ hreaction hw => hw.reaction hreaction.toLimited)
    (fun hw hd htied => htied.deed hw (hP hw htied hd)) hu h

theorem tied_empty : Tied r {} :=
  { ties := by simp [runner?], mild := by simp [runner?] }

/-- In a session that leaves the joints of a runner alone they are always tied
to its store. -/
theorem tied_worldAt {requests : List Request}
    (h : Session.Heeds (Undisturbed r) {} requests) (k : Nat) :
    (Session.worldAt requests k).Tied r := by
  have hR : Chained fun w w' : World => w.Sound → w.Tied r →
      w'.Sound ∧ w'.Tied r :=
    { refl := fun _ => .intro,
      trans := fun h h' hw htied => (h hw htied).elim h' }
  refine (Session.worldAt_keeps hR (fun {i m} _ hm hw htied => ?_)
    (Nat.zero_le k) sound_empty tied_empty).2
  have hpath := Session.Moment.path (Session.worldAt requests i) m
  refine ⟨hpath.sound hw, hpath.tied hw htied fun hv hv' hd => ?_⟩
  cases m with
  | step q => exact harmless_of_stepDeed hv' hv hd
  | request asked =>
      exact harmless_of_undisturbed (Session.heeds_moment h hm) hv' hv hd
  | collect => exact absurd hd id

end World

open World

/-! ## After a step -/

/-- After a step that is done no removal is pending. -/
theorem pending_of_step {r : Nat} {w w' : World} {runner : Runner}
    (h : (step r).run w = .ok true w') (hr : w'.runner? r = some runner) :
    runner.store.pending = [] := by
  obtain ⟨before, w₁, w₂, info, -, -, -, hreaction, rfl⟩ := phases_of_step h
  have hstore : (w₂.setClock r info).store? (.runner r) =
      some runner.store := by
    simp [store?, hr]
  rw [store?_setClock, hreaction.store?] at hstore
  rcases left_applyRemovals r w₁ with ⟨hnone, heq⟩ | ⟨s, hs, heq⟩
  · rw [heq, hnone] at hstore
    cases hstore
  · rw [heq, store?_setStore w₁ hs, if_pos rfl] at hstore
    rw [← Option.some.inj hstore]
    exact Store.applyRemovals_pending s

/-- The components of joints in the store of a runner are those of its attached
joints, one for each; every attached joint has a live entity of its own and
knows its two links. -/
structure Agreement (w : World) (runner : Runner) : Prop where
  joints : runner.store.joints.Perm (w.attachments runner)
  once : ((w.attachments runner).map Prod.fst).Nodup
  live : ∀ p ∈ w.attachments runner, runner.store.has p.1 = true
  attached : ∀ {j : Nat} {slot : JointSlot} {e : Entity}, j ∈ runner.jointIds →
    w.joints[j]? = some slot → slot.controller.joint = some e →
      ∃ parentLink childLink, slot.controller.parentLink = some parentLink ∧
        slot.controller.childLink = some childLink ∧
          (e, Joint.fixed parentLink childLink) ∈ w.attachments runner

/-- Ties with nothing pending are an agreement. -/
theorem Agreement.of_ties {w : World} {r : Nat} {runner : Runner} (hw : w.Sound)
    (hr : w.runner? r = some runner)
    (h : Ties runner.jointIds w.held runner.store)
    (hp : runner.store.pending = []) : Agreement w runner := by
  have hstore : w.store? (.runner r) = some runner.store := by simp [store?, hr]
  have hsound := hw.stores hstore
  have hmem : ∀ p, p ∈ w.attachments runner ↔
      runner.store.joint? p.1 = some p.2 := by
    rintro ⟨e, k⟩
    rw [h.accounted_of_swept hp, attachments, List.mem_filterMap]
  have honce : ((w.attachments runner).map Prod.fst).Nodup := by
    rw [attachments, List.map_filterMap]
    refine List.pairwise_filterMap.2 ((hw.owned.nodup hr).imp_of_mem ?_)
    intro i j hi hj hij e he e' he'
    rintro rfl
    obtain ⟨⟨f, k⟩, hk, rfl⟩ := Option.map_eq_some_iff.1 he
    obtain ⟨⟨f', l⟩, hl, hf⟩ := Option.map_eq_some_iff.1 he'
    have hff : f' = f := hf
    exact hij (h.distinct hi hj hk (hff ▸ hl))
  refine { joints := ?_, once := honce, live := ?_, attached := ?_ }
  · refine (List.perm_ext_iff_of_nodup ?_ honce.of_map).2 ?_
    · exact (Table.toList_keys_nodup runner.store.components.joints).of_map
    · rintro ⟨e, k⟩
      rw [hmem]
      exact Table.mem_toList_iff _ e k
  · rintro ⟨e, k⟩ hp'
    exact hsound.has_of_joint? ((hmem _).1 hp')
  · intro j slot e hj hslot he
    obtain ⟨p, q, hp', hq, hk⟩ :=
      attachment?_of_joint (hw.wired.controllers hslot) he
    refine ⟨p, q, hp', hq, List.mem_filterMap.2 ⟨j, hj, ?_⟩⟩
    rw [held_of_slot hslot, hk]

/-- After every step that is carried out, in every session that leaves the
joints of the runner alone, the components of joints in its store are exactly
those of its attached joints. -/
theorem agreement_of_step {requests : List Request} {r k : Nat}
    (hheeds : Session.Heeds (Undisturbed r) {} requests)
    (hstep : Session.Steps requests r k) :
    ∃ runner, (Session.worldAt requests (k + 1)).runner? r = some runner ∧
      (runner.store.WithinCapacity →
        Agreement (Session.worldAt requests (k + 1)) runner) := by
  obtain ⟨-, -, hrun⟩ := Session.exists_of_steps hstep
  obtain ⟨runner, hrunner⟩ := Session.runner_after_steps hstep
  refine ⟨runner, hrunner, fun hcapacity => ?_⟩
  have htied := tied_worldAt hheeds (k + 1)
  exact .of_ties (Session.sound_worldAt requests (k + 1)) hrunner
    (htied.ties hrunner hcapacity) (pending_of_step hrun hrunner)

/-- Two joints over one store after the second of two steps that are requested
at once. Before them one of the joints is commanded to let go, an entity is
created and another one removed. -/
theorem agreement_of_two_joints :
    let body : String → String → Element := fun childModel childLink =>
      Session.jointElement "body" childModel childLink
    let requests : List Request :=
      [⟨.runner 0, .makeRunner none defaultStep none⟩,
      ⟨.runner 0, .act (.onStore (.spawn "car" ["body", "hook"] (some "car")))⟩,
      ⟨.runner 0,
        .act (.onStore (.spawn "cart" ["body", "eye"] (some "cart")))⟩,
      ⟨.runner 0,
        .addSystem 0 (.joint (some "tow") (.numbered 0)) (.label "car")
        (body "cart" "eye")⟩,
      ⟨.runner 0,
        .addSystem 0 (.joint (some "hitch") (.numbered 0)) (.label "cart")
        (body "car" "hook")⟩,
      ⟨.runner 0, .step 0⟩,
      ⟨.runner 0, .act (.onStore (.create (some "spare")))⟩,
      ⟨.runner 0, .act (.onStore (.remove (.label "cart.eye")))⟩,
      ⟨.runner 0, .act (.request "tow")⟩,
      ⟨.runner 0, .run 0 2⟩]
    Session.Heeds (Undisturbed 0) {} requests ∧ Session.Steps requests 0 11 ∧
      ∃ runner, (Session.worldAt requests 12).runner? 0 = some runner ∧
        runner.store.WithinCapacity ∧
          ((Session.worldAt requests 12).attachments runner).length = 1 ∧
            Agreement (Session.worldAt requests 12) runner := by
  intro body requests
  have hheeds : Session.Heeds (Undisturbed 0) {} requests := by decide +kernel
  have hsteps : Session.Steps requests 0 11 := by decide +kernel
  have hfits : ∀ runner ∈ (Session.worldAt requests 12).runner? 0,
      runner.store.pool.slots.length < 10 ∧
        ((Session.worldAt requests 12).attachments runner).length = 1 := by
    decide +kernel
  obtain ⟨runner, hrunner, hagreement⟩ := agreement_of_step hheeds hsteps
  obtain ⟨hslots, hlength⟩ := hfits runner hrunner
  have hcapacity : runner.store.WithinCapacity :=
    Nat.lt_trans hslots (by decide)
  exact ⟨hheeds, hsteps, runner, hrunner, hcapacity, hlength,
    hagreement hcapacity⟩

end Linkage
