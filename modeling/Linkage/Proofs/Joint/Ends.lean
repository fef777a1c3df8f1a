import Linkage.Proofs.Joint.Command
import Linkage.Proofs.Joint.Discovery
import Linkage.Proofs.Store.Lives
import Linkage.Proofs.World.Lineage

/-!
# What an attaching joint is tied to

A joint of a runner looks for its child link in the very turn in which it
attaches, so the child link is alive. Its model and its parent link were looked
up when it was configured, possibly many steps earlier, and are not looked at
again. They were a live model and a live link then, and what has become of them
since depends on the removals in between: each of them is alive and still what
it was, or the runner's store has removed it.

## Main results

* `World.stands_of_path`: what the joints of a runner were when a moment of a
  session began.
* `Session.grounded_worldAt`: every joint of a runner was configured on links
  alive in its store.
* `Session.ends_of_attaches`: what the three ends of an attaching joint are.
* `Session.attaches_to_removed`: two of them can be gone.
-/

namespace Linkage

open Act World

namespace Controller

/-- If the configuration was valid, the model and the parent link that it found
are a live model and a live link of the store. -/
def Rooted (c : Controller) (s : Store) : Prop :=
  c.validConfig = true → ∃ owner parentLink, c.model = some owner ∧
    c.parentLink = some parentLink ∧ s.Lives .model owner ∧
    s.Lives .link parentLink

variable {c d : Controller} {s : Store}

theorem Rooted.congr (h : c.Rooted s) (heq : d.settled = c.settled) :
    d.Rooted s := by
  have hvalid : d.validConfig = c.validConfig := congrArg (·.validConfig) heq
  have hmodel : d.model = c.model := congrArg (·.model) heq
  have hparent : d.parentLink = c.parentLink := congrArg (·.parentLink) heq
  intro hd
  obtain ⟨owner, parentLink, howner, hlink, hlives⟩ := h (hvalid.symm.trans hd)
  exact ⟨owner, parentLink, hmodel.trans howner, hparent.trans hlink, hlives⟩

theorem Rooted.serveAll (h : c.Rooted s) (hs : s.Sound) {calls : List StoreCall}
    (hcalls : .applyRemovals ∉ calls) : c.Rooted (s.serveAll calls) := by
  intro hc
  obtain ⟨owner, parentLink, howner, hlink, hmodel, hparent⟩ := h hc
  exact ⟨owner, parentLink, howner, hlink, hmodel.serveAll hs hcalls,
    hparent.serveAll hs hcalls⟩

/-- A configuration finds a live model and one of its live links. -/
theorem lives_of_resolve {e : Entity} {element : Element} {found : Resolution}
    (h : resolve e element s = .ok found) :
    s.Lives .model e ∧ s.Lives .link found.parentLink := by
  obtain ⟨hvalid, -, hlink, -⟩ := resolve_eq_ok_iff.1 h
  have hfirst := (Store.linkNamed?_eq_some_iff _ _ _).1 hlink
  simp only [Store.isValidModel, Bool.and_eq_true] at hvalid
  exact ⟨⟨hvalid.1, hvalid.2⟩, ⟨hfirst.live, hfirst.holds.1⟩⟩

/-- A new controller that is configured on a store is rooted there. -/
theorem rooted_configure (e : Entity) (element : Element) (s : Store) :
    (({} : Controller).configure e element s).1.configured = true ∧
      (({} : Controller).configure e element s).1.Rooted s := by
  simp only [Controller.configure]
  cases hr : resolve e element s with
  | error cause => exact ⟨rfl, fun hvalid => by cases hvalid⟩
  | ok found => exact ⟨rfl,
      fun _ => ⟨e, found.parentLink, rfl, rfl, lives_of_resolve hr⟩⟩

end Controller

namespace World

variable {u v w : World} {r j : Nat} {builds : Prop}

/-- How a joint stands with the store of its runner in the course of a moment
that began in a world: it was a joint of the runner then and the store comes by
calls from the one then, or, in a moment that builds, it was added and is rooted
in the store as it is now. -/
inductive Stands (builds : Prop) (u : World) (r j : Nat) (slot : JointSlot)
    (s : Store) : Prop
  | before {a : Runner} {old : JointSlot} (calls : List StoreCall)
      (runner : u.runner? r = some a) (owned : j ∈ a.jointIds)
      (joint : u.joints[j]? = some old)
      (settled : slot.controller.settled = old.controller.settled)
      (store : s = a.store.serveAll calls)
  | added (builds : builds) (rooted : slot.controller.Rooted s)

theorem Stands.congr {slot slot' : JointSlot} {s : Store}
    (h : Stands builds u r j slot s)
    (heq : slot'.controller.settled = slot.controller.settled) :
    Stands builds u r j slot' s := by
  cases h with
  | before calls runner owned joint settled store =>
      exact .before calls runner owned joint (heq.trans settled) store
  | added builds rooted => exact .added builds (rooted.congr heq)

theorem Stands.serveAll {slot : JointSlot} {s : Store}
    (h : Stands builds u r j slot s) (hs : s.Sound) {calls : List StoreCall}
    (hcalls : builds → .applyRemovals ∉ calls) :
    Stands builds u r j slot (s.serveAll calls) := by
  cases h with
  | before earlier runner owned joint settled store =>
      refine .before (earlier ++ calls) runner owned joint settled ?_
      rw [store, ← Store.serveAll_append]
  | added builds rooted =>
      exact .added builds (rooted.serveAll hs (hcalls builds))

/-- The joints of a runner are configured and stand with its store. -/
def Standing (builds : Prop) (r : Nat) (u v : World) : Prop :=
  ∀ {b : Runner} {j : Nat} {slot : JointSlot}, v.runner? r = some b →
    j ∈ b.jointIds →
    v.joints[j]? = some slot →
      slot.controller.configured = true ∧ Stands builds u r j slot b.store

theorem configured_of_settled {c d : Controller} (h : d.settled = c.settled)
    (hc : c.configured = true) : d.configured = true :=
  (congrArg (·.configured) h : d.configured = c.configured).trans hc

theorem Standing.react (h : Standing builds r u v) (hr : v.Reaction w) :
    Standing builds r u w := by
  intro b j slot hb hj hslot
  obtain ⟨a, ha, hstill⟩ := hr.runner? hb
  obtain ⟨old, hold, hsame⟩ := slot_of_still hr.joints.symm hslot
  have hids := jointIds_of_systems (Runner.systems_of_still hstill)
  obtain ⟨hconfigured, hstands⟩ := h ha (hids ▸ hj) hold
  have hsettled := settled_of_still hsame.symm
  rw [← Runner.store_of_still hstill]
  exact ⟨configured_of_settled hsettled hconfigured, hstands.congr hsettled⟩

/-- A deed that adds a joint does so in a moment that builds, and in such a
moment nothing is removed. -/
theorem Standing.deed (h : Standing builds r u v) (hv : v.Sound) {d : Deed}
    (hbuilds : builds → d.Builds) (henrols : d.Enrols → builds) :
    Standing builds r u (d.apply v) := by
  intro b j slot hb hj hslot
  have hkept : ∀ {a : Runner} (calls : List StoreCall), v.runner? r = some a →
      j ∈ a.jointIds →
      b.store = a.store.serveAll calls → (builds → .applyRemovals ∉ calls) →
        slot.controller.configured = true ∧
        Stands builds u r j slot b.store := by
    intro a calls ha hja hstore hspared
    obtain ⟨old, hold, hsettled⟩ := slot_of_deed (hv.owned.lt ha hja) hslot
    obtain ⟨hconfigured, hstands⟩ := h ha hja hold
    have heq := hsettled hconfigured
    have hlater := (hstands.congr heq).serveAll (hv.runner_store ha) hspared
    exact ⟨configured_of_settled heq hconfigured, hstore ▸ hlater⟩
  cases origin_of_deed hb with
  | made empty =>
      rw [empty] at hj
      cases hj
  | kept calls before joints store spared =>
      exact hkept calls before (joints ▸ hj) store fun hb => spared (hbuilds hb)
  | @enrolled a before joints store enrols =>
      rw [joints, List.mem_append, List.mem_singleton] at hj
      rcases hj with hj | rfl
      · exact hkept [] before hj store (by simp)
      · obtain ⟨label, transport, e, element, rfl⟩ := enrols
        have hnew := slot_of_enrol before hslot
        obtain ⟨hconfigured, hrooted⟩ :=
          Controller.rooted_configure e element a.store
        rw [store]
        exact ⟨hnew ▸ hconfigured, .added (henrols trivial) (hnew ▸ hrooted)⟩

/-- In the course of a moment the joints of a runner stand with its store, if
they were configured when it began. -/
theorem stands_of_path {P : World → Deed → Prop} (h : Path P u v) (hu : u.Sound)
    (hP : ∀ {w : World} {d : Deed}, P w d → (builds → d.Builds) ∧
      (d.Enrols → builds))
    (hconfigured : ∀ {a : Runner} {j : Nat} {slot : JointSlot},
      u.runner? r = some a →
      j ∈ a.jointIds → u.joints[j]? = some slot →
      slot.controller.configured = true) :
    Standing builds r u v := by
  induction h with
  | refl =>
      intro a j slot ha hj hslot
      exact ⟨hconfigured ha hj hslot, .before [] ha hj hslot rfl rfl⟩
  | react _ reaction ih => exact ih.react reaction
  | deed before allowed ih =>
      exact ih.deed (before.sound hu) (hP allowed).1 (hP allowed).2

end World

namespace Session

/-- Whether an operation adds joints to a runner. -/
def addsJoints : Operation → Bool
  | .addSystem _ (.joint ..) .. => true
  | .spawnScene .. => true
  | _ => false

/-- The moment may add joints to a runner. -/
def Moment.Builds : Moment → Prop
  | .request asked => addsJoints asked.operation = true
  | _ => False

/-- Joints are added in moments that do nothing but build. -/
theorem Moment.builds_of_does {m : Moment} {u v : World} {d : Deed}
    (h : m.Does u v d) :
    (m.Builds → d.Builds) ∧ (d.Enrols → m.Builds) := by
  have hstep : ∀ {r : Nat}, StepDeed r v d → ¬ d.Enrols := by
    intro r hd henrols
    cases hd <;> exact henrols
  cases m with
  | step r => exact ⟨fun hm => absurd hm id,
      fun henrols => absurd henrols (hstep h)⟩
  | collect => exact absurd h id
  | request asked =>
      obtain ⟨ref, operation⟩ := asked
      have hd : RequestDeed u ref operation v d := h
      cases hd with
      | step hd => exact ⟨(fun hm => by cases hm),
          fun henrols => absurd henrols (hstep hd)⟩
      | run hd => exact ⟨(fun hm => by cases hm),
          fun henrols => absurd henrols (hstep hd)⟩
      | enrol e v => exact ⟨fun _ => trivial, fun _ => rfl⟩
      | sceneJoint runner label e element v =>
          exact ⟨fun _ => trivial, fun _ => rfl⟩
      | spawnModel name v =>
          exact ⟨fun _ => rfl, fun henrols => absurd henrols id⟩
      | spawnLink model name v =>
          exact ⟨fun _ => rfl, fun henrols => absurd henrols id⟩
      | _ => exact ⟨(fun hm => by cases hm), fun henrols => absurd henrols id⟩

variable {requests : List Request} {r p j i n : Nat}

/-- By a moment of the session a controller has been configured as a joint of a
runner: in the world of that moment or an earlier one it is rooted in the
runner's store, and calls have led from there to a store. -/
def Grounded (requests : List Request) (r j n : Nat) (c : Controller)
    (s : Store) : Prop :=
  ∃ k ≤ n, ∃ a calls, (worldAt requests k).runner? r = some a ∧ j ∈ a.jointIds ∧
    c.Rooted a.store ∧ s = a.store.serveAll calls

theorem Grounded.later {c d : Controller} {s : Store}
    (h : Grounded requests r j n c s) (hd : d.settled = c.settled)
    (calls : List StoreCall) {m : Nat} (hm : n ≤ m) :
    Grounded requests r j m d (s.serveAll calls) := by
  obtain ⟨k, hk, a, earlier, ha, hj, hrooted, rfl⟩ := h
  exact ⟨k, Nat.le_trans hk hm, a, earlier ++ calls, ha, hj, hrooted.congr hd,
    (a.store.serveAll_append earlier calls).symm⟩

/-- At every moment the joints of a runner have been configured on its store. -/
theorem grounded_worldAt (requests : List Request) (r n : Nat)
    {a : Runner} {j : Nat} {slot : JointSlot}
    (ha : (worldAt requests n).runner? r = some a) (hj : j ∈ a.jointIds)
    (hslot : (worldAt requests n).joints[j]? = some slot) :
    slot.controller.configured = true ∧
    Grounded requests r j n slot.controller a.store := by
  induction n generalizing a j slot with
  | zero => simp [worldAt, carried, runner?] at ha
  | succ n ih =>
      cases hm : (moments {} requests)[n]? with
      | none =>
          rw [worldAt_of_none hm] at ha hslot
          obtain ⟨hconfigured, hgrounded⟩ := ih ha hj hslot
          exact ⟨hconfigured, hgrounded.later rfl [] (Nat.le_succ n)⟩
      | some m =>
          have hsucc := worldAt_succ hm
          have hstanding : Standing m.Builds r (worldAt requests n)
              (m.carry (worldAt requests n)) :=
            stands_of_path (m.path _) (sound_worldAt requests n)
              Moment.builds_of_does fun ha hj hslot => (ih ha hj hslot).1
          obtain ⟨hconfigured, hstands⟩ :=
            hstanding (hsucc ▸ ha) hj (hsucc ▸ hslot)
          refine ⟨hconfigured, ?_⟩
          cases hstands with
          | before calls runner owned joint settled store =>
              rw [store]
              exact (ih runner owned joint).2.later settled calls
                (Nat.le_succ n)
          | added _ rooted =>
              exact ⟨n + 1, Nat.le_refl _, a, [], ha, hj, rooted, rfl⟩

/-- A joint, which is a system of a runner, attaches in its turn in a step,
whether or not the step is carried out to its end. -/
structure AttachesInTurn (requests : List Request) (r p j i : Nat) : Prop where
  moment : (moments {} requests)[i]? = some (.step r)
  system : ∃ runner, (worldAt requests i).runner? r = some runner ∧
    runner.systems[p]? = some (.joint j)
  before : ∃ slot, (turnAt requests r p i).joints[j]? = some slot ∧
    slot.controller.initialized = false
  after : ∃ slot,
    ((updateJoint j (.runner r)).left (turnAt requests r p i)).joints[j]? =
    some slot ∧ slot.controller.initialized = true

instance (requests : List Request) (r p j i : Nat) :
    Decidable (AttachesInTurn requests r p j i) :=
  decidable_of_iff ((moments {} requests)[i]?.bind Moment.runner? = some r ∧
      (∃ runner ∈ (worldAt requests i).runner? r, ∃ system ∈ runner.systems[p]?,
        system.joint? = some j) ∧
      (∃ slot ∈ (turnAt requests r p i).joints[j]?,
        slot.controller.initialized = false) ∧
      ∃ slot ∈ ((updateJoint j (.runner r)).left
        (turnAt requests r p i)).joints[j]?,
        slot.controller.initialized = true) <| by
    simp only [Option.bind_eq_some_iff, Moment.runner?_eq_some_iff,
      exists_eq_right]
    constructor
    · rintro ⟨hmoment, ⟨runner, hr, system, hp, hj⟩, hbefore, hafter⟩
      rw [System.eq_joint hj] at hp
      exact { moment := hmoment, system := ⟨runner, hr, hp⟩, before := hbefore,
              after := hafter }
    · intro h
      obtain ⟨runner, hr, hp⟩ := h.system
      exact ⟨h.moment, ⟨runner, hr, .joint j, hp, rfl⟩, h.before, h.after⟩

/-- The ends of a joint that attaches in its turn. The child link is alive in
the store of the turn. The model and the parent link were alive in the store of
the runner at a moment since which the joint has been a system of it, and each
of them is alive still unless it was removed since. -/
structure Ends (requests : List Request) (r p j i : Nat)
    (c : Controller) (s : Store) (owner parentLink childLink : Entity) :
    Prop where
  model : c.model = some owner
  parent : c.parentLink = some parentLink
  recorded : s.create.2.WithinCapacity → ∃ t,
    ((updateJoint j (.runner r)).left (turnAt requests r p i)).store?
      (.runner r) = some t ∧
      t.joint? s.create.1 = some (Joint.fixed parentLink childLink)
  child : s.Lives .link childLink
  roots : ∃ k ≤ i, ∃ a calls, (worldAt requests k).runner? r = some a ∧
    j ∈ a.jointIds ∧
    a.store.Lives .model owner ∧ a.store.Lives .link parentLink ∧
      s = a.store.serveAll calls ∧
      (s.Lives .model owner ∨ a.store.Removes calls owner) ∧
        (s.Lives .link parentLink ∨ a.store.Removes calls parentLink)

/-- By its turn in a step a joint of the runner has been configured on the
runner's store. -/
theorem grounded_turnAt {runner : Runner}
    (hr : (worldAt requests i).runner? r = some runner)
    (hp : runner.systems[p]? = some (.joint j)) {slot : JointSlot}
    (hslot : (turnAt requests r p i).joints[j]? = some slot) :
    ∃ s, (turnAt requests r p i).store? (.runner r) = some s ∧
      Grounded requests r j i slot.controller s := by
  obtain ⟨a, ha, hsystems⟩ := (atTurn_stepping hr p).2
  have hj : j ∈ a.jointIds := by
    refine List.mem_filterMap.2 ⟨.joint j, ?_, rfl⟩
    rw [hsystems]
    exact List.mem_of_getElem? hp
  have hstanding : Standing False r (worldAt requests i)
      (turnAt requests r p i) :=
    stands_of_path (atTurn_path _ r p) (sound_worldAt requests i)
      (fun hd => Moment.builds_of_does (m := .step r)
        (u := worldAt requests i) hd)
      fun ha hj hslot => (grounded_worldAt requests r i ha hj hslot).1
  refine ⟨a.store, congrArg (Option.map Runner.store) ha, ?_⟩
  cases (hstanding ha hj hslot).2 with
  | before calls runner owned joint settled store =>
      rw [store]
      exact (grounded_worldAt requests r i runner owned joint).2.later settled
        calls (Nat.le_refl i)
  | added builds _ => exact absurd builds id

/-- A turn that attaches a joint finds its links and leaves the joint in the
store. -/
theorem finds_of_attaches (h : AttachesInTurn requests r p j i) :
    ∃ slot s parentLink childLink,
    (turnAt requests r p i).joints[j]? = some slot ∧
    (turnAt requests r p i).store? (.runner r) = some s ∧
    Controller.Finds ((turnAt requests r p i).situation slot s)
      parentLink childLink ∧
    (s.create.2.WithinCapacity → ∃ t,
      ((updateJoint j (.runner r)).left (turnAt requests r p i)).store?
        (.runner r) = some t ∧
        t.joint? s.create.1 = some (Joint.fixed parentLink childLink)) := by
  obtain ⟨slot, hslot, hbefore⟩ := h.before
  obtain ⟨slot', hslot', hafter⟩ := h.after
  rcases left_updateJoint j (.runner r) (turnAt requests r p i) with
    heq | ⟨old, s, y, hold, hs, hturn, heq⟩
  · rw [heq, hslot] at hslot'
    cases hslot'
    rw [hbefore] at hafter
    cases hafter
  · rw [hslot] at hold
    cases hold
    have hinit : y.controller.initialized = true := by
      rw [heq, joints_settle, joints_setController, hslot,
        Option.map_some, if_pos rfl, Option.some.injEq] at hslot'
      exact (congrArg (·.controller.initialized) hslot').trans hafter
    have hstore :
        ((updateJoint j (.runner r)).left (turnAt requests r p i)).store?
          (.runner r) =
        some y.store := by
      rw [heq, store?_settle _ _ _ _ _ hs, if_pos rfl]
    have hsound := (sound_turnAt requests r p i).stores hs
    cases hturn with
    | idle _ => exact absurd hinit (by simp [situation, hbefore])
    | letGo attached _ _ => exact absurd attached (by simp [situation, hbefore])
    | @attach parentLink childLink log finds _ =>
        refine ⟨slot, s, parentLink, childLink, hslot, hs, finds,
          fun hcap => ⟨_, hstore, ?_⟩⟩
        exact Store.joint?_setJoint_created hsound hcap _
    | @attachAndLetGo parentLink childLink _ log finds _ =>
        refine ⟨slot, s, parentLink, childLink, hslot, hs, finds,
          fun hcap => ⟨_, hstore, ?_⟩⟩
        exact (Store.joint?_requestRemoval _ _ _).trans
          (Store.joint?_setJoint_created hsound hcap _)

/-- The child link of a joint that attaches is alive. Its model and its parent
link were alive when it was configured, and are so still unless they were
removed since. -/
theorem ends_of_attaches (h : AttachesInTurn requests r p j i) :
    ∃ slot s owner parentLink childLink,
      (turnAt requests r p i).joints[j]? = some slot ∧
      (turnAt requests r p i).store? (.runner r) = some s ∧
        Ends requests r p j i slot.controller s owner parentLink childLink := by
  obtain ⟨runner, hr, hp⟩ := h.system
  obtain ⟨slot, s, parentLink, childLink, hslot, hs, finds, hrecorded⟩ :=
    finds_of_attaches h
  obtain ⟨s', hs', k, hk, a, calls, ha, hj, hrooted, hcalls⟩ :=
    grounded_turnAt hr hp hslot
  cases hs.symm.trans hs'
  obtain ⟨owner, parentLink', hmodel, hparent, howner, hlink⟩ :=
    hrooted finds.valid
  cases hparent.symm.trans finds.parent
  have hsound := (sound_worldAt requests k).runner_store ha
  have hchild : s.Lives .link childLink := by
    obtain ⟨spec, model, -, -, hsearch⟩ := finds.found
    obtain ⟨child, -, hfirst⟩ :=
      (Controller.search_eq_link_iff childLink).1 hsearch
    exact ⟨hfirst.live, hfirst.holds.1⟩
  have hfate : ∀ {role : Role} {e : Entity}, a.store.Lives role e →
      s.Lives role e ∨ a.store.Removes calls e :=
    fun hlives => hcalls ▸ Store.lives_or_removes hlives hsound calls
  exact ⟨slot, s, owner, parentLink, childLink, hslot, hs,
    { model := hmodel, parent := finds.parent, recorded := hrecorded,
      child := hchild,
      roots := ⟨k, hk, a, calls, ha, hj, howner, hlink, hcalls, hfate howner,
        hfate hlink⟩ }⟩

/-- A joint attaches in a step that breaks off afterwards, to a link whose
removal has been asked for but not applied. -/
theorem ends_of_attaches_before_break :
    let requests : List Request :=
      [⟨.runner 0, .makeRunner none defaultStep none⟩,
      ⟨.runner 0, .act (.onStore (.spawn "car" ["body"] (some "car")))⟩,
      ⟨.runner 0,
        .addSystem 0 (.joint (some "tow") (.numbered 0)) (.label "car")
        (jointElement "body" "cart" "eye")⟩,
      ⟨.runner 0,
        .addSystem 0 (.script "brake" [] [{ action := .panic "stuck" }])
          (.label "car")
        { name := "brake" }⟩,
      ⟨.runner 0, .act (.onStore (.spawn "cart" ["eye"] (some "cart")))⟩,
      ⟨.runner 0, .act (.onStore (.remove (.label "car.body")))⟩,
      ⟨.runner 0, .step 0⟩]
    AttachesInTurn requests 0 0 0 6 ∧ ∃ slot s owner parentLink childLink,
      (turnAt requests 0 0 6).joints[0]? = some slot ∧
        (turnAt requests 0 0 6).store? (.runner 0) = some s ∧
          Ends requests 0 0 0 6 slot.controller s owner parentLink
            childLink := by
  intro requests
  have hattaches : AttachesInTurn requests 0 0 0 6 := by decide +kernel
  exact ⟨hattaches, ends_of_attaches hattaches⟩

/-- A joint attaches although its model and its parent link have been removed in
an earlier step, and the joint that it leaves in the store names the link that
is gone. -/
theorem attaches_to_removed :
    let requests : List Request :=
      [⟨.runner 0, .makeRunner none defaultStep none⟩,
      ⟨.runner 0, .act (.onStore (.spawn "car" ["body"] (some "car")))⟩,
      ⟨.runner 0,
        .addSystem 0 (.joint (some "tow") (.numbered 0)) (.label "car")
        (jointElement "body" "cart" "eye")⟩,
      ⟨.runner 0, .act (.onStore (.remove (.label "car")))⟩,
      ⟨.runner 0, .act (.onStore (.remove (.label "car.body")))⟩,
      ⟨.runner 0, .step 0⟩,
      ⟨.runner 0, .act (.onStore (.spawn "cart" ["eye"] (some "cart")))⟩,
      ⟨.runner 0, .step 0⟩]
    AttachesInTurn requests 0 0 0 8 ∧
      ∃ slot ∈ (turnAt requests 0 0 8).joints[0]?,
      ∃ s ∈ (turnAt requests 0 0 8).store? (.runner 0),
        ∃ t ∈ ((updateJoint 0 (.runner 0)).left (turnAt requests 0 0 8)).store?
          (.runner 0),
          ∃ owner ∈ slot.controller.model, ∃ joint ∈ t.joint? s.create.1,
            slot.controller.parentLink = some joint.parentLink ∧
              (s.has owner = false ∧ s.has joint.parentLink = false) ∧
                t.has owner = false ∧ t.has joint.parentLink = false := by
  decide +kernel

end Session

end Linkage
