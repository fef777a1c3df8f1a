import Linkage.Proofs.Joint.Tied
import Linkage.Proofs.Store.Issued
import Linkage.Proofs.World.Moments

/-!
# Where the entities of joints come from

The joints of a runner that take no turn on another store hold entities that the
store of the runner has issued. A store remembers the handles that it issued as
long as no slot starts its generations over, and every life of a slot is begun
by a change that raises the revision. So a store whose revision is below
`2 ^ 31` remembers every entity that its joints hold, live or long gone, and
issues none of them again.

## Main results

* `Store.Recalls`: what changes of a store forget, which is nothing.
* `World.past_of_deed`: all that a deed does to a runner's store and to what its
  joints hold.
* `World.remembers_worldAt`: in every session whose joints stay with their
  runner its store remembers what they hold.
-/

namespace Linkage

open Act

/-! ## What stores recall -/

theorem Pool.Counts.mono {p : Pool} {n m : Nat} (h : p.Counts n) (hnm : n ≤ m) :
    p.Counts m :=
  { slots := Nat.le_trans h.slots hnm
    lives := fun hslot => Nat.le_trans (h.lives hslot) hnm }

namespace Store

variable {s t u : Store}

/-- The second store comes from the first by changes. It knows all handles that
the first had issued, if its revision is low enough for no slot to have started
over. -/
structure Recalls (s t : Store) : Prop where
  revision : s.revision ≤ t.revision
  counts : t.revision < 2 ^ 31 → s.pool.Counts s.revision →
    t.pool.Counts t.revision
  issued : t.revision < 2 ^ 31 → s.pool.Counts s.revision →
    ∀ e, s.pool.Issued e → t.pool.Issued e

namespace Recalls

theorem refl (s : Store) : s.Recalls s :=
  { revision := Nat.le_refl _, counts := fun _ => id,
    issued := fun _ _ _ => id }

theorem trans (h : s.Recalls t) (h' : t.Recalls u) : s.Recalls u :=
  { revision := Nat.le_trans h.revision h'.revision
    counts := fun hu hs =>
      h'.counts hu (h.counts (Nat.lt_of_le_of_lt h'.revision hu) hs)
    issued := fun hu hs e he =>
      have ht : t.revision < 2 ^ 31 := Nat.lt_of_le_of_lt h'.revision hu
      h'.issued hu (h.counts ht hs) e (h.issued ht hs e he) }

theorem of_pool (hpool : t.pool = s.pool)
    (hrevision : s.revision ≤ t.revision) : s.Recalls t :=
  { revision := hrevision
    counts := fun _ hs => hpool ▸ hs.mono hrevision
    issued := fun _ _ _ he => hpool ▸ he }

theorem create (hs : s.Sound) : s.Recalls s.create.2 :=
  { revision := Nat.le_succ _
    counts := fun _ hcounts => hcounts.create hs.pool
    issued := fun _ _ _ he => (Pool.issued_create_iff hs.pool).2 (.inr he) }

theorem le_revision_attach (s : Store) (e : Entity)
    (change : Components → Components) :
    s.revision ≤ (s.attach e change).revision := by
  unfold Store.attach
  split
  · exact Nat.le_succ _
  · exact Nat.le_refl _

theorem attach (s : Store) (e : Entity) (change : Components → Components) :
    s.Recalls (s.attach e change) :=
  .of_pool (pool_attach s e change) (le_revision_attach s e change)

theorem put (s : Store) (e : Entity) (a : Attachment) :
    s.Recalls (s.put e a) := by
  refine .of_pool (pool_put s e a) ?_
  cases a <;> exact le_revision_attach s e _

theorem requestRemoval (s : Store) (e : Entity) :
    s.Recalls (s.requestRemoval e) := by
  refine .of_pool (pool_requestRemoval s e) ?_
  unfold Store.requestRemoval
  split
  · exact Nat.le_succ _
  · exact Nat.le_refl _

theorem revision_foldl_drop (l : List Entity) (s : Store) :
    (l.foldl drop s).revision = s.revision := by
  induction l generalizing s with
  | nil => rfl
  | cons e l ih => exact ih (s.drop e)

theorem applyRemovals (s : Store) : s.Recalls s.applyRemovals.2 := by
  have hrevision : s.applyRemovals.2.revision = s.revision :=
    revision_foldl_drop s.pending s
  refine { revision := Nat.le_of_eq hrevision.symm, counts := ?_, issued := ?_ }
  · intro hbound hs
    rw [hrevision] at hbound ⊢
    exact (pool_foldl_drop_of_counts (e := default) s.pending hs hbound).1
  · intro hbound hs e he
    rw [hrevision] at hbound
    exact (pool_foldl_drop_of_counts s.pending hs hbound).2.2 he

theorem serve (hs : s.Sound) (call : StoreCall) :
    s.Recalls (s.serve call).2 := by
  cases call with
  | create => exact create hs
  | attach e a => exact put s e a
  | requestRemoval e => exact requestRemoval s e
  | applyRemovals => exact applyRemovals s

theorem serveAll (hs : s.Sound) (calls : List StoreCall) :
    s.Recalls (s.serveAll calls) := by
  induction calls generalizing s with
  | nil => exact refl s
  | cons call calls ih => exact (serve hs call).trans (ih (hs.serve call))

end Recalls

/-- A store recalls what it had issued before a scenario's call. -/
theorem recalls_of_run? {op : StoreAction} {names names' : Names}
    {reply : Reply} (h : op.run? names s = some (reply, names', t))
    (hs : s.Sound) : s.Recalls t := by
  rcases (StoreAction.run?_cases h).2 with
    ⟨calls, rfl, -⟩ | ⟨ref, e, -, -, rfl⟩ |
    ⟨a, b, c, kind, e, joint, -, rfl⟩ | ⟨-, rfl⟩
  · exact .serveAll hs calls
  · exact .requestRemoval s e
  · exact .attach s e _
  · exact .applyRemovals s

/-- The store has had no more lives than changes, and has issued what the joints
hold. -/
structure Remembers (s : Store) (ids : List Nat)
    (held : Nat → Option (Entity × Joint)) :
    Prop where
  counts : s.pool.Counts s.revision
  issued : ∀ j ∈ ids, ∀ p ∈ held j, s.pool.Issued p.1

theorem Remembers.recalls {ids ids' : List Nat}
    {held held' : Nat → Option (Entity × Joint)} (h : s.Remembers ids held)
    (ht : s.Recalls t) (hbound : t.revision < 2 ^ 31)
    (hheld : ∀ j ∈ ids', ∀ p ∈ held' j, t.pool.Issued p.1 ∨ j ∈ ids ∧
      held j = some p) :
    t.Remembers ids' held' := by
  refine { counts := ht.counts hbound h.counts, issued := fun j hj p hp => ?_ }
  rcases hheld j hj p hp with hnew | ⟨hold, hp⟩
  · exact hnew
  · exact ht.issued hbound h.counts p.1 (h.issued j hold p hp)

end Store

namespace Controller

variable {κ : Type} {callback : κ} {x y : Situation κ}

theorem Turn.recalls (h : Turn callback x y) (hs : x.store.Sound) :
    x.store.Recalls y.store := by
  have hmade : ∀ joint : Joint, x.store.Recalls
      (x.store.create.2.setJoint x.store.create.1 joint) := fun joint =>
    (Store.Recalls.create hs).trans (.attach _ _ _)
  cases h with
  | idle _ => exact .refl _
  | attach _ _ => exact hmade _
  | attachAndLetGo _ _ => exact (hmade _).trans (.requestRemoval _ _)
  | letGo _ _ _ => exact .requestRemoval _ _

/-- What a controller holds after a turn is an entity that the turn has made, or
what it held. -/
theorem Turn.attachment (h : Turn callback x y) (hs : x.store.Sound)
    {p : Entity × Joint} (hp : y.controller.attachment? = some p) :
    y.store.pool.Issued p.1 ∨ x.controller.attachment? = some p := by
  cases h with
  | idle _ => exact .inr hp
  | @attach parentLink childLink log finds _ =>
      have hparent := finds.parent
      have hentity : p.1 = x.store.create.1 := by
        simp only [Situation.attached, attachment?, attachedTo, hparent,
          Option.some.injEq] at hp
        rw [← hp]
      have hpool : (x.attached callback parentLink childLink log).store.pool =
          x.store.create.2.pool := Store.pool_attach _ _ _
      rw [hentity, hpool]
      exact .inl ((Pool.issued_create_iff hs.pool).2 (.inl rfl))
  | attachAndLetGo _ _ =>
      exact absurd (hp.symm.trans (World.attachment?_of_none rfl)) (by simp)
  | letGo _ _ _ =>
      exact absurd (hp.symm.trans (World.attachment?_of_none rfl)) (by simp)

end Controller

/-- The label of the joint that an operation lets take a turn. -/
def Operation.turns? : Operation → Option String
  | .updateJoint label => some label
  | _ => none

namespace World

variable {u v w : World} {r : Nat} {a b : Runner}

/-! ## What a deed does to a runner's store and joints -/

/-- No joint of the runner takes a turn on another store. -/
def Homely (r : Nat) (w : World) : Deed → Prop
  | .turn j ref => ref ≠ .runner r → ∀ a ∈ w.runner? r, j ∉ a.jointIds
  | _ => True

/-- Where the store of a runner comes from, and what its joints hold after a
deed. -/
inductive Past (w : World) (r : Nat) (held : Nat → Option (Entity × Joint))
    (b : Runner) : Prop
  | made (ids : b.jointIds = []) (store : b.store = {})
  | kept {a : Runner} (before : w.runner? r = some a)
      (ids : b.jointIds = a.jointIds) (store : b.store = a.store)
      (joints : ∀ j ∈ a.jointIds, held j = w.held j)
  | called {a : Runner} {op : StoreAction} {names : Names} {reply : Reply}
      (before : w.runner? r = some a) (ids : b.jointIds = a.jointIds)
      (run : op.run? w.names a.store = some (reply, names, b.store))
      (joints : ∀ j ∈ a.jointIds, held j = w.held j)
  | swept {a : Runner} (before : w.runner? r = some a)
      (ids : b.jointIds = a.jointIds)
      (store : b.store = a.store.applyRemovals.2)
      (joints : ∀ j ∈ a.jointIds, held j = w.held j)
  | turned {a : Runner} {j : Nat} {slot : JointSlot}
      {y : Controller.Situation Callback} (before : w.runner? r = some a)
      (ids : b.jointIds = a.jointIds) (slot? : w.joints[j]? = some slot)
      (turn : Controller.Turn (Callback.detach j) (w.situation slot a.store) y)
      (store : b.store = y.store) (own : held j = y.controller.attachment?)
      (joints : ∀ i ∈ a.jointIds, i ≠ j → held i = w.held i)
  | joined {a : Runner} {j : Nat} (before : w.runner? r = some a)
      (ids : b.jointIds = a.jointIds ++ [j]) (store : b.store = a.store)
      (own : held j = none) (joints : ∀ i ∈ a.jointIds, held i = w.held i)

/-- A runner that is as it was, up to systems that are no joints. -/
theorem Past.same {held : Nat → Option (Entity × Joint)}
    (hb : w.runner? r = some b) (hheld : ∀ j ∈ b.jointIds, held j = w.held j) :
    w.Past r held b := .kept hb rfl rfl hheld

/-- A runner after another store was put in place. -/
theorem runner_of_setStore {ref : StoreRef} {s : Store}
    (hb : (w.setStore ref s).runner? r = some b) : ∃ a, w.runner? r = some a ∧
      b = if ref = .runner r then { a with store := s } else a := by
  rw [runner?_setStore, Option.map_eq_some_iff] at hb
  obtain ⟨a, ha, rfl⟩ := hb
  exact ⟨a, ha, rfl⟩

theorem past_of_call {ref : StoreRef} {op : StoreAction}
    (hb : ((callStore ref op).left w).runner? r = some b) :
    w.Past r ((callStore ref op).left w).held b := by
  rcases left_callStore ref op w with heq | ⟨s, reply, names, s', hs, hrun, heq⟩
  · rw [heq] at hb ⊢
    exact .same hb fun _ _ => rfl
  · have hheld : ((callStore ref op).left w).held = w.held := by
      funext j
      simp only [held, heq, joints_setStore]
    rw [heq] at hb
    obtain ⟨a, ha, rfl⟩ := runner_of_setStore hb
    rw [hheld]
    by_cases href : ref = .runner r
    · rw [if_pos href]
      subst href
      have hsa : s = a.store := by simpa [store?, ha] using hs.symm
      exact .called ha rfl (hsa ▸ hrun) fun _ _ => rfl
    · rw [if_neg href]
      exact .same ha fun _ _ => rfl

theorem past_of_turn {j : Nat} {ref : StoreRef} (hd : Homely r w (.turn j ref))
    (hb : ((updateJoint j ref).left w).runner? r = some b) :
    w.Past r ((updateJoint j ref).left w).held b := by
  rcases left_updateJoint j ref w with heq | ⟨slot, s, y, hslot, hs, hturn, heq⟩
  · rw [heq] at hb ⊢
    exact .same hb fun _ _ => rfl
  · have hlt := (List.getElem?_eq_some_iff.1 hslot).1
    rw [heq] at hb ⊢
    rw [runner?_settle] at hb
    obtain ⟨a, ha, rfl⟩ := runner_of_setStore hb
    have hothers : ∀ i, i ≠ j →
        (w.settle j ref slot.transport y).held i = w.held i := by
      intro i hij
      rw [held_settle, if_neg fun hboth => hij hboth.1.symm]
    by_cases href : ref = .runner r
    · rw [if_pos href]
      subst href
      have hsa : s = a.store := by simpa [store?, ha] using hs.symm
      refine .turned ha rfl hslot (hsa ▸ hturn) rfl ?_ fun i _ hij =>
        hothers i hij
      rw [held_settle, if_pos ⟨rfl, hlt⟩]
    · rw [if_neg href]
      refine .same ha fun i hi => hothers i fun hij => ?_
      exact hd href a ha (hij ▸ hi)

/-- All that a deed can do to the store of a runner and to what its joints hold,
if none of them takes a turn on another store. -/
theorem past_of_deed (hw : w.Sound) {d : Deed} (hd : Homely r w d)
    (hb : (d.apply w).runner? r = some b) : w.Past r (d.apply w).held b := by
  cases d with
  | call ref op => exact past_of_call hb
  | turn j ref => exact past_of_turn hd hb
  | copy ref target =>
      simp only [Deed.apply] at hb ⊢
      cases hs : w.store? ref with
      | none =>
          rw [hs] at hb
          exact .same hb fun _ _ => rfl
      | some s =>
          rw [hs] at hb
          exact .same hb fun _ _ => rfl
  | configure j ref e element =>
      simp only [Deed.apply, runner?_configureJoint] at hb
      exact .same hb fun i _ => held_configureJoint hw j ref e element i
  | sweep q =>
      simp only [Deed.apply] at hb ⊢
      rcases left_applyRemovals q w with ⟨-, heq⟩ | ⟨s, hs, heq⟩
      · rw [heq] at hb ⊢
        exact .same hb fun _ _ => rfl
      · have hheld : ((applyRemovals q).left w).held = w.held := by
          funext j
          simp only [held, heq, joints_setStore]
        rw [heq] at hb
        obtain ⟨a, ha, rfl⟩ := runner_of_setStore hb
        rw [hheld]
        by_cases hq : StoreRef.runner q = .runner r
        · rw [if_pos hq]
          cases hq
          have hsa : s = a.store := by simpa [store?, ha] using hs.symm
          exact .swept ha rfl (by rw [hsa]) fun _ _ => rfl
        · rw [if_neg hq]
          exact .same ha fun _ _ => rfl
  | clock q info =>
      have hheld : (w.setClock q info).held = w.held := by
        funext j
        simp only [held, joints_setClock]
      simp only [Deed.apply] at hb ⊢
      rw [hheld]
      simp only [setClock] at hb
      cases hq : w.runner? q with
      | none =>
          rw [hq] at hb
          exact .same hb fun _ _ => rfl
      | some x =>
          simp only [hq, runner?_setRunner_of hq] at hb
          split at hb
          · next hrq =>
            subst hrq
            cases hb
            exact .kept hq rfl rfl fun _ _ => rfl
          · exact .same hb fun _ _ => rfl
  | makeJoint label transport =>
      simp only [Deed.apply] at hb ⊢
      refine .same ?_ fun i _ => held_addJoint w label transport i
      obtain ⟨names, -, heq⟩ := left_addJoint label transport w
      rwa [heq] at hb
  | enrol q label transport e element =>
      obtain ⟨entries, heq⟩ := left_enrol q label transport e element w
      have hmade := (hw.makeJoint label transport).report entries
      have hheld : ∀ i, ((Deed.enrol q label transport e element).apply w).held
          i = w.held i := by
        intro i
        simp only [Deed.apply, heq, held, joints_register]
        exact (held_configureJoint hmade _ _ e element i).trans
          (held_addJoint w label transport i)
      obtain ⟨names, -, hadd⟩ := left_addJoint label transport w
      have hbefore : ∀ {a : Runner},
          ((configureJoint w.joints.length (.runner q) e element).left
          (((Session.addJoint label transport).left w).report entries)).runner?
            r = some a →
            w.runner? r = some a := by
        intro a ha
        rw [runner?_configureJoint, hadd] at ha
        exact ha
      simp only [Deed.apply, heq] at hb
      rcases runner?_register hb with hb | ⟨-, a, ha, rfl⟩
      · exact .same (hbefore hb) fun i _ => hheld i
      · refine .joined (hbefore ha) (jointIds_concat a _) rfl ?_ fun i _ =>
          hheld i
        exact (hheld _).trans (held_length w)
  | enlistScript q name update | enlistInert q =>
      simp only [Deed.apply] at hb ⊢
      have hheld : ∀ i system, (w.register q system).held i = w.held i :=
        fun i system => by
        simp only [held, joints_register]
      rcases runner?_register hb with hb | ⟨-, a, ha, rfl⟩
      · exact .same hb fun i _ => hheld i _
      · exact .kept ha ((jointIds_concat a _).trans (List.append_nil _)) rfl
          fun i _ => hheld i _
  | makeRunner bus dt =>
      obtain ⟨runner, hstore, hsystems, heq⟩ := left_makeRunner bus dt w
      have hrunner : ((makeRunner bus dt).left w).runner? r =
          if r = w.runners.length then some runner else w.runner? r := by
        rw [heq]
        exact runner?_append w runner r
      simp only [Deed.apply, hrunner] at hb ⊢
      split at hb
      · cases hb
        exact .made (by simp [Runner.jointIds, hsystems]) hstore
      · refine .same hb fun i _ => ?_
        rw [heq]
        rfl
  | dropRunner q =>
      simp only [Deed.apply] at hb ⊢
      rcases left_dropRunner q w with heq | ⟨x, hq, heq⟩
      · rw [heq] at hb ⊢
        exact .same hb fun _ _ => rfl
      · have hrunner : ((dropRunner q).left w).runner? r =
            if r = q then none else w.runner? r := by
          rw [heq]
          exact runner?_setRunner_of hq none r
        have hheld : ((dropRunner q).left w).held = w.held := by
          rw [heq]
          rfl
        rw [hrunner] at hb
        split at hb
        · cases hb
        · exact .same hb fun i _ => congrFun hheld i

/-! ## What the store of a runner remembers -/

/-- The store of the runner remembers what the joints of the runner hold, as
long as its revision is below the bound at which a slot could start its
generations over. -/
def Remembers (r : Nat) (w : World) : Prop :=
  ∀ a ∈ w.runner? r, a.store.revision < 2 ^ 31 →
    a.store.Remembers a.jointIds w.held

theorem Remembers.reaction (h : v.Remembers r) (hr : v.Limited w) :
    w.Remembers r := by
  intro b hb hbound
  obtain ⟨a, ha, hstill⟩ := hr.runner? hb
  have hstore : b.store = a.store := (Runner.store_of_still hstill).symm
  have hids : b.jointIds = a.jointIds :=
    congrArg (·.filterMap System.joint?) (Runner.systems_of_still hstill).symm
  rw [hstore] at hbound ⊢
  rw [hids]
  have hold := h a ha hbound
  exact { counts := hold.counts,
          issued := fun j hj p hp => hold.issued j hj p (hr.held j ▸ hp) }

/-- A deed in which no joint of a runner takes a turn on another store lets its
store remember what its joints hold. -/
theorem Remembers.deed (h : w.Remembers r) (hw : w.Sound) {d : Deed}
    (hd : Homely r w d) :
    (d.apply w).Remembers r := by
  intro b hb hbound
  have hkeep : ∀ {a : Runner}, w.runner? r = some a → b.jointIds = a.jointIds →
      a.store.Recalls b.store →
      (∀ j ∈ a.jointIds, (d.apply w).held j = w.held j) →
      b.store.Remembers b.jointIds (d.apply w).held := by
    intro a ha hids hrecalls hheld
    have hold := h a ha (Nat.lt_of_le_of_lt hrecalls.revision hbound)
    rw [hids]
    exact hold.recalls hrecalls hbound fun j hj p hp =>
      .inr ⟨hj, hheld j hj ▸ hp⟩
  cases past_of_deed hw hd hb with
  | made ids store =>
      rw [ids, store]
      exact { counts := Store.counts_empty, issued := by simp }
  | kept before ids store joints =>
      exact hkeep before ids (store ▸ .refl _) joints
  | called before ids run joints =>
      exact hkeep before ids
        (Store.recalls_of_run? run (hw.stores (store?_of_runner? before)))
          joints
  | swept before ids store joints =>
      exact hkeep before ids (store ▸ .applyRemovals _) joints
  | @turned a j slot y before ids hslot turn store own joints =>
      have hsound : a.store.Sound := hw.stores (store?_of_runner? before)
      have hrecalls : a.store.Recalls b.store := store ▸ turn.recalls hsound
      have hold := h a before (Nat.lt_of_le_of_lt hrecalls.revision hbound)
      rw [ids]
      refine hold.recalls hrecalls hbound fun i hi p hp => ?_
      by_cases hij : i = j
      · subst hij
        rw [own] at hp
        rw [store, held_of_slot hslot]
        exact (turn.attachment hsound hp).imp_right fun hp => ⟨hi, hp⟩
      · exact .inr ⟨hi, joints i hi hij ▸ hp⟩
  | @joined a j before ids store own joints =>
      have hold := h a before (store ▸ hbound)
      rw [ids, store]
      refine { counts := hold.counts, issued := fun i hi p hp => ?_ }
      rcases List.mem_append.1 hi with hi | hi
      · exact hold.issued i hi p (joints i hi ▸ hp)
      · rw [List.mem_singleton.1 hi, own] at hp
        cases hp

theorem remembers_empty : Remembers r {} := by
  intro a ha
  cases ha

/-- Along a path on which the joints of a runner stay with it its store
remembers what they hold. -/
theorem Path.remembers {P : World → Deed → Prop} (hpath : Path P u v)
    (hu : u.Sound) (h : u.Remembers r)
    (hP : ∀ {w : World} {d : Deed}, w.Sound → P w d → Homely r w d) :
    v.Remembers r := by
  have hR : Chained fun w w' : World => w.Remembers r → w'.Remembers r :=
    { refl := fun _ => id, trans := fun h h' hw => h' (h hw) }
  exact hpath.keeps hR (fun _ hreaction hw => hw.reaction hreaction.toLimited)
    (fun hw hd hknown => hknown.deed hw (hP hw hd)) hu h

/-! ## In a session -/

/-- The request lets no joint of a runner take a turn on another store. A runner
owns its joints, and a turn is asked for of joints that stand alone. -/
def Homebound (r : Nat) (w : World) (request : Request) : Prop :=
  request.store ≠ .runner r → ∀ label ∈ request.operation.turns?,
    ∀ j ∈ w.names.joints.get? label, ∀ a ∈ w.runner? r, j ∉ a.jointIds

instance (r : Nat) (w : World) (request : Request) :
    Decidable (Homebound r w request) :=
  inferInstanceAs (Decidable (_ → ∀ label ∈ request.operation.turns?,
    ∀ j ∈ w.names.joints.get? label, ∀ a ∈ w.runner? r, j ∉ a.jointIds))

theorem homely_of_stepDeed {q : Nat} {d : Deed} (hw : w.Sound)
    (hd : StepDeed q w d) :
    Homely r w d := by
  cases hd with
  | turn hrunner hj =>
      intro href a ha hmem
      exact href (congrArg StoreRef.runner (hw.owned.apart hrunner ha hj hmem))
  | call => trivial
  | sweep => trivial
  | clock => trivial

theorem homely_of_homebound {request : Request} {d : Deed}
    (hrequest : w.Homebound r request) (hv : v.Sound)
    (hd : RequestDeed w request.store request.operation v d) :
    Homely r v d := by
  obtain ⟨ref, op⟩ := request
  cases hd with
  | step deed => exact homely_of_stepDeed hv deed
  | run deed => exact homely_of_stepDeed hv deed
  | turn hl => exact fun href a ha => hrequest href _ rfl _ hl a ha
  | _ => trivial

/-- In a session whose joints stay with their runner the store of the runner
remembers what they hold. -/
theorem remembers_worldAt {requests : List Request}
    (h : Session.Heeds (Homebound r) {} requests) (k : Nat) :
    (Session.worldAt requests k).Remembers r := by
  have hR : Chained fun w w' : World => w.Sound → w.Remembers r → w'.Sound ∧
      w'.Remembers r :=
    { refl := fun _ => .intro,
      trans := fun h h' hw hknown => (h hw hknown).elim h' }
  refine (Session.worldAt_keeps hR (fun {i m} _ hm hw hknown => ?_)
    (Nat.zero_le k) sound_empty remembers_empty).2
  have hpath := Session.Moment.path (Session.worldAt requests i) m
  refine ⟨hpath.sound hw, hpath.remembers hw hknown fun hv hd => ?_⟩
  cases m with
  | step q => exact homely_of_stepDeed hv hd
  | request asked => exact homely_of_homebound (Session.heeds_moment h hm) hv hd
  | collect => exact absurd hd id

end World

end Linkage
