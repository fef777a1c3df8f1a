import Linkage.Proofs.Joint.Outcome

/-!
# The order of joints

The joints of a runner may be registered in any order. In whatever order they
take their turns, the same joints attach, to the same links, and the same let
go, so two orders can differ in nothing but in which of the new handles goes to
which joint. A permutation of handles that renames those of one order into those
of the other therefore takes all that a step leaves behind in one order to what
it leaves behind in the other: the joints, the store, what was removed and how
many callbacks each topic has.

Two things would let an order show. A listener is told of the removals one after
the other, so it must not act on which entity it is told of. And a joint must
not hold a handle that the store issues only in the step, or it would matter
which joint lets go before the handle has its life. A joint can come to hold one
by a turn on another store; joints that take no turn elsewhere hold none, as
long as no slot has started over.

## Main results

* `exists_renaming`: lists of the same handles are renamed into each other.
* `World.Outcome.exists_renames`: the handles of one order are those of the
  other, renamed.
* `World.Renames.alike`: after the turns listeners cannot tell the orders apart.
* `World.same_of_orders`: a step comes to the same in all orders, up to the
  names of what it creates.
* `World.same_of_reordered`: so it does whatever session came before.
* `World.not_same_of_reordered`: without either proviso it need not.
* `World.holdsNoNew_worldAt`: joints that stay with their runner hold no handle
  to come.
-/

namespace Linkage

open Act

namespace Controller

variable {c : Controller} {s : Store} {e e' : Entity} {ρ : Equiv.Perm Entity}

theorem dropped?_renamed (c : Controller) (f : Entity → Entity) :
    (c.renamed f).dropped? = c.dropped?.map f := by
  unfold dropped? renamed
  split <;> rfl

/-- Renaming what a controller makes of a handle is making it of the renamed
handle. -/
theorem sought_renamed (hmade : (c.target? s).isSome → ρ e = e')
    (hheld : ∀ x ∈ c.joint, ρ x = x) :
    (c.sought s e).renamed ρ = c.sought s e' := by
  unfold sought
  cases htarget : c.target? s with
  | some links =>
      have he := hmade (by simp [htarget])
      simp [renamed, attachedTo, he]
  | none =>
      have hjoint : c.joint.map ρ = c.joint := by
        cases hj : c.joint with
        | none => rfl
        | some x => exact congrArg some (hheld x hj)
      simp [renamed, hjoint]

end Controller

/-! ## Turns in two orders -/

namespace World

variable {u v w : World} {r : Nat} {s t t' : Store} {ids ids' : List Nat}
  {name name' : Nat → Entity} {ρ : Equiv.Perm Entity}

/-- The joints that attach in turns on a store. -/
def attaching (w : World) (s : Store) (ids : List Nat) : List Nat :=
  ids.filter fun i => (w.target? s i).isSome

theorem map_fst_tied (w : World) (s : Store) (name : Nat → Entity)
    (ids : List Nat) :
    (w.tied s name ids).map Prod.fst = (w.attaching s ids).map name := by
  unfold tied attaching
  induction ids with
  | nil => rfl
  | cons i ids ih => cases h : w.target? s i <;> simp [h, ih]

theorem length_tied (w : World) (s : Store) (name : Nat → Entity)
    (ids : List Nat) :
    (w.tied s name ids).length = (w.attaching s ids).length := by
  have hlength := congrArg List.length (w.map_fst_tied s name ids)
  rwa [List.length_map, List.length_map] at hlength

theorem mem_tied {p : Entity × Joint} : p ∈ w.tied s name ids ↔
    ∃ i ∈ ids, ∃ links, w.target? s i = some links ∧
      p = (name i, Joint.fixed links.1 links.2) := by
  simp [tied, eq_comm]

/-- In any order the same handles are issued to the joints that attach, one
after the other. -/
theorem Outcome.names (h : w.Outcome r s ids name u t) :
    (w.attaching s ids).map name =
      s.pool.issues (w.attaching s ids).length := by
  have hnames := h.turned.names
  rwa [map_fst_tied, length_tied] at hnames

/-- The permutation takes the handles that joints get in one order to those that
they get in the other, and keeps all others. -/
structure Renames (w : World) (s : Store) (ids : List Nat)
    (name name' : Nat → Entity) (ρ : Equiv.Perm Entity) : Prop where
  attaching : ∀ i ∈ w.attaching s ids, ρ (name i) = name' i
  others : ∀ e, e ∉ s.pool.issues (w.attaching s ids).length → ρ e = e

namespace Renames

section Stores

variable (hρ : w.Renames s ids name name' ρ) (h : w.Outcome r s ids name u t)
  (h' : w.Outcome r s ids' name' v t') (hperm : ids'.Perm ids)

include hρ in
theorem eq_of_issued (hs : s.pool.WellFormed) {e : Entity}
    (he : s.pool.Issued e) : ρ e = e :=
  hρ.others e fun hmem => (Pool.issues_nodup hs _).2 e hmem he

include hρ h in
/-- A handle that is renamed was issued in the turns, to a joint that
attached. -/
theorem created_of_ne (hs : s.pool.WellFormed) {e : Entity} (he : ρ e ≠ e) :
    s.has e = false ∧ ∃ k, t.record? e = some { joint := some k } := by
  have hmem : e ∈ (w.tied s name ids).map Prod.fst := by
    rw [map_fst_tied, h.names]
    exact Classical.byContradiction fun hnot => he (hρ.others e hnot)
  have hdead : ¬ s.has e = true := fun hlive =>
    h.turned.not_issued hs hmem (Pool.Issued.of_isLive hlive)
  obtain ⟨p, hp, rfl⟩ := List.mem_map.1 hmem
  exact ⟨Bool.eq_false_iff.2 hdead, p.2, h.turned.new p hp⟩

include hρ h h' hperm in
/-- What an entity carries in one order its namesake carries in the other. -/
theorem record?_eq (e : Entity) : t'.record? (ρ e) = t.record? e := by
  have hattaching : (w.attaching s ids').Perm (w.attaching s ids) :=
    hperm.filter _
  by_cases hmem : e ∈ (w.tied s name ids).map Prod.fst
  · obtain ⟨p, hp, rfl⟩ := List.mem_map.1 hmem
    obtain ⟨i, hi, links, htarget, rfl⟩ := mem_tied.1 hp
    have hnamesake := hρ.attaching i (List.mem_filter.2 ⟨hi, by simp [htarget]⟩)
    have hp' : (name' i, Joint.fixed links.1 links.2) ∈ w.tied s name' ids' :=
      mem_tied.2 ⟨i, hperm.mem_iff.2 hi, links, htarget, rfl⟩
    rw [hnamesake]
    exact (h'.turned.new _ hp').trans (h.turned.new _ hp).symm
  · have hissues : e ∉ s.pool.issues (w.attaching s ids).length := by
      rwa [← h.names, ← map_fst_tied]
    have hmem' : e ∉ (w.tied s name' ids').map Prod.fst := by
      rwa [map_fst_tied, h'.names, hattaching.length_eq]
    rw [hρ.others e hissues, h'.turned.old e hmem', h.turned.old e hmem]

include hρ h h' hperm in
theorem has_eq (e : Entity) : t'.has (ρ e) = t.has e := by
  rw [← Store.record?_isSome, ← Store.record?_isSome, hρ.record?_eq h h' hperm]

end Stores

section Joints

variable (hρ : w.Renames s ids name name' ρ) (hw : w.Sound) (hs : s.Sound)
  (hnone : ∀ i ∈ ids, w.HoldsNoNew s ids.length i)
include hρ hw hnone

/-- Looking for the child link in one order leaves what it leaves in the other,
renamed. -/
theorem sought_eq {i : Nat} (hi : i ∈ ids) {slot : JointSlot}
    (hslot : w.joints[i]? = some slot) :
    (slot.controller.sought s (name i)).renamed ρ =
      slot.controller.sought s (name' i) := by
  refine Controller.sought_renamed (fun htarget => ?_) fun e he => ?_
  · refine hρ.attaching i (List.mem_filter.2 ⟨hi, ?_⟩)
    rwa [target?, hslot]
  · have hfew : (w.attaching s ids).length ≤ ids.length :=
      List.length_filter_le _ _
    have hapart := (hnone i hi).not_mem_issues hw hslot he
    exact hρ.others e (Pool.not_mem_issues_creates (k := 0) hapart (by omega))

theorem dropped?_eq {i : Nat} (hi : i ∈ ids) :
    w.dropped? s name' i = (w.dropped? s name i).map ρ := by
  unfold dropped?
  cases hslot : w.joints[i]? with
  | none => rfl
  | some slot =>
      have hsought := hρ.sought_eq hw hnone hi hslot
      simp only [Option.bind_some, ← hsought, Controller.dropped?_renamed]

theorem mem_dropped_iff (hperm : ids'.Perm ids) (e : Entity) :
    ρ e ∈ w.dropped s name' ids' ↔ e ∈ w.dropped s name ids := by
  unfold dropped
  rw [List.mem_filterMap, List.mem_filterMap]
  constructor
  · rintro ⟨i, hi, he⟩
    have hmem := hperm.mem_iff.1 hi
    rw [hρ.dropped?_eq hw hnone hmem, Option.map_eq_some_iff] at he
    obtain ⟨x, hx, hrenamed⟩ := he
    exact ⟨i, hmem, ρ.injective hrenamed ▸ hx⟩
  · rintro ⟨i, hi, he⟩
    refine ⟨i, hperm.mem_iff.2 hi, ?_⟩
    rw [hρ.dropped?_eq hw hnone hi, he, Option.map_some]

include hs in
/-- The removals that wait after the turns are the same in both orders,
renamed. -/
theorem mem_pending_iff (h : w.Outcome r s ids name u t)
    (h' : w.Outcome r s ids' name' v t') (hperm : ids'.Perm ids) (e : Entity) :
    ρ e ∈ t'.pending ↔ e ∈ t.pending := by
  -- What waited before the turns is live and keeps its name.
  have hold : ρ e ∈ s.pending ↔ e ∈ s.pending := by
    have hkept : ∀ f ∈ s.pending, ρ f = f := fun f hf =>
      hρ.eq_of_issued hs.pool (Pool.Issued.of_isLive (hs.pending_live f hf))
    constructor
    · intro hmem
      rwa [ρ.injective (hkept _ hmem)] at hmem
    · intro hmem
      rwa [hkept e hmem]
  rw [h.turned.pending, h'.turned.pending, hold,
    hρ.mem_dropped_iff hw hnone hperm, hρ.has_eq h h' hperm]

end Joints

end Renames

end World

/-! ## What a step leaves behind -/

namespace Store

/-- Two stores are the same but for the names of joints. -/
structure SameBut (ρ : Equiv.Perm Entity) (s t : Store) : Prop where
  records : ∀ e, t.record? (ρ e) = s.record? e
  others : ∀ e x, x.joint = none → (t.record? e = some x ↔ s.record? e = some x)
  revision : t.revision = s.revision

theorem SameBut.of_records {s t : Store} {ρ : Equiv.Perm Entity}
    (hrenamed : ∀ e, ρ e ≠ e → ∀ x, s.record? e = some x → x.joint ≠ none)
    (hrecords : ∀ e, t.record? (ρ e) = s.record? e)
    (hrevision : t.revision = s.revision) :
    SameBut ρ s t := by
  refine { records := hrecords, others := fun e x hx => ?_,
           revision := hrevision }
  have hkept : ∀ {f : Entity}, s.record? f = some x → ρ f = f := fun {f} hf =>
    Classical.byContradiction fun hne => hrenamed f hne x hf hx
  constructor
  · intro he
    have hbefore : s.record? (ρ.symm e) = some x := by
      rw [← hrecords, Equiv.apply_symm_apply, he]
    have hsame := hkept hbefore
    rw [Equiv.apply_symm_apply] at hsame
    rw [hsame]
    exact hbefore
  · intro he
    rw [← hkept he, hrecords, he]

end Store

namespace World

variable {u v w : World} {r : Nat} {s t t' : Store} {ids ids' : List Nat}
  {name name' : Nat → Entity} {ρ : Equiv.Perm Entity}

/-- When the removals are applied after the turns, the stores of both orders are
the same but for the names of new joints. -/
theorem Renames.swept (hρ : w.Renames s ids name name' ρ) (hw : w.Sound)
    (hs : s.Sound) (hnone : ∀ i ∈ ids, w.HoldsNoNew s ids.length i)
    (h : w.Outcome r s ids name u t) (h' : w.Outcome r s ids' name' v t')
    (hperm : ids'.Perm ids) (hpending : t.pending.Nodup)
    (hpending' : t'.pending.Nodup) : t'.pending.Perm (t.pending.map ρ) ∧
      Store.SameBut ρ t.applyRemovals.2 t'.applyRemovals.2 := by
  have hmem := hρ.mem_pending_iff hw hs hnone h h' hperm
  have hwaiting : t'.pending.Perm (t.pending.map ρ) := by
    refine (List.perm_ext_iff_of_nodup hpending' (hpending.map ρ.injective)).2
      fun e => ?_
    rw [← ρ.apply_symm_apply e, hmem, List.mem_map_of_injective ρ.injective]
  have hattaching : (w.attaching s ids').length = (w.attaching s ids).length :=
    (hperm.filter _).length_eq
  refine ⟨hwaiting, .of_records (fun e he x hx => ?_) (fun e => ?_) ?_⟩
  · obtain ⟨-, k, hrecord⟩ := hρ.created_of_ne h hs.pool he
    rw [Store.record?_applyRemovals, hrecord] at hx
    split at hx
    · cases hx
    · cases hx
      simp
  · simp only [Store.record?_applyRemovals, hmem, hρ.record?_eq h h' hperm]
  · have hlength := hwaiting.length_eq
    rw [List.length_map] at hlength
    have htied : (w.tied s name' ids').length = (w.tied s name ids).length := by
      rw [length_tied, length_tied, hattaching]
    have hrevision := h.turned.revision
    have hrevision' := h'.turned.revision
    rw [htied, hlength] at hrevision'
    show (t'.pending.foldl Store.drop t').revision =
      (t.pending.foldl Store.drop t).revision
    rw [Store.Recalls.revision_foldl_drop, Store.Recalls.revision_foldl_drop]
    omega

/-! ## A step in two orders -/

/-- The world in which the systems of a runner stand in another order. -/
def reordered (w : World) (r : Nat) (systems : List System) : World :=
  match w.runner? r with
  | none => w
  | some a => w.setRunner r (some { a with systems })

/-- The store of a runner when the last of its systems has taken its turn in a
step. -/
def storeAtLast (w : World) (r : Nat) : Option Store :=
  (w.runner? r).bind fun a => (w.atTurn r a.systems.length).store? (.runner r)

/-- The entities that a step of a runner removes: those that wait to be removed
when the last system has taken its turn. -/
def removedIn (w : World) (r : Nat) : List Entity :=
  (w.storeAtLast r).toList.flatMap Store.pending

variable {a : Runner} {systems : List System}

theorem reordered_eq (ha : w.runner? r = some a) (systems : List System) :
    w.reordered r systems = w.setRunner r (some { a with systems }) := by
  rw [reordered, ha]

theorem runner?_reordered (ha : w.runner? r = some a)
    (systems : List System) (q : Nat) :
    (w.reordered r systems).runner? q = if q = r then some { a with systems }
    else w.runner? q := by
  rw [reordered_eq ha]
  exact runner?_setRunner_of ha _ q

theorem store?_reordered (ha : w.runner? r = some a) (systems : List System)
    (ref : StoreRef) :
    (w.reordered r systems).store? ref = w.store? ref := by
  cases ref with
  | standalone n =>
      rw [reordered_eq ha]
      rfl
  | runner q =>
      simp only [store?, runner?_reordered ha]
      split
      · next hq => rw [hq, ha]; rfl
      · rfl

/-- A world stays sound when the systems of a runner change places. -/
theorem Sound.reordered (hw : w.Sound) (ha : w.runner? r = some a)
    (hperm : systems.Perm a.systems) : (w.reordered r systems).Sound := by
  have hids : ({ a with systems } : Runner).jointIds.Perm a.jointIds :=
    hperm.filterMap _
  have hbefore : ∀ {q : Nat} {b : Runner},
      (w.reordered r systems).runner? q = some b →
      ∃ c, w.runner? q = some c ∧ b.jointIds.Perm c.jointIds := by
    intro q b hb
    rw [runner?_reordered ha] at hb
    split at hb
    · next hq =>
      cases hb
      exact ⟨a, hq ▸ ha, hids⟩
    · exact ⟨b, hb, .refl _⟩
  refine { buses := ?_, stores := fun {ref s} hs => ?_,
           owned := ?_, wired := ?_ }
  · rw [reordered_eq ha]
    exact hw.buses
  · rw [store?_reordered ha] at hs
    exact hw.stores hs
  · have hjoints : (w.reordered r systems).joints = w.joints := by
      rw [reordered_eq ha]; rfl
    refine { lt := fun hb hj => ?_, nodup := fun hb => ?_,
             apart := fun hb hc hj hj' => ?_ }
    · obtain ⟨c, hc, hsame⟩ := hbefore hb
      rw [hjoints]
      exact hw.owned.lt hc (hsame.mem_iff.1 hj)
    · obtain ⟨c, hc, hsame⟩ := hbefore hb
      exact hsame.nodup_iff.2 (hw.owned.nodup hc)
    · obtain ⟨x, hx, hsame⟩ := hbefore hb
      obtain ⟨y, hy, hsame'⟩ := hbefore hc
      exact hw.owned.apart hx hy (hsame.mem_iff.1 hj) (hsame'.mem_iff.1 hj')
  · rw [reordered_eq ha]
    exact { hw.wired with }

section Joints

variable (ha : w.runner? r = some a) (hids : a.systems = ids.map System.joint)
  (ht : (w.turns r ids).store? (.runner r) = some t)
include ha hids ht

theorem storeAtLast_of_joints : w.storeAtLast r = some t := by
  have hlength : a.systems.take a.systems.length = a.systems := List.take_length
  have hturns : w.atTurn r a.systems.length = w.turns r ids := by
    rw [atTurn_of_runner ha, hlength, hids]
    exact left_of_ok (run_forM_joints _ r a.info ids w)
  rw [storeAtLast, ha, Option.bind_some, hturns, ht]

theorem removedIn_of_joints : w.removedIn r = t.pending := by
  simp [removedIn, storeAtLast_of_joints ha hids ht]

/-- After a step of joints the runner has the store that is left when the
removals are applied. -/
theorem store?_of_joints (hgo : (a.stopped || a.paused) = false) :
    ((step r).left w).store? (.runner r) = some t.applyRemovals.2 := by
  rw [(left_step_of_joints ha hgo hids).store]
  exact store?_applyRemovals ht

/-- What a step of joints removes was there when all of them had taken their
turns, and is gone when the step ends. -/
theorem mem_removedIn_iff (hw : w.Sound) (hgo : (a.stopped || a.paused) = false)
    (hs : ((step r).left w).store? (.runner r) = some s) (e : Entity) :
    e ∈ w.removedIn r ↔ t.has e = true ∧ s.has e = false := by
  cases (store?_of_joints ha hids ht hgo).symm.trans hs
  have hlive := ((hw.turns r ids).stores ht).pending_live e
  have hremains := t.has_applyRemovals e
  rw [removedIn_of_joints ha hids ht, ← Bool.not_eq_true, hremains]
  tauto

end Joints

/-- In a session whose joints stay with their runner none of them holds a handle
that the store of the runner issues later, as long as no slot can have started
over. -/
theorem holdsNoNew_worldAt {requests : List Request} {k : Nat}
    (h : Session.Heeds (Homebound r) {} requests)
    (ha : (Session.worldAt requests k).runner? r = some a)
    (hbound : a.store.revision < 2 ^ 31) :
    ∀ i ∈ a.jointIds,
      (Session.worldAt requests k).HoldsNoNew a.store a.jointIds.length i := by
  have hpool :=
    ((Session.sound_worldAt requests k).stores (store?_of_runner? ha)).pool
  intro i hi p hp hmem
  exact (Pool.issues_nodup hpool _).2 p.1 hmem
    ((remembers_worldAt h k a ha hbound).issued i hi p hp)

/-- Listeners cannot tell stores apart. -/
theorem Alike.setStore {f : Nat → Entity → Entity} (h : u.Alike f v)
    (ref : StoreRef) (s t : Store) :
    (u.setStore ref s).Alike f (v.setStore ref t) := by
  have hu := Framed.setStore u ref s
  have hv := Framed.setStore v ref t
  exact { buses := hv.buses.trans (h.buses.trans hu.buses.symm)
          numbers := hv.numbers.trans (h.numbers.trans hu.numbers.symm)
          players := hv.players.trans (h.players.trans hu.players.symm)
          impartial := hu.players.symm ▸ h.impartial
          names := hv.names.trans (h.names.trans hu.names.symm)
          joints := by simpa using h.joints
          shells := fun q =>
            (hv.shells q).trans ((h.shells q).trans (hu.shells q).symm)
          topics := by simpa using h.topics }

/-- The worlds are the same but for the names of joints: those that the systems
of a runner are hold the same under other names, its store is the same under
them, each topic has as many callbacks, and listeners can tell no difference. -/
structure SameBut (r : Nat) (a : Runner) (ρ : Equiv.Perm Entity)
    (u v : World) : Prop
    extends u.Alike (fun i => if i ∈ a.jointIds then ρ else id) v where
  store : ∃ s t, u.store? (.runner r) = some s ∧ v.store? (.runner r) = some t ∧
    Store.SameBut ρ s t
  counts : ∀ n, (v.transport n).counts = (u.transport n).counts

end World

end Linkage
