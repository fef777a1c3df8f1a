import Linkage.Proofs.Joint.Attaching
import Linkage.Proofs.Joint.Provenance
import Linkage.Proofs.World.Alike

/-!
# What a turn comes to

A turn of a joint has two parts. First the joint looks for its child link, if it
has not attached, and attaches if there is one to see; then it looks at its
flag, and lets go of what it holds if a command has come. The joints that take
their turns before it add nothing to the store that a look could find, so what
the turns come to is decided by the store in which the first of them is taken:
which joints attach, and to what, and which let go. Only the handle that a new
joint gets goes by the order.

## Main results

* `Controller.preUpdate_parts`: a turn is a look for the child link and a look
  at the flag.
* `Controller.target?_grows`: the turns of other joints change nothing about the
  look.
* `Store.Turned`: what turns make of a store.
* `World.exists_outcome`: what turns make of a world.
-/

namespace Linkage

open Act

/-! ## One turn -/

namespace Controller

variable {κ : Type} {c : Controller} {s t : Store}

/-- The parent link and the child link that a controller ties in a turn, if it
attaches. -/
def target? (c : Controller) (s : Store) : Option (Entity × Entity) :=
  if c.validConfig && !c.initialized then
    match c.spec, c.model, c.parentLink with
    | some spec, some model, some parentLink =>
        match search spec model s with
        | .link childLink => some (parentLink, childLink)
        | _ => none
    | _, _, _ => none
  else none

/-- The controller once it has looked for its child link, given the handle of a
joint to make. -/
def sought (c : Controller) (s : Store) (e : Entity) : Controller :=
  match c.target? s with
  | some links => c.attachedTo links.2 e
  | none => c

/-- The entity that the controller lets go of when it looks at its flag. -/
def dropped? (c : Controller) : Option Entity :=
  if c.initialized && c.requested then c.joint else none

/-- The controller once it has looked at its flag. -/
def eased (c : Controller) : Controller :=
  if c.dropped?.isSome then c.lettingGo else c

end Controller

namespace Store

/-- The store once a controller has looked for its child link. -/
def tied (s : Store) : Option (Entity × Entity) → Store
  | some links => s.create.2.setJoint s.create.1 (Joint.fixed links.1 links.2)
  | none => s

/-- The store once a controller has looked at its flag. -/
def asked (s : Store) : Option Entity → Store
  | some e => s.requestRemoval e
  | none => s

end Store

namespace Controller

variable {κ : Type} {c : Controller} {s t : Store}

end Controller

namespace Store.Grows

variable {s t : Store} {model : Entity} {name : String}

/-- What is live and has a property that no new entity has is the same before
and after. -/
theorem isFirst_iff (h : s.Grows t) {P Q : Entity → Prop}
    (hkept : ∀ {e : Entity} {r : Record}, s.record? e = some r →
      t.record? e = some r →
      (P e ↔ Q e))
    (hnew : ∀ {e : Entity} {k : Joint},
      t.record? e = some { joint := some k } → ¬ Q e)
    (e : Entity) : s.IsFirst P e ↔ t.IsFirst Q e := by
  have hsame : ∀ f, s.has f = true ∧ P f ↔ t.has f = true ∧ Q f := by
    intro f
    constructor
    · rintro ⟨hlive, hf⟩
      obtain ⟨r, hr⟩ := exists_record?_of_has hlive
      exact ⟨h.has hlive, (hkept hr (h.kept hr)).1 hf⟩
    · rintro ⟨hlive, hf⟩
      obtain ⟨r, hr⟩ := exists_record?_of_has hlive
      rcases h.new hr with hold | ⟨-, k, rfl⟩
      · exact ⟨((record?_eq_some_iff _ _ _).1 hold).1, (hkept hold hr).2 hf⟩
      · exact absurd hf (hnew hr)
  constructor
  · intro he
    obtain ⟨hlive, hholds⟩ := (hsame e).1 ⟨he.live, he.holds⟩
    exact { live := hlive, holds := hholds, least := fun f hf hq =>
              have ⟨hlive', hp⟩ := (hsame f).2 ⟨hf, hq⟩
              he.least f hlive' hp }
  · intro he
    obtain ⟨hlive, hholds⟩ := (hsame e).2 ⟨he.live, he.holds⟩
    exact { live := hlive, holds := hholds, least := fun f hf hp =>
              have ⟨hlive', hq⟩ := (hsame f).1 ⟨hf, hp⟩
              he.least f hlive' hq }

theorem first?_modelNamed (h : s.Grows t) (name : String) :
    t.first? (modelNamed name) = s.first? (modelNamed name) := by
  refine Option.ext fun e => ?_
  rw [first?_modelNamed_eq_some_iff, first?_modelNamed_eq_some_iff]
  refine (h.isFirst_iff (fun hr hr' => ?_) (fun hr hmodel => ?_) e).symm
  · rw [modelNamed_iff_of_record? hr, modelNamed_iff_of_record? hr']
  · exact absurd ((modelNamed_iff_of_record? hr).1 hmodel).1 (by simp)

theorem linkNamed? (h : s.Grows t) (model : Entity) (name : String) :
    t.linkNamed? model name = s.linkNamed? model name := by
  refine Option.ext fun e => ?_
  rw [linkNamed?_eq_some_iff, linkNamed?_eq_some_iff]
  refine (h.isFirst_iff (fun hr hr' => ?_) (fun hr hlink => ?_) e).symm
  · rw [linkNamed_iff_of_record? hr, linkNamed_iff_of_record? hr']
  · exact absurd ((linkNamed_iff_of_record? hr).1 hlink).1 (by simp)

end Store.Grows

namespace Controller

variable {c : Controller} {s t : Store}

theorem search_grows (h : s.Grows t) (spec : JointSpec) (model : Entity) :
    search spec model t = search spec model s := by
  unfold search childModel?
  rw [h.first?_modelNamed]
  split
  · rfl
  · rw [h.linkNamed?]

/-- A controller ties the same links, or none, however much the store has grown
meanwhile. -/
theorem target?_grows (h : s.Grows t) : c.target? t = c.target? s := by
  unfold target?
  split
  · split
    · rw [search_grows h]
    · rfl
  · rfl

theorem sought_grows (h : s.Grows t) (e : Entity) :
    c.sought t e = c.sought s e := by
  unfold sought
  rw [target?_grows h]

end Controller

/-! ## What turns make of a store -/

namespace Store

variable {s t u : Store} {made made' : List (Entity × Joint)}
  {asked asked' : List Entity}

/-- The second store is the first after joints were made, with the handles that
the pool issues one after the other, and after removals were asked for. A
removal counts once, and only for an entity that is live. -/
structure Turned (s : Store) (made : List (Entity × Joint))
    (asked : List Entity) (t : Store) :
    Prop where
  pool : t.pool = s.pool.creates made.length
  names : made.map Prod.fst = s.pool.issues made.length
  new : ∀ p ∈ made, t.record? p.1 = some { joint := some p.2 }
  old : ∀ e, e ∉ made.map Prod.fst → t.record? e = s.record? e
  pending : ∀ e, e ∈ t.pending ↔ e ∈ s.pending ∨ e ∈ asked ∧ t.has e = true
  revision : t.revision + s.pending.length =
    s.revision + 2 * made.length + t.pending.length

namespace Turned

theorem refl (s : Store) : s.Turned [] [] s :=
  { pool := rfl, names := rfl, new := by simp, old := fun _ _ => rfl,
    pending := by simp
    revision := rfl }

/-- Handles that are issued in turns are unknown before. -/
theorem not_issued (h : s.Turned made asked t)
    (hs : s.pool.WellFormed) {e : Entity} (he : e ∈ made.map Prod.fst) :
    ¬ s.pool.Issued e :=
  (Pool.issues_nodup hs made.length).2 e (h.names ▸ he)

theorem issued_iff (h : s.Turned made asked t) (hs : s.pool.WellFormed)
    {e : Entity} :
    t.pool.Issued e ↔ e ∈ made.map Prod.fst ∨ s.pool.Issued e := by
  rw [h.pool, h.names]
  exact Pool.issued_creates_iff hs

theorem nodup (h : s.Turned made asked t) (hs : s.pool.WellFormed) :
    (made.map Prod.fst).Nodup := by
  rw [h.names]
  exact (Pool.issues_nodup hs made.length).1

/-- What a store has issued is in turns as it was. -/
theorem record?_of_issued (h : s.Turned made asked t)
    (hs : s.pool.WellFormed) {e : Entity} (he : s.pool.Issued e) :
    t.record? e = s.record? e :=
  h.old e fun hmem => h.not_issued hs hmem he

theorem grows (h : s.Turned made asked t) (hs : s.pool.WellFormed) :
    s.Grows t := by
  have hdead : ∀ e ∈ made.map Prod.fst, s.has e = false := by
    intro e he
    cases hlive : s.has e with
    | false => rfl
    | true => exact absurd (Pool.Issued.of_isLive hlive) (h.not_issued hs he)
  refine { kept := fun {e r} hr => ?_, new := fun {e r} hr => ?_ }
  · have hlive : s.has e = true := ((record?_eq_some_iff _ _ _).1 hr).1
    rwa [h.record?_of_issued hs (Pool.Issued.of_isLive hlive)]
  · by_cases hmem : e ∈ made.map Prod.fst
    · obtain ⟨p, hp, rfl⟩ := List.mem_map.1 hmem
      rw [h.new p hp] at hr
      exact .inr ⟨hdead p.1 hmem, p.2, (Option.some.inj hr).symm⟩
    · exact .inl ((h.old e hmem).symm.trans hr)

/-- Turns may follow each other if those after make none of the entities that
the first ask to be removed. -/
theorem trans (h : s.Turned made asked t) (h' : t.Turned made' asked' u)
    (hs : s.pool.WellFormed) (hasked : ∀ e ∈ asked, e ∉ made'.map Prod.fst) :
    s.Turned (made ++ made') (asked ++ asked') u := by
  have ht : t.pool.WellFormed := h.pool ▸ hs.creates made.length
  have hmap : (made ++ made').map Prod.fst = made.map Prod.fst ++
      made'.map Prod.fst :=
    List.map_append
  have hknown : ∀ e ∈ asked, u.has e = t.has e := by
    intro e he
    rw [← record?_isSome, ← record?_isSome, h'.old e (hasked e he)]
  refine { pool := ?_, names := ?_, new := ?_, old := ?_, pending := ?_,
           revision := ?_ }
  · rw [h'.pool, h.pool, List.length_append, Pool.creates_add]
  · rw [hmap, h.names, h'.names, h.pool, List.length_append, Pool.issues_add]
  · intro p hp
    rcases List.mem_append.1 hp with hp | hp
    · have hissued : t.pool.Issued p.1 :=
        (h.issued_iff hs).2 (.inl (List.mem_map_of_mem hp))
      rw [h'.record?_of_issued ht hissued, h.new p hp]
    · exact h'.new p hp
  · intro e he
    rw [hmap, List.mem_append, not_or] at he
    rw [h'.old e he.2, h.old e he.1]
  · intro e
    have hfirst : e ∈ asked ∧ t.has e = true ↔ e ∈ asked ∧ u.has e = true :=
      and_congr_right fun he => by rw [hknown e he]
    rw [h'.pending, h.pending, hfirst, List.mem_append, or_and_right, or_assoc]
  · have hfirst := h.revision
    have hsecond := h'.revision
    rw [List.length_append]
    omega

/-- A look for the child link makes at most one joint. -/
theorem tied (hs : s.Sound) (hc : s.create.2.WithinCapacity)
    (links : Option (Entity × Entity)) :
    s.Turned (links.map fun l => (s.create.1, Joint.fixed l.1 l.2)).toList []
      (s.tied links) := by
  cases links with
  | none => exact refl s
  | some l =>
      have hgains := gains_setJoint hs hc (Joint.fixed l.1 l.2)
      have hpending : (s.tied (some l)).pending = s.pending := hgains.pending
      refine { pool := pool_attach _ _ _, names := rfl, new := ?_, old := ?_,
               pending := by simp [hpending], revision := ?_ }
      · intro p hp
        rw [List.mem_singleton.1 hp]
        exact (hgains.record _).trans (if_pos rfl)
      · intro e he
        exact (hgains.record e).trans (if_neg fun heq => he (by simp [heq]))
      · have hrevision : (s.tied (some l)).revision = s.revision + 2 :=
          hgains.revision
        simp only [hrevision, hpending, Option.map_some, Option.toList_some,
          List.length_singleton]

/-- A look at the flag asks for at most one removal. -/
theorem asks (s : Store) (o : Option Entity) :
    s.Turned [] o.toList (s.asked o) := by
  cases o with
  | none => exact refl s
  | some e =>
      refine { pool := pool_requestRemoval s e, names := rfl, new := by simp,
               old := fun f _ => record?_requestRemoval s e f, pending := ?_,
               revision := ?_ }
      · intro f
        simp only [Store.asked, mem_pending_requestRemoval, has_requestRemoval,
          Option.toList_some, List.mem_singleton]
        exact or_congr_right (and_congr_right fun heq => by rw [heq])
      · have hasks : s.asked (some e) = s.requestRemoval e := rfl
        rw [hasks, asks_requestRemoval s e]
        split
        · simp only [List.length_append, List.length_singleton, List.length_nil]
          omega
        · rfl

end Turned

end Store

/-- What the turn of a controller makes of a store. -/
theorem Controller.turned {c : Controller} {s : Store} (hs : s.Sound)
    (hc : s.create.2.WithinCapacity) :
    s.Turned ((c.target? s).map fun l =>
      (s.create.1, Joint.fixed l.1 l.2)).toList
      (c.sought s s.create.1).dropped?.toList
      ((s.tied (c.target? s)).asked (c.sought s s.create.1).dropped?) := by
  have htied := Store.Turned.tied hs hc (c.target? s)
  have hboth := htied.trans (.asks _ (c.sought s s.create.1).dropped?)
    hs.pool (by simp)
  rwa [List.append_nil, List.nil_append] at hboth

/-- What a controller lets go of in a turn is what it held, or the joint that it
has just made. -/
theorem Controller.dropped?_sought {c : Controller} {s : Store} {e f : Entity}
    (h : (c.sought s e).dropped? = some f) :
    c.target? s = none ∧ c.joint = some f ∨ (c.target? s).isSome ∧ f = e := by
  have hholds : (c.sought s e).joint = some f := by
    unfold dropped? at h
    split at h
    · exact h
    · cases h
  cases htarget : c.target? s with
  | none => exact .inl ⟨rfl, by simpa [sought, htarget] using hholds⟩
  | some links => exact .inr ⟨rfl,
      by simpa [sought, htarget, attachedTo, eq_comm] using hholds⟩

/-! ## What turns make of a world -/

/-- The joint once it has taken its turn on a store, given the handle of a joint
to make. -/
def JointSlot.turned (slot : JointSlot) (s : Store) (e : Entity) : JointSlot :=
  { slot with controller := (slot.controller.sought s e).eased }

/-- The callbacks of a topic once joints have subscribed to it, one after the
other. -/
def Transport.enrolled (callbacks : Option (List Callback)) (ids : List Nat) :
    Option (List Callback) :=
  if ids = [] then callbacks else some (callbacks.getD [] ++ ids.map .detach)

theorem Transport.enrolled_append (callbacks : Option (List Callback))
    (ids ids' : List Nat) :
    enrolled (enrolled callbacks ids) ids' =
      enrolled callbacks (ids ++ ids') := by
  unfold enrolled
  by_cases hids : ids = []
  · rw [if_pos hids, hids, List.nil_append]
  · by_cases hids' : ids' = []
    · rw [if_pos hids', if_neg hids, hids', List.append_nil, if_neg hids]
    · rw [if_neg hids', if_neg hids, if_neg (by simp [hids]), List.map_append]
      simp

open Controller

namespace World

variable {u v w : World} {r j : Nat} {s t x : Store} {ids : List Nat}
  {name name' : Nat → Entity}

/-- The worlds are the same but for stores, systems, joints, transports and what
is logged. -/
structure Framed (w u : World) : Prop where
  buses : u.buses = w.buses
  numbers : u.busNumbers = w.busNumbers
  players : u.players = w.players
  names : u.names = w.names
  shells : ∀ q, (u.runner? q).map Runner.shell = (w.runner? q).map Runner.shell

namespace Framed

theorem refl (w : World) : w.Framed w :=
  { buses := rfl, numbers := rfl, players := rfl, names := rfl,
    shells := fun _ => rfl }

theorem trans (h : w.Framed u) (h' : u.Framed v) : w.Framed v :=
  { buses := h'.buses.trans h.buses
    numbers := h'.numbers.trans h.numbers
    players := h'.players.trans h.players
    names := h'.names.trans h.names
    shells := fun q => (h'.shells q).trans (h.shells q) }

theorem setStore (w : World) (ref : StoreRef) (s : Store) :
    w.Framed (w.setStore ref s) := by
  refine { buses := buses_setStore .., numbers := ?_, players := ?_,
           names := names_setStore ..,
           shells := fun q => ?_ }
  · unfold World.setStore
    split
    · rfl
    · split <;> rfl
  · unfold World.setStore
    split
    · rfl
    · split <;> rfl
  · rw [runner?_setStore, Option.map_map]
    congr 1
    funext x
    exact (apply_ite Runner.shell _ _ _).trans (ite_self _)

theorem settle (w : World) (j : Nat) (ref : StoreRef) (n : TransportRef)
    (y : Controller.Situation Callback) : w.Framed (w.settle j ref n y) := by
  have hstore := setStore (w.setController j y.controller) ref y.store
  obtain ⟨transports, hendpoint⟩ := setEndpoint_eq
    ((w.setController j y.controller).setStore ref y.store) n y.endpoint
  refine { buses := buses_settle .., numbers := ?_, players := ?_,
           names := names_settle ..,
           shells := fun q => ?_ }
  · rw [World.settle, hendpoint]
    exact hstore.numbers
  · rw [World.settle, hendpoint]
    exact hstore.players
  · rw [runner?_settle]
    exact (setStore w ref y.store).shells q

end Framed

/-- The links that a joint ties in a turn on a store, if it attaches. -/
def target? (w : World) (s : Store) (i : Nat) : Option (Entity × Entity) :=
  (w.joints[i]?).bind fun slot => slot.controller.target? s

/-- The entity that a joint lets go of in a turn on a store, given the handles
of new joints. -/
def dropped? (w : World) (s : Store) (name : Nat → Entity) (i : Nat) :
    Option Entity :=
  (w.joints[i]?).bind fun slot => (slot.controller.sought s (name i)).dropped?

/-- Whether a joint subscribes to a topic of a transport in a turn on a
store. -/
def enrols (w : World) (s : Store) (n : Nat) (topic : String)
    (i : Nat) : Bool :=
  (w.joints[i]?).any fun slot => decide (slot.transport = .numbered n ∧
    slot.controller.topic = topic ∧ (slot.controller.target? s).isSome)

/-- What joints make in turns on a store. -/
def tied (w : World) (s : Store) (name : Nat → Entity) (ids : List Nat) :
    List (Entity × Joint) :=
  ids.filterMap fun i => (w.target? s i).map fun links =>
    (name i, Joint.fixed links.1 links.2)

/-- What joints let go of in turns on a store. -/
def dropped (w : World) (s : Store) (name : Nat → Entity) (ids : List Nat) :
    List Entity :=
  ids.filterMap (w.dropped? s name)

/-- What turns of joints make of a world and of the store that they are taken
on. All of it is decided by the world and the store before, but for the handles
of the joints that attach. -/
structure Outcome (w : World) (r : Nat) (s : Store) (ids : List Nat)
    (name : Nat → Entity) (u : World) (t : Store) : Prop where
  store : u.store? (.runner r) = some t
  turned : s.Turned (w.tied s name ids) (w.dropped s name ids) t
  joints : ∀ i, u.joints[i]? = (w.joints[i]?).map fun slot =>
    if i ∈ ids then slot.turned s (name i) else slot
  framed : w.Framed u
  topics : ∀ n topic, (u.transport n).topics.get? topic =
    Transport.enrolled ((w.transport n).topics.get? topic)
      (ids.filter (w.enrols s n topic))

theorem Outcome.refl (hs : w.store? (.runner r) = some s)
    (name : Nat → Entity) :
    w.Outcome r s [] name w s :=
  { store := hs, turned := .refl s, joints := by simp, framed := .refl w,
    topics := by simp
      [Transport.enrolled] }

/-- The joint holds none of the handles that the store issues next. -/
def HoldsNoNew (w : World) (s : Store) (n : Nat) (i : Nat) : Prop :=
  ∀ p ∈ w.held i, p.1 ∉ s.pool.issues n

instance (w : World) (s : Store) (n i : Nat) : Decidable (w.HoldsNoNew s n i) :=
  inferInstanceAs (Decidable (∀ p ∈ w.held i, p.1 ∉ s.pool.issues n))

theorem HoldsNoNew.not_mem_issues {n : Nat} (h : w.HoldsNoNew s n j)
    (hw : w.Sound) {slot : JointSlot} (hslot : w.joints[j]? = some slot)
    {e : Entity} (he : slot.controller.joint = some e) :
    e ∉ s.pool.issues n := by
  obtain ⟨p, q, -, -, hattachment⟩ :=
    attachment?_of_joint (hw.wired.controllers hslot) he
  exact h _ ((held_of_slot hslot).trans hattachment)

/-- A turn and then those of other joints. -/
theorem Outcome.cons (h : w.Outcome r s [j] name u t)
    (h' : u.Outcome r t ids name' v x) (hs : s.pool.WellFormed) (hj : j ∉ ids)
    (hasked : ∀ e ∈ w.dropped s name [j], e ∉ t.pool.issues ids.length) :
    w.Outcome r s (j :: ids) (Function.update name' j (name j)) v x := by
  have hgrows := h.turned.grows hs
  -- The first turn leaves the later joints as they were, and the store shows
  -- them the same links.
  have hne : ∀ i ∈ ids, i ≠ j := by
    rintro i hi rfl
    exact hj hi
  have hslot : ∀ i ∈ ids, u.joints[i]? = w.joints[i]? := fun i hi => by
    simpa [hne i hi] using h.joints i
  have hname : ∀ i ∈ ids,
      Function.update name' j (name j) i = name' i := fun i hi =>
    Function.update_of_ne (hne i hi) _ _
  have htied : w.tied s (Function.update name' j (name j)) (j :: ids) =
      w.tied s name [j] ++ u.tied t name' ids := by
    refine (List.filterMap_append (l := [j])).trans (congrArg₂ _ ?_ ?_)
    · refine List.filterMap_congr fun i hi => ?_
      rw [List.mem_singleton.1 hi, Function.update_self]
    · refine List.filterMap_congr fun i hi => ?_
      simp only [World.target?, hslot i hi, hname i hi, target?_grows hgrows]
  have hdropped : w.dropped s (Function.update name' j (name j)) (j :: ids) =
      w.dropped s name [j] ++ u.dropped t name' ids := by
    refine (List.filterMap_append (l := [j])).trans (congrArg₂ _ ?_ ?_)
    · refine List.filterMap_congr fun i hi => ?_
      rw [List.mem_singleton.1 hi, World.dropped?, World.dropped?,
        Function.update_self]
    · refine List.filterMap_congr fun i hi => ?_
      simp only [World.dropped?, hslot i hi, hname i hi, sought_grows hgrows]
  have henrols : ∀ n topic, (j :: ids).filter (w.enrols s n topic) =
      [j].filter (w.enrols s n topic) ++ ids.filter (u.enrols t n topic) := by
    intro n topic
    refine (List.filter_append [j] ids).trans
      (congrArg _ (List.filter_congr fun i hi => ?_))
    simp only [enrols, hslot i hi, target?_grows hgrows]
  refine { store := h'.store, turned := ?_, joints := fun i => ?_
           framed := h.framed.trans h'.framed, topics := fun n topic => ?_ }
  · rw [htied, hdropped]
    refine h.turned.trans h'.turned hs fun e he => ?_
    rw [h'.turned.names]
    have hmade : (u.tied t name' ids).length ≤ ids.length :=
      List.length_filterMap_le _ _
    exact Pool.not_mem_issues_creates (k := 0) (hasked e he) (by omega)
  · rw [h'.joints, h.joints, Option.map_map]
    congr 1
    funext slot
    by_cases hi : i = j
    · subst hi
      simp [hj]
    · simp [hi, JointSlot.turned, sought_grows hgrows]
  · rw [h'.topics, h.topics, Transport.enrolled_append, henrols]

/-- What a joint lets go of in its turn is not issued in the turns that follow,
if what it held before is not. -/
theorem Outcome.not_mem_issues {n : Nat}
    (h : w.Outcome r s [j] (fun _ => s.create.1) u t) (hw : w.Sound)
    (hs : s.pool.WellFormed) (hj : w.HoldsNoNew s (n + 1) j) :
    ∀ e ∈ w.dropped s (fun _ => s.create.1) [j], e ∉ t.pool.issues n := by
  intro e he
  obtain ⟨i, hi, hdropped⟩ := List.mem_filterMap.1 he
  obtain rfl := List.mem_singleton.1 hi
  obtain ⟨slot, hslot, hlets⟩ := Option.bind_eq_some_iff.1 hdropped
  have hmade : (w.tied s (fun _ => s.create.1) [i]).length ≤ 1 :=
    List.length_filterMap_le _ _
  rcases dropped?_sought hlets with ⟨-, hheld⟩ | ⟨htarget, rfl⟩
  · rw [h.turned.pool]
    exact Pool.not_mem_issues_creates
      (hj.not_mem_issues hw hslot hheld) (by omega)
  · have hpool : t.pool.WellFormed := h.turned.pool ▸ hs.creates _
    obtain ⟨links, hlinks⟩ := Option.isSome_iff_exists.1 htarget
    have hnew : s.create.1 ∈
        (w.tied s (fun _ => s.create.1) [i]).map Prod.fst := by
      simp [tied, target?, hslot, hlinks]
    have hissued := (h.turned.issued_iff hs).2 (.inl hnew)
    exact fun hmem => (Pool.issues_nodup hpool n).2 _ hmem hissued

end World

end Linkage
