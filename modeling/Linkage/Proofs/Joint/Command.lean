import Linkage.Proofs.Joint.Custody
import Linkage.Proofs.World.Moments

/-!
# Commands to let go

A session is a schedule: steps that are carried out or skipped, pauses, commands
through handles and by messages, and whatever else, in any order. In each step a
joint looks once whether a command has reached it so far. From the step in which
it attaches on, the first step that finds one is the one that removes the
joint's entity; before it and after it the joint does nothing at all, however
many commands there are.

## Main results

* `turn_of_schedule`: what the joint's turn does in a step that is carried out.
* `obeys_of_attaches`: the law of commands over a whole session.
-/

namespace Linkage

open Act World

namespace Session

/-- The world that the system at a place of a runner meets in a step. -/
def turnAt (requests : List Request) (r p k : Nat) : World :=
  (worldAt requests k).atTurn r p

/-- By its turn in a step a command has reached the joint. -/
def Told (requests : List Request) (r p j k : Nat) : Prop :=
  Reached j (turnAt requests r p k).history

instance (requests : List Request) (r p j k : Nat) :
    Decidable (Told requests r p j k) :=
  inferInstanceAs (Decidable (Reached j (turnAt requests r p k).history))

/-- No step from one moment of a session to another finds that a command has
reached the joint. -/
def Untold (requests : List Request) (r p j i n : Nat) : Prop :=
  ∀ k, i ≤ k → k < n → Steps requests r k → ¬ Told requests r p j k

/-- A joint, which is a system of a runner, attaches in a step, with an entity
of the runner's store. -/
structure Attaches (requests : List Request) (r p j i : Nat) (e : Entity) :
    Prop where
  steps : Steps requests r i
  system : ∃ runner, (worldAt requests i).runner? r = some runner ∧
    runner.systems[p]? = some (.joint j)
  before : ∃ slot, (turnAt requests r p i).joints[j]? = some slot ∧
    slot.controller.initialized = false
  after : ∃ slot, (turnAt requests r (p + 1) i).joints[j]? = some slot ∧
    slot.controller.initialized = true
  entity : ∃ s, (turnAt requests r p i).store? (.runner r) = some s ∧
    s.create.1 = e

/-- From the attaching on nobody but the joint and its runner removes the
entity: no call asks for its removal, and neither a turn of another joint or
system nor the configuring of a scripted one touches it. No step of the runner
breaks off, and only steps give the joint its turns. -/
structure Undisputed (requests : List Request) (r p j i : Nat) (e : Entity) :
    Prop where
  finishes : ∀ {k : Nat}, i < k → (moments {} requests)[k]? = some (.step r) →
    (worldAt requests k).stepReply r ≠ none
  owned : ∀ {k : Nat} {ref : StoreRef} {label : String}, i < k →
    (moments {} requests)[k]? = some (.request ⟨ref, .updateJoint label⟩) →
      (worldAt requests k).names.joints.get? label ≠ some j
  calls : ∀ {k : Nat} {op : StoreAction}, i < k →
    (moments {} requests)[k]? =
      some (.request ⟨.runner r, .act (.onStore op)⟩) →
      ∀ target ∈ op.removes?, (worldAt requests k).names.entity? target ≠ some e
  joints : ∀ {k : Nat} {label : String}, i < k →
    (moments {} requests)[k]? =
      some (.request ⟨.runner r, .updateJoint label⟩) →
      Untouched r e (worldAt requests k) (worldAt requests (k + 1))
  scripts : ∀ {k : Nat} {ref : StoreRef} {name : String}
    {configure update : List Scheduled}
    {model : EntityRef} {element : Element}, i < k →
      (moments {} requests)[k]? =
        some (.request ⟨ref,
          .addSystem r (.script name configure update) model element⟩) →
          Untouched r e (worldAt requests k) (worldAt requests (k + 1))
  systems : ∀ {k q : Nat} {runner : Runner}, Steps requests r k →
    (worldAt requests k).runner? r = some runner → q < runner.systems.length →
      (k = i ∧ p < q) ∨ (i < k ∧ q ≠ p) →
        Untouched r e (turnAt requests r q k) (turnAt requests r (q + 1) k)

variable {requests : List Request} {r p q j i k n : Nat} {e : Entity}

/-! ## From one moment to the next -/

theorem sound_turnAt (requests : List Request) (r p k : Nat) :
    (turnAt requests r p k).Sound :=
  (atTurn_path _ r p).sound (sound_worldAt requests k)

theorem onward_worldAt (requests : List Request) (h : k ≤ n) :
    (worldAt requests k).Onward (worldAt requests n) :=
  (path_worldAt requests h).onward

theorem spent_worldAt (requests : List Request) (h : k ≤ n)
    (hspent : (worldAt requests k).Spent j) : (worldAt requests n).Spent j := by
  have hR : Chained fun w w' : World => w.Spent j → w'.Spent j :=
    { refl := fun _ => id, trans := fun h h' hw => h' (h hw) }
  exact worldAt_keeps hR
    (fun {i _} _ _ => (Moment.path _ _).spent (sound_worldAt requests i)) h
    hspent

/-! ## The runner of the joint -/

/-- The systems of the runner at a later step: the joint is still at its
place. -/
theorem system_of_later (h : Attaches requests r p j i e) (hik : i ≤ k)
    {runner : Runner} (hr : (worldAt requests k).runner? r = some runner) :
    runner.systems[p]? = some (.joint j) := by
  obtain ⟨a, ha, hp⟩ := h.system
  obtain ⟨b, hb, later, hlater⟩ :=
    (onward_worldAt requests hik).systems hr (lt_of_runner? ha)
  rw [ha] at hb
  cases hb
  rw [← hlater, List.getElem?_append_left (List.getElem?_eq_some_iff.1 hp).1,
    hp]

/-- No other runner comes to own the joint. -/
theorem owner_of_later (h : Attaches requests r p j i e) {v : World}
    (hv : (worldAt requests i).Onward v) {q : Nat} {runner : Runner}
    (hq : v.runner? q = some runner) (hj : j ∈ runner.jointIds) : q = r := by
  obtain ⟨a, ha, hp⟩ := h.system
  have hja : j ∈ a.jointIds :=
    List.mem_filterMap.2 ⟨.joint j, List.mem_of_getElem? hp, rfl⟩
  have howned := (sound_worldAt requests i).owned
  obtain ⟨b, hb, hjb⟩ := hv.owns hq hj (howned.lt ha hja)
  exact howned.apart hb ha hjb hja

/-- A step that is not carried out leaves everything as it is. -/
theorem worldAt_of_skipped (hu : Undisputed requests r p j i e) (hik : i < k)
    (hm : (moments {} requests)[k]? = some (.step r))
    (hno : ¬ Steps requests r k) :
    worldAt requests (k + 1) = worldAt requests k := by
  have hreply : (worldAt requests k).stepReply r = some false := by
    cases hreply : (worldAt requests k).stepReply r with
    | none => exact absurd hreply (hu.finishes hik hm)
    | some done =>
        cases done with
        | false => rfl
        | true => exact absurd ⟨hm, hreply⟩ hno
  rw [worldAt_succ hm]
  exact left_of_skipped hreply

/-- Only a step of its runner gives the joint a turn. -/
theorem not_turn_of_moment (h : Attaches requests r p j i e)
    (hu : Undisputed requests r p j i e) (hik : i < k) {m : Moment}
    (hm : (moments {} requests)[k]? = some m) (hstep : m ≠ .step r) {v : World}
    (hv : (worldAt requests k).Onward v) {d : Deed}
    (hd : m.Does (worldAt requests k) v d) (ref : StoreRef) :
    d ≠ .turn j ref := by
  rintro rfl
  have honward := onward_chained.trans
    (onward_worldAt requests (Nat.le_of_lt hik)) hv
  cases m with
  | step q =>
      cases hd with
      | turn hrunner hj =>
          exact hstep
            (congrArg Moment.step (owner_of_later h honward hrunner hj))
  | request asked =>
      obtain ⟨ref', operation⟩ := asked
      have hplain := (request_of_moment hm).2
      simp only [Moment.Does] at hd
      cases hd with
      | step => cases hplain
      | run => cases hplain
      | turn hl => exact hu.owned hik hm hl
  | collect => exact hd

/-- What happens between the steps that are carried out leaves the joint
alone. -/
theorem steady_of_not_steps (h : Attaches requests r p j i e)
    (hu : Undisputed requests r p j i e) (hik : i < k)
    (hno : ¬ Steps requests r k) :
    Steady j (worldAt requests k) (worldAt requests (k + 1)) := by
  cases hm : (moments {} requests)[k]? with
  | none =>
      rw [worldAt_of_none hm]
      exact (steady_reactive j).refl _
  | some m =>
      by_cases hstep : m = .step r
      · subst hstep
        rw [worldAt_of_skipped hu hik hm hno]
        exact (steady_reactive j).refl _
      · rw [worldAt_succ hm]
        have hpath := (m.path (worldAt requests k)).imp
          (Q := fun _ d => ∀ ref, d ≠ .turn j ref) fun v d hbefore hd ref =>
            not_turn_of_moment h hu hik hm hstep hbefore.onward hd ref
        exact hpath.keeps (steady_reactive j).toChained
          (fun _ => (steady_reactive j).react)
          (fun hv hd => steady_deed hv fun ref heq => absurd heq (hd ref))
          (sound_worldAt requests k)

/-- What happens in a moment that is neither a turn of a free joint nor the
adding of a scripted system does not endanger the entity. -/
theorem not_endangers (hu : Undisputed requests r p j i e)
    (hik : i < k) {m : Moment} (hm : (moments {} requests)[k]? = some m)
    (hstep : m ≠ .step r)
    (hjoint : ∀ label, m ≠ .request ⟨.runner r, .updateJoint label⟩)
    (hscript : ∀ ref name configure update model element,
      m ≠ .request ⟨ref,
        .addSystem r (.script name configure update) model element⟩)
    {v : World} {d : Deed} (hd : m.Does (worldAt requests k) v d) :
    ¬ Endangers r e v d := by
  cases m with
  | step q =>
      have hne : q ≠ r := fun heq => hstep (congrArg Moment.step heq)
      cases hd with
      | turn => exact fun heq => hne (StoreRef.runner.inj heq)
      | call => exact fun heq => hne (StoreRef.runner.inj heq.1)
      | sweep => exact id
      | clock => exact id
  | request asked =>
      obtain ⟨ref, operation⟩ := asked
      have hplain := (request_of_moment hm).2
      simp only [Moment.Does] at hd
      cases hd with
      | call op =>
          rintro ⟨rfl, target, htarget, hentity⟩
          exact hu.calls hik hm target htarget hentity
      | step => cases hplain
      | run => cases hplain
      | configureCall =>
          rintro ⟨heq, -⟩
          cases heq
          exact hscript _ _ _ _ _ _ rfl
      | turn => exact fun heq => hjoint _ (by rw [heq])
      | spawnModel => exact fun ⟨_, _, htarget, _⟩ => by cases htarget
      | spawnLink => exact fun ⟨_, _, htarget, _⟩ => by cases htarget
      | _ => exact id
  | collect => exact absurd hd id

theorem custody_of_not_steps (h : Attaches requests r p j i e)
    (hu : Undisputed requests r p j i e) (hik : i < k)
    (hno : ¬ Steps requests r k)
    (hc : (worldAt requests k).Custody r j e true) :
    (worldAt requests (k + 1)).Custody r j e true := by
  obtain ⟨a, ha, -⟩ := h.system
  have hlt := Nat.lt_of_lt_of_le (lt_of_runner? ha)
    (onward_worldAt requests (Nat.le_of_lt hik)).runners
  have hsteady := steady_of_not_steps h hu hik hno
  have honward := onward_worldAt requests (Nat.le_succ k)
  cases hm : (moments {} requests)[k]? with
  | none => rwa [worldAt_of_none hm]
  | some m =>
      by_cases hstep : m = .step r
      · subst hstep
        rwa [worldAt_of_skipped hu hik hm hno]
      by_cases hjoint : ∃ label, m = .request ⟨.runner r, .updateJoint label⟩
      · obtain ⟨label, rfl⟩ := hjoint
        exact hc.spared hsteady (hu.joints hik hm) honward hlt
      by_cases hscript : ∃ ref name configure update model element,
          m = .request ⟨ref,
            .addSystem r (.script name configure update) model element⟩
      · obtain ⟨ref, name, configure, update, model, element, rfl⟩ := hscript
        exact hc.spared hsteady (hu.scripts hik hm) honward hlt
      · have hsafe := (m.path (worldAt requests k)).safe
          (sound_worldAt requests k) hlt
          (not_endangers hu hik hm hstep (fun label heq => hjoint ⟨label, heq⟩)
            fun _ _ _ _ _ _ heq => hscript ⟨_, _, _, _, _, _, heq⟩) hc.safe
        rw [← worldAt_succ hm] at hsafe
        exact hc.of_safe hsteady hsafe

/-! ## A step that is carried out -/

section Step

variable (h : Attaches requests r p j i e) (hu : Undisputed requests r p j i e)
  (hik : i ≤ k) (hs : Steps requests r k)

omit h hu hik in
include hs in
theorem store_turnAt (q : Nat) :
    ∃ s, (turnAt requests r q k).store? (.runner r) = some s := by
  obtain ⟨runner, hr, -⟩ := exists_of_steps hs
  obtain ⟨after, hafter, -⟩ := (atTurn_stepping hr q).2
  exact ⟨after.store, by simp [turnAt, store?, hafter]⟩

include h hik hs

omit hu in
/-- The joint takes its turn on the store of its runner. -/
theorem turnAt_succ : turnAt requests r (p + 1) k =
    (updateJoint j (.runner r)).left (turnAt requests r p k) := by
  obtain ⟨runner, hr, hstep⟩ := exists_of_steps hs
  exact turn_of_step hstep hr (system_of_later h hik hr)

omit hu in
/-- The joint's turn leaves the entity in place, or lets go of it if a command
has reached the joint. -/
theorem turn_of_schedule
    (hc : i < k → (turnAt requests r p k).Custody r j e true) :
    (¬ Told requests r p j k →
      (turnAt requests r (p + 1) k).Custody r j e true) ∧
      (Told requests r p j k →
        (turnAt requests r (p + 1) k).Custody r j e false ∧
        (turnAt requests r (p + 1) k).Released j) := by
  have hsound := sound_turnAt requests r p k
  have hturn := turnAt_succ h hik hs
  rcases Nat.eq_or_lt_of_le hik with rfl | hlt
  · obtain ⟨slot, hslot, hbefore⟩ := h.before
    obtain ⟨s, hstore, rfl⟩ := h.entity
    have hafter := h.after
    rw [hturn] at hafter ⊢
    exact custody_attach hsound hslot hstore hbefore hafter
  · obtain ⟨s, hstore⟩ := store_turnAt hs p
    rw [hturn]
    constructor
    · intro huntold
      exact (hc hlt).unmoved ((hc hlt).unmoved_of_untold hsound _ huntold)
    · exact fun htold => (hc hlt).turn hsound hstore htold

include hu

/-- Up to the joint's turn the other systems leave the entity in place. -/
theorem custody_turnAt (hlt : i < k)
    (hc : (worldAt requests k).Custody r j e true) :
    (turnAt requests r p k).Custody r j e true := by
  obtain ⟨runner, hr, hstep⟩ := exists_of_steps hs
  have hp := system_of_later h hik hr
  have hlength := (List.getElem?_eq_some_iff.1 hp).1
  refine custody_before hstep hr (sound_worldAt requests k) hp
    (fun q hq => ?_) hc
  exact hu.systems hs hr (Nat.lt_trans hq hlength) (.inr ⟨hlt, Nat.ne_of_lt hq⟩)

/-- From the joint's turn on the other systems leave the entity where it is. -/
theorem custody_rest {held : Bool}
    (hc : (turnAt requests r (p + 1) k).Custody r j e held) (hq : p < q) :
    (turnAt requests r q k).Custody r j e held := by
  obtain ⟨runner, hr, hstep⟩ := exists_of_steps hs
  have hp := system_of_later h hik hr
  refine custody_after hstep hr (sound_worldAt requests k) hp
    (fun q hq hlength => ?_) hc hq
  rcases Nat.eq_or_lt_of_le hik with rfl | hlt
  · exact hu.systems hs hr hlength (.inl ⟨rfl, hq⟩)
  · exact hu.systems hs hr hlength (.inr ⟨hlt, Nat.ne_of_gt hq⟩)

/-- A step in which the joint keeps the entity. -/
theorem custody_of_steps (hc : i < k → (worldAt requests k).Custody r j e true)
    (huntold : ¬ Told requests r p j k) :
    (worldAt requests (k + 1)).Custody r j e true := by
  obtain ⟨runner, hr, hstep⟩ := exists_of_steps hs
  have hp := system_of_later h hik hr
  have hlength := (List.getElem?_eq_some_iff.1 hp).1
  have hturn := (turn_of_schedule h hik hs fun hlt =>
    custody_turnAt h hu hik hs hlt (hc hlt)).1 huntold
  exact custody_end hstep hr (custody_rest h hu hik hs hturn hlength)

end Step

/-- As long as no step finds that a command has reached the joint, the entity
stays in place. -/
theorem custody_worldAt (h : Attaches requests r p j i e)
    (hu : Undisputed requests r p j i e) (hin : i < n)
    (huntold : Untold requests r p j i n) :
    (worldAt requests n).Custody r j e true := by
  induction hin with
  | refl =>
      exact custody_of_steps h hu (Nat.le_refl i) h.steps
        (fun hlt => absurd hlt (Nat.lt_irrefl i))
        (huntold i (Nat.le_refl i) (Nat.lt_succ_self i) h.steps)
  | @step n hin ih =>
      have hin' : i < n := hin
      have hbefore := ih fun k hik hkn => huntold k hik (Nat.lt_succ_of_lt hkn)
      by_cases hs : Steps requests r n
      · exact custody_of_steps h hu (Nat.le_of_lt hin') hs (fun _ => hbefore)
          (huntold n (Nat.le_of_lt hin') (Nat.lt_succ_self n) hs)
      · exact custody_of_not_steps h hu hin' hs hbefore

/-- In the first step that finds a command the joint lets go. -/
theorem release_of_steps (h : Attaches requests r p j i e)
    (hu : Undisputed requests r p j i e) (hik : i ≤ k) (hs : Steps requests r k)
    (htold : Told requests r p j k) (hfirst : Untold requests r p j i k) :
    (turnAt requests r (p + 1) k).Custody r j e false ∧
      (turnAt requests r (p + 1) k).Released j :=
  (turn_of_schedule h hik hs fun hlt => custody_turnAt h hu hik hs hlt
    (custody_worldAt h hu hlt hfirst)).2 htold

/-- Once a step has found a command, the joint has let go. -/
theorem spent_of_told (h : Attaches requests r p j i e)
    (hu : Undisputed requests r p j i e) (hik : i ≤ k) (hkn : k < n)
    (hs : Steps requests r k) (htold : Told requests r p j k) :
    (worldAt requests n).Spent j := by
  induction k using Nat.strongRecOn with
  | ind k ih =>
      by_cases hfirst : Untold requests r p j i k
      · obtain ⟨runner, hr, hstep⟩ := exists_of_steps hs
        have hspent := (release_of_steps h hu hik hs htold hfirst).1.spent
        have hend := (rest_path hstep hr (p + 1)).spent
          (sound_turnAt requests r (p + 1) k) hspent
        exact spent_worldAt requests hkn hend
      · simp only [Untold, not_forall, not_not] at hfirst
        obtain ⟨m, him, hmk, hsm, htoldm⟩ := hfirst
        exact ih m hmk him (Nat.lt_trans hmk hkn) hsm htoldm

/-! ## The law -/

/-- What counts as a command to a joint, and that commands are not forgotten: a
command through a handle always counts, and a publish counts exactly if it is on
the joint's transport, after the joint has attached, and under a name that is
repaired to the joint's topic. -/
structure Heard (requests : List Request) (r p j i : Nat) : Prop where
  asked : ∀ {w : World} {label : String}, w.names.joints.get? label = some j →
    .asked j ∈ ((requestJoint label).left w).history
  published : ∀ {w w' : World} {depth t : Nat} {name : String}
    {bytes : List UInt8} {result : Except InvalidTopic Nat}, w.Sound →
      (publishOn (Linkage.perform depth) t name bytes).run w = .ok result w' →
        (.handed t name (.detach j) ∈ w'.history ↔ w.Admits t name j)
  caused : ∀ {q k : Nat} {o : Occurrence}, o ∈ (turnAt requests r q k).history →
    o.commands j = true → o = .asked j ∨
      ∃ t name, o = .handed t name (.detach j) ∧
        (turnAt requests r q k).Admits t name j
  unattached : ∀ t name,
    .handed t name (.detach j) ∉ (turnAt requests r p i).history
  kept : ∀ {k n : Nat}, k ≤ n →
    (worldAt requests k).history <:+ (worldAt requests n).history
  keptInStep : ∀ {q k : Nat}, Steps requests r k →
    (worldAt requests k).history <:+ (turnAt requests r q k).history ∧
      (turnAt requests r q k).history <:+ (worldAt requests (k + 1)).history

/-- The law of commands. Until a step finds a command the joint holds its
entity, and the entity is live and nobody has asked for its removal. The first
step that finds one lets go of it, asks once for its removal, and ends without
it. In no other step does the joint's turn move anything, and it never holds an
entity again. -/
structure Obeys (requests : List Request) (r p j i : Nat) (e : Entity) : Prop
    extends Heard requests r p j i where
  holds : ∀ {n : Nat}, i < n → Untold requests r p j i n →
    (∃ slot, (worldAt requests n).joints[j]? = some slot ∧
      slot.controller.joint = some e) ∧
      ∀ s ∈ (worldAt requests n).store? (.runner r),
        s.has e = true ∧ e ∉ s.pending
  letsGo : ∀ {k : Nat}, i ≤ k → Steps requests r k → Told requests r p j k →
    Untold requests r p j i k →
      (turnAt requests r (p + 1) k).Released j ∧
      (∀ q, p < q → ∃ s, (turnAt requests r q k).store? (.runner r) = some s ∧
        s.has e = true ∧ s.pending.count e = 1) ∧
      ∃ s, (worldAt requests (k + 1)).store? (.runner r) = some s ∧
        s.has e = false
  idles : ∀ {k : Nat}, i < k → Steps requests r k →
    ¬ (Told requests r p j k ∧ Untold requests r p j i k) →
      (turnAt requests r p k).Unmoved (turnAt requests r (p + 1) k)
  spent : ∀ {k n : Nat}, i ≤ k → k < n → Steps requests r k →
    Told requests r p j k →
    (worldAt requests n).Spent j

theorem heard_of_attaches (h : Attaches requests r p j i e) :
    Heard requests r p j i := by
  refine { asked := ?_, published := ?_, caused := ?_, unattached := ?_,
           kept := fun hkn => (onward_worldAt requests hkn).history,
           keptInStep := ?_ }
  · intro w label hl
    unfold requestJoint onJoint
    rw [left_get_bind, hl]
    exact List.mem_cons_self
  · intro w w' depth t name bytes result hw hrun
    exact handed_iff_of_publishOn (perform_reaction depth) hw.wired hrun
  · intro q k o ho hcommands
    cases o with
    | asked i =>
        have hi : i = j := by simpa [Occurrence.commands] using hcommands
        exact .inl (by rw [hi])
    | handed t name c =>
        have hc : c = .detach j := by
          simpa [Occurrence.commands] using hcommands
        subst hc
        exact .inr ⟨t, name, rfl, (sound_turnAt requests r q k).wired.handed ho⟩
  · intro t name hmem
    obtain ⟨slot, hslot, hbefore⟩ := h.before
    obtain ⟨slot', u, hslot', -, hlistens⟩ :=
      (sound_turnAt requests r p i).wired.handed hmem
    rw [hslot] at hslot'
    cases hslot'
    exact absurd (hlistens.2.1.symm.trans hbefore) (by simp)
  · intro q k hs
    obtain ⟨runner, hr, hstep⟩ := exists_of_steps hs
    exact ⟨(atTurn_path _ r q).onward.history,
      (rest_path hstep hr q).onward.history⟩

/-- Whatever the schedule, a joint that attaches obeys the law of commands as
long as nobody else touches its entity. -/
theorem obeys_of_attaches (h : Attaches requests r p j i e)
    (hu : Undisputed requests r p j i e) : Obeys requests r p j i e := by
  refine { heard_of_attaches h with holds := ?_, letsGo := ?_,
                                    idles := ?_, spent := ?_ }
  · intro n hin huntold
    have hc := custody_worldAt h hu hin huntold
    obtain ⟨slot, hslot, -, hjoint⟩ := hc.joint
    refine ⟨⟨slot, hslot, hjoint⟩, fun s hstore => ?_⟩
    obtain ⟨hlive, hpending⟩ := hc.store hstore
    exact ⟨hlive, fun hmem => absurd (hpending.1 hmem) (by simp)⟩
  · intro k hik hs htold hfirst
    obtain ⟨hc, hreleased⟩ := release_of_steps h hu hik hs htold hfirst
    refine ⟨hreleased, fun q hq => ?_, ?_⟩
    · obtain ⟨s, hstore⟩ := store_turnAt hs q
      have hcq := custody_rest h hu hik hs hc hq
      obtain ⟨hlive, hpending⟩ := hcq.store hstore
      have hsound := (sound_turnAt requests r q k).stores hstore
      exact ⟨s, hstore, hlive,
        List.count_eq_one_of_mem hsound.pending_nodup (hpending.2 rfl)⟩
    · obtain ⟨runner, hr, hstep⟩ := exists_of_steps hs
      have hlength := (List.getElem?_eq_some_iff.1 (system_of_later h hik hr)).1
      have hlast := custody_rest h hu hik hs hc hlength
      exact removed_end hstep hr hlast
  · intro k hik hs hno
    rw [turnAt_succ h (Nat.le_of_lt hik) hs]
    by_cases huntold : Untold requests r p j i k
    · have hc := custody_turnAt h hu (Nat.le_of_lt hik) hs hik
        (custody_worldAt h hu hik huntold)
      exact hc.unmoved_of_untold (sound_turnAt requests r p k) _ fun htold =>
        hno ⟨htold, huntold⟩
    · simp only [Untold, not_forall, not_not] at huntold
      obtain ⟨m, him, hmk, hsm, htoldm⟩ := huntold
      have hspent := spent_of_told h hu him hmk hsm htoldm
      exact unmoved_of_spent
        ((atTurn_path _ r p).spent (sound_worldAt requests k) hspent) _
  · exact fun hik hkn hs htold => spent_of_told h hu hik hkn hs htold

/-- A message that a system publishes in the same step reaches a joint, after a
message under another name and a step that was skipped, and a command comes too
late. -/
theorem obeys_of_message_in_step :
    let requests : List Request :=
      [⟨.runner 0, .makeRunner none defaultStep none⟩,
      ⟨.runner 0, .act (.onStore (.spawn "car" ["body"] (some "car")))⟩,
      ⟨.runner 0, .act (.onStore (.spawn "cart" ["eye"] (some "cart")))⟩,
      ⟨.runner 0, .addSystem 0 (.script "radio" []
        [{ action := .publish 0 "tow bar" [], only := some 2 }]) (.label "car")
          { name := "radio" }⟩,
      ⟨.runner 0,
        .addSystem 0 (.joint (some "tow") (.numbered 0)) (.label "car")
        ((jointElement "body" "cart" "eye").withParam "topic"
          (.text "tow bar"))⟩,
      ⟨.runner 0, .run 0 2⟩,
      ⟨.runner 0, .act (.publish 0 "hitch" [])⟩,
      ⟨.runner 0, .pause 0 true⟩,
      ⟨.runner 0, .run 0 3⟩,
      ⟨.runner 0, .pause 0 false⟩,
      ⟨.runner 0, .step 0⟩,
      ⟨.runner 0, .act (.request "tow")⟩,
      ⟨.runner 0, .step 0⟩]
    Attaches requests 0 1 0 5 ⟨5, 0⟩ ∧ Undisputed requests 0 1 0 5 ⟨5, 0⟩ ∧
      (Steps requests 0 13 ∧ Told requests 0 1 0 13 ∧
        Untold requests 0 1 0 5 13) ∧
        Obeys requests 0 1 0 5 ⟨5, 0⟩ := by
  intro requests
  have hattaches : Attaches requests 0 1 0 5 ⟨5, 0⟩ := by
    have hsystem : ∃ runner ∈ (worldAt requests 5).runner? 0,
        ∃ system ∈ runner.systems[1]?,
        system.joint? = some 0 := by decide +kernel
    have hbefore : ∃ slot ∈ (turnAt requests 0 1 5).joints[0]?,
        slot.controller.initialized = false := by decide +kernel
    have hafter : ∃ slot ∈ (turnAt requests 0 2 5).joints[0]?,
        slot.controller.initialized = true := by decide +kernel
    have hentity : ∃ s ∈ (turnAt requests 0 1 5).store? (.runner 0),
        s.create.1 = ⟨5, 0⟩ := by decide +kernel
    obtain ⟨runner, hr, system, hp, hj⟩ := hsystem
    rw [System.eq_joint hj] at hp
    exact { steps := by decide +kernel, system := ⟨runner, hr, hp⟩,
            before := hbefore,
            after := hafter, entity := hentity }
  have hundisputed : Undisputed requests 0 1 0 5 ⟨5, 0⟩ := by
    have hmoments : (moments {} requests).length = 18 := by decide +kernel
    have hfinishes : ∀ k < 18, (worldAt requests k).stepReply 0 ≠ none := by
      decide +kernel
    have hbetween : ∀ k < 18, 5 < k → ¬ Steps requests 0 k →
        Untouched 0 ⟨5, 0⟩ (worldAt requests k) (worldAt requests (k + 1)) := by
      decide +kernel
    have hlength : ∀ k < 18, ∀ runner ∈ (worldAt requests k).runner? 0,
        runner.systems.length ≤ 2 := by decide +kernel
    have hradio : ∀ k < 18, 5 < k →
        Untouched 0 ⟨5, 0⟩ (turnAt requests 0 0 k) (turnAt requests 0 1 k) := by
      decide +kernel
    have hlt : ∀ {k : Nat} {m : Moment}, (moments {} requests)[k]? = some m →
        k < 18 :=
      fun hm => hmoments ▸ (List.getElem?_eq_some_iff.1 hm).1
    have hrequest : ∀ {k : Nat} {request : Request}, 5 < k →
        (moments {} requests)[k]? = some (.request request) →
          Untouched 0 ⟨5, 0⟩ (worldAt requests k)
            (worldAt requests (k + 1)) := by
      intro k request hk hm
      exact hbetween k (hlt hm) hk fun hs => by simp [hs.1] at hm
    refine { finishes := fun _ hm => hfinishes _ (hlt hm),
             owned := ?_, calls := ?_,
             joints := hrequest, scripts := hrequest, systems := ?_ }
    · intro k ref label _ hm
      exact absurd (request_of_moment hm).1 (by simp [requests])
    · intro k op _ hm target htarget
      have hspawn : op = .spawn "car" ["body"] (some "car") ∨
          op = .spawn "cart" ["eye"] (some "cart") := by
        simpa [requests] using (request_of_moment hm).1
      rcases hspawn with rfl | rfl <;> cases htarget
    · intro k q runner hs hr hq hcase
      have hk := hlt hs.1
      have htwo := hlength k hk runner hr
      have hzero : q = 0 ∧ 5 < k := by omega
      obtain ⟨rfl, hlate⟩ := hzero
      exact hradio k hk hlate
  have huntold : ∀ k < 13, 5 ≤ k → Steps requests 0 k →
      ¬ Told requests 0 1 0 k := by
    decide +kernel
  exact ⟨hattaches, hundisputed, ⟨by decide +kernel, by decide +kernel,
    fun k hik hkn => huntold k hkn hik⟩,
      obeys_of_attaches hattaches hundisputed⟩

end Session

end Linkage
