import Linkage.Proofs.Scene.Listing
import Linkage.Proofs.World.Hearing

/-!
# What systems do to the store of their runner

Of all that systems do in a step, only joints that attach create entities, one
each. If scripts at most ask for removals, the store churns: it comes to hold as
many joints more as have attached, and some entities are marked for removal. All
this can be told from the world before and the world after, since an attached
joint stays attached.

## Main results

* `World.works_turn`: what the turn of a joint does to the store.
* `Mirror.updateSystem_works`, `Mirror.updateSystem_hushed`: what a system does
  that leaves models and links to others.
-/

namespace Linkage

open Act World

/-- The call at most asks for the removal of an entity. -/
def StoreAction.OnlyRemoves (op : StoreAction) : Prop :=
  ∀ names s reply names' s', op.run? names s = some (reply, names', s') →
    s' = s ∨ ∃ e, s' = s.requestRemoval e

namespace World

variable {u v w : World} {r j : Nat}

/-- How many joints have attached. -/
def attached (w : World) : Nat :=
  w.joints.countP fun slot => slot.controller.initialized

/-- The runner is there with the same bus and the same systems. -/
def Stays (r : Nat) (w v : World) : Prop :=
  ∀ a, w.runner? r = some a → ∃ b, v.runner? r = some b ∧ b.bus = a.bus ∧
    b.systems = a.systems

/-- The runner stays, and its store churns by as many joints as attach. -/
structure Works (r : Nat) (w v : World) : Prop where
  stays : Stays r w v
  store : ∀ s, w.store? (.runner r) = some s →
    ∃ t n, v.store? (.runner r) = some t ∧
    v.attached = w.attached + n ∧ s.Churns n t

/-! ## The runner -/

theorem stays_reactive (r : Nat) : Reactive (Stays r) :=
  { refl := fun w a ha => ⟨a, ha, rfl, rfl⟩
    trans := fun h h' a ha => by
      obtain ⟨b, hb, hbus, hsystems⟩ := h a ha
      obtain ⟨c, hc, hbus', hsystems'⟩ := h' b hb
      exact ⟨c, hc, hbus'.trans hbus, hsystems'.trans hsystems⟩
    react := fun h a ha => by
      obtain ⟨b, hb, hstill⟩ := h.symm_runner? ha
      refine ⟨b, hb, ?_, Runner.systems_of_still hstill⟩
      show b.still.bus = a.still.bus
      rw [hstill] }

theorem stays_setStore (w : World) (r : Nat) (ref : StoreRef) (s : Store) :
    Stays r w (w.setStore ref s) := by
  intro a ha
  refine ⟨_, by rw [runner?_setStore, ha]; rfl, ?_, ?_⟩ <;> split <;> rfl

theorem stays_setClock (w : World) (r : Nat) (info : StepInfo) :
    Stays r w (w.setClock r info) := by
  intro a ha
  refine ⟨{ a with info }, ?_, rfl, rfl⟩
  unfold setClock
  rw [ha]
  exact runner?_setRunner (lt_of_runner? ha) _

/-! ## The joints -/

theorem attached_of_still
    (h : v.joints.map JointSlot.still = w.joints.map JointSlot.still) :
    v.attached = w.attached := by
  have hcount :=
    congrArg (List.countP fun slot => slot.controller.initialized) h
  rwa [List.countP_map, List.countP_map] at hcount

/-- A joint that is set counts if it has attached. -/
theorem attached_setController {slot : JointSlot}
    (hslot : w.joints[j]? = some slot) (c : Controller) :
    (w.setController j c).attached + slot.controller.initialized.toNat =
      w.attached + c.initialized.toNat := by
  unfold attached
  show (w.joints.modify j fun slot => { slot with controller := c }).countP
    _ + _ = _
  obtain ⟨hlt, hget⟩ := List.getElem?_eq_some_iff.1 hslot
  have hpos : w.joints[j].controller.initialized = true → 0 < w.joints.countP
      fun slot => slot.controller.initialized :=
    fun h => List.countP_pos_iff.2 ⟨w.joints[j], List.getElem_mem hlt, h⟩
  rw [List.modify_eq_set_getElem?, hslot, Option.map_eq_map, Option.map_some,
    Option.getD_some, List.countP_set hlt, hget]
  rw [hget] at hpos
  cases hi : slot.controller.initialized with
  | false => cases hc : c.initialized <;> simp
  | true =>
      have := hpos hi
      cases hc : c.initialized <;> simp <;> omega

/-! ## What is done to the store -/

theorem works_reactive (r : Nat) : Reactive (Works r) :=
  { refl := fun w =>
      { stays := (stays_reactive r).refl w
        store := fun s hs => ⟨s, 0, hs, rfl, .refl s⟩ }
    trans := fun h h' =>
      { stays := (stays_reactive r).trans h.stays h'.stays
        store := fun s hs => by
          obtain ⟨t, n, ht, hcount, hchurns⟩ := h.store s hs
          obtain ⟨u, n', hu, hcount', hchurns'⟩ := h'.store t ht
          exact ⟨u, n + n', hu, by omega, hchurns.trans hchurns'⟩ }
    react := fun h =>
      { stays := (stays_reactive r).react h
        store := fun s hs =>
          ⟨s, 0, (h.store? _).trans hs, attached_of_still h.joints, .refl s⟩ } }

/-- In its turn a joint may attach, and it may ask for the removal of what it
holds. -/
theorem works_turn (j r : Nat) :
    Keeps (Works r) (updateJoint j (.runner r)) := by
  intro w
  rcases left_updateJoint j (.runner r) w with
    heq | ⟨slot, s, y, hslot, hs, hturn, heq⟩
  · rw [heq]
    exact (works_reactive r).refl w
  · rw [heq]
    have hcount := attached_setController hslot y.controller
    have hsettled : (w.settle j (.runner r) slot.transport y).attached =
      (w.setController j y.controller).attached :=
        congrArg (List.countP _) (joints_settle w j _ _ y)
    refine { stays := fun a ha => ?_, store := fun s' hs' => ?_ }
    · rw [runner?_settle]
      exact stays_setStore w r _ y.store a ha
    · cases hs.symm.trans hs'
      have hstore : (w.settle j (.runner r) slot.transport y).store?
          (.runner r) =
          some y.store := by rw [store?_settle _ _ _ _ _ hs, if_pos rfl]
      have hsame : slot.controller.initialized = y.controller.initialized →
          (w.settle j (.runner r) slot.transport y).attached =
            w.attached + 0 := by
        intro h
        rw [hsettled]
        rw [h] at hcount
        omega
      have hone : slot.controller.initialized = false →
          y.controller.initialized = true →
          (w.settle j (.runner r) slot.transport y).attached =
            w.attached + 1 := by
        intro h h'
        rw [hsettled]
        simpa [h, h'] using hcount
      cases hturn with
      | idle _ => exact ⟨_, 0, hstore, hsame rfl, .refl s⟩
      | attach finds _ =>
          exact ⟨_, 1, hstore, hone finds.unattached rfl, .attach (.refl s) _⟩
      | attachAndLetGo finds _ =>
          exact ⟨_, 1, hstore, hone finds.unattached rfl,
            .request (.attach (.refl s) _) _⟩
      | letGo _ _ _ => exact ⟨_, 0, hstore, hsame rfl, .request (.refl s) _⟩

/-- A turn of a joint is not heard. -/
theorem silent_turn (j : Nat) (ref : StoreRef) (w : World) :
    Mirror.Silent w ((updateJoint j ref).left w) := by
  rcases left_updateJoint j ref w with heq | ⟨slot, s, y, -, -, -, heq⟩
  · rw [heq]
    exact ⟨rfl, rfl, rfl, rfl⟩
  · rw [heq]
    have hstore := Mirror.silent_setStore
      (w.setController j y.controller) ref y.store
    have hendpoint := Mirror.silent_setEndpoint
      ((w.setController j y.controller).setStore ref y.store)
        slot.transport y.endpoint
    exact
      { buses := hendpoint.buses.trans hstore.buses
        numbers := hendpoint.numbers.trans hstore.numbers
        players := hendpoint.players.trans hstore.players
        trace := hendpoint.trace.trans hstore.trace }

theorem works_callStore {op : StoreAction} (h : op.OnlyRemoves) (r : Nat) :
    Keeps (Works r) (callStore (.runner r) op) := by
  intro w
  rcases left_callStore (.runner r) op w with
    heq | ⟨s, reply, names, s', hs, hrun, heq⟩
  · rw [heq]
    exact (works_reactive r).refl w
  · rw [heq]
    refine { stays := stays_setStore w r _ s', store := fun t ht => ?_ }
    cases hs.symm.trans ht
    have hjoints : (w.setStore (.runner r) s').attached = w.attached :=
      congrArg (List.countP _) (joints_setStore w _ s')
    have hstore : (w.setStore (.runner r) s').store? (.runner r) = some s' := by
      rw [store?_setStore w hs, if_pos rfl]
    refine ⟨s', 0, hstore, hjoints, ?_⟩
    rcases h _ _ _ _ _ hrun with rfl | ⟨e, rfl⟩
    · exact .refl _
    · exact .request (.refl s) e

end World

namespace Mirror

variable {m : Mirror} {depth r : Nat}

/-- The system is a joint, or a script that does not interfere with the mirror
and at most asks for removals from the store. -/
def Modest (m : Mirror) : System → Prop
  | .script _ update => ∀ a ∈ update, m.Quiet a.action ∧
      ∀ op, a.action = .onStore op → op.OnlyRemoves
  | _ => True

theorem updateSystem_works {system : System} (h : m.Modest system)
    (depth r : Nat) (info : StepInfo) :
    Keeps (Works r) (updateSystem (perform depth) r info system) := by
  have hR := works_reactive r
  cases system with
  | joint j => exact works_turn j r
  | inert => exact Keeps.pure hR.toChained ()
  | script name update =>
      refine (record_keeps hR _).bind hR.toChained fun _ => ?_
      exact playSystem_keeps hR name _ depth 0 update fun a ha op hop =>
        works_callStore ((h a ha).2 op hop) r

theorem playSystem_hushed (name : String) (iteration : Option Nat)
    (depth r : Nat) :
    ∀ (index : Nat) (script : List Scheduled),
      (∀ a ∈ script, m.Quiet a.action) →
      Keeps m.Hushed (playSystem (perform depth) r name iteration index script)
  | _, [], _ => Keeps.pure (hushed_chained m) ()
  | index, a :: rest, h => by
      have hrest := playSystem_hushed name iteration depth r (index + 1) rest
        fun b hb => h b (by simp [hb])
      have hfirst := perform_hushed depth (some (.runner r)) a.action
        (h a (by simp))
      unfold playSystem
      by_cases hnow : a.only = none ∨ a.only = iteration
      · simp only [hnow, if_true]
        refine hfirst.bind (hushed_chained m) fun reply => ?_
        exact Keeps.bind (hushed_chained m) (record_hushed rfl) fun _ => hrest
      · simp only [hnow, if_false]
        exact hrest

theorem updateSystem_hushed {system : System} (h : m.Modest system)
    (depth r : Nat) (info : StepInfo) :
    Keeps m.Hushed (updateSystem (perform depth) r info system) := by
  cases system with
  | joint j => exact fun w => (silent_turn j _ w).hushed
  | inert => exact Keeps.pure (hushed_chained m) ()
  | script name update =>
      refine Keeps.bind (hushed_chained m) (record_hushed rfl) fun _ => ?_
      exact playSystem_hushed name _ depth r 0 update fun a ha => (h a ha).1

end Mirror

end Linkage
