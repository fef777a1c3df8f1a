import Linkage.Proofs.Joint.Encounters
import Linkage.Proofs.World.Deeds

/-!
# What a controller does to a store

A controller calls on its store and its endpoint in one turn or two of its whole
life. In the turn in which it attaches it creates an entity, makes it stand for
the joint and subscribes; in the turn in which it lets go, which may be the same
one, it asks for the removal of that entity. The account of a life is the list
of these calls, and the state of the controller tells how far the account has
come.

In every other encounter the store stays as it was, to the last field.

## Main results

* `Controller.Account.live`: the account of a life agrees with the state of the
  controller.
* `Controller.effect_meet`: what an encounter does to the store and the
  endpoint.
* `Controller.account_of_live`: both of them, for every life.
-/

namespace Linkage

namespace Store

/-- One store comes from another by adding an entity that stands for a joint and
carries nothing else. -/
structure Gains (s : Store) (e : Entity) (joint : Joint) (t : Store) :
    Prop where
  fresh : s.has e = false
  record : ∀ f, t.record? f = if f = e then some { joint := some joint }
    else s.record? f
  unasked : e ∉ s.pending
  pending : t.pending = s.pending
  revision : t.revision = s.revision + 2

/-- One store comes from another by asking for the removal of an entity. This
counts once for a live entity, and never for another. -/
def Asks (s : Store) (e : Entity) (t : Store) : Prop :=
  t = if s.has e = true ∧ e ∉ s.pending then
    { s with pending := s.pending ++ [e], revision := s.revision + 1 } else s

theorem gains_setJoint {s : Store} (h : s.Sound)
    (hs : s.create.2.WithinCapacity) (joint : Joint) :
    s.Gains s.create.1 joint (s.create.2.setJoint s.create.1 joint) := by
  refine { fresh := not_has_create h, record := ?_,
           unasked := not_mem_pending_create h,
           pending := pending_attach _ _ _, revision := ?_ }
  · intro f
    rw [record?_setJoint h.create _ hs, record?_create h]
    by_cases hf : f = s.create.1
    · simp [hf]
    · simp [hf]
  · simp only [setJoint, attach, has_created h, if_true]
    rfl

theorem asks_requestRemoval (s : Store) (e : Entity) :
    s.Asks e (s.requestRemoval e) := by
  unfold Asks requestRemoval
  by_cases h : s.has e = true ∧ e ∉ s.pending
  · simp [h]
  · rw [if_neg h, if_neg (by simpa using h)]

end Store

namespace Controller

variable {κ : Type}

/-! ## The account of a life -/

/-- The calls by which a controller attaches. -/
def attaching (e : Entity) (joint : Joint) (topic : String) : List Call :=
  [.create e, .setJoint e joint, .subscribe topic]

/-- The calls of a life, as far as the state of the controller says it has come:
none, those of attaching, or also the one of letting go. -/
inductive Account (c : Controller) : List Call → Prop
  | unattached (unattached : c.initialized = false) : Account c []
  | held {e parentLink childLink : Entity} (attached : c.initialized = true)
      (parent : c.parentLink = some parentLink)
      (child : c.childLink = some childLink) (holds : c.joint = some e) :
      Account c (attaching e (Joint.fixed parentLink childLink) c.topic)
  | released {e parentLink childLink : Entity} (attached : c.initialized = true)
      (parent : c.parentLink = some parentLink)
      (child : c.childLink = some childLink) (gone : c.joint = none) :
      Account c (attaching e (Joint.fixed parentLink childLink) c.topic ++
        [.requestRemoval e])

/-- The calls that a controller makes in encounters, one after the other. -/
def calls (c : Controller) : List (Encounter κ) → List Call
  | [] => []
  | n :: life => (c.meet n).calls ++ calls (c.meet n).controller life

namespace Account

variable {c d : Controller} {made : List Call}

/-- The account depends on a few fields of the controller only. -/
theorem congr (h : Account c made) (hinit : d.initialized = c.initialized)
    (hparent : d.parentLink = c.parentLink) (hchild : d.childLink = c.childLink)
    (hjoint : d.joint = c.joint) (htopic : d.topic = c.topic) :
    Account d made := by
  cases h with
  | unattached unattached => exact .unattached (hinit.trans unattached)
  | held attached parent child holds =>
      rw [← htopic]
      exact .held (hinit.trans attached) (hparent.trans parent)
        (hchild.trans child) (hjoint.trans holds)
  | released attached parent child gone =>
      rw [← htopic]
      exact .released (hinit.trans attached) (hparent.trans parent)
        (hchild.trans child) (hjoint.trans gone)

/-- Before a controller attaches nothing stands on its account. -/
theorem eq_nil (h : Account c made) (hinit : c.initialized = false) :
    made = [] := by
  cases h with
  | unattached _ => rfl
  | held attached _ _ _ => exact absurd attached (by simp [hinit])
  | released attached _ _ _ => exact absurd attached (by simp [hinit])

/-- A controller that holds a joint has attached with it and made no other
call. -/
theorem of_holds (h : Account c made) (hc : c.Sound) {e : Entity}
    (hj : c.joint = some e) :
    ∃ parentLink childLink, c.parentLink = some parentLink ∧
      c.childLink = some childLink ∧
      made = attaching e (Joint.fixed parentLink childLink) c.topic := by
  cases h with
  | unattached unattached =>
      exact absurd (hc.joint_eq_none unattached) (by simp [hj])
  | held _ parent child holds =>
      cases hj.symm.trans holds
      exact ⟨_, _, parent, child, rfl⟩
  | released _ _ _ gone => exact absurd gone (by simp [hj])

/-- A configuration that changes a controller comes before it attaches, and
makes no calls. -/
theorem configure (h : Account c made) (hc : c.Sound) (e : Entity)
    (element : Element) (s : Store) :
    Account (c.configure e element s).1 made := by
  rcases configure_cases c e element s with
    heq | ⟨-, heq⟩ | ⟨found, hnew, -, heq⟩
  · rwa [heq]
  · rw [heq]
    exact h.congr rfl rfl rfl rfl rfl
  · have hinit := hc.not_initialized hnew
    rw [heq, h.eq_nil hinit]
    exact .unattached hinit

theorem turn {callback : κ} {x y : Situation κ} (h : Account x.controller made)
    (hx : x.controller.Sound) (hcalls : x.calls = [])
    (hturn : Turn callback x y) :
    Account y.controller (made ++ y.calls) := by
  cases hturn with
  | idle _ =>
      rw [show ({ x with log := _ } : Situation κ).calls = [] from hcalls,
        List.append_nil]
      exact h
  | attach finds _ =>
      rw [h.eq_nil finds.unattached]
      simp only [Situation.attached, hcalls]
      exact .held rfl finds.parent rfl rfl
  | attachAndLetGo finds _ =>
      rw [h.eq_nil finds.unattached]
      simp only [Situation.released, Situation.attached, hcalls]
      exact .released rfl finds.parent rfl rfl
  | letGo attached holds _ =>
      obtain ⟨parentLink, childLink, hparent, hchild, rfl⟩ :=
        h.of_holds hx holds
      simp only [Situation.released, hcalls]
      exact .released attached hparent hchild rfl

/-- An encounter adds its calls to the account. -/
theorem meet (h : Account c made) (hc : c.Sound) (n : Encounter κ) :
    Account (c.meet n).controller (made ++ (c.meet n).calls) := by
  unfold Controller.meet
  split
  · next e element _ =>
    exact (List.append_nil made).symm ▸ h.configure hc e element n.store
  · next callback _ =>
      exact turn (x := n.situation c) h hc rfl (preUpdate_turn callback _)
  · exact (List.append_nil made).symm ▸ h.congr rfl rfl rfl rfl rfl

/-- The account of a life is that of its encounters, in order. -/
theorem live (h : Account c made) (hc : c.Sound) (life : List (Encounter κ)) :
    Account (c.live life) (made ++ c.calls life) := by
  induction life generalizing c made with
  | nil =>
      rw [calls, List.append_nil]
      exact h
  | cons n life ih =>
      rw [calls, ← List.append_assoc]
      exact ih (h.meet hc n) (hc.meet n)

end Account

/-! ## The effect of an encounter -/

/-- A controller attaches in an encounter, which is a turn: it finds a child
link, adds the joint to the store and subscribes. -/
structure Attaches (c : Controller) (n : Encounter κ) (e : Entity)
    (joint : Joint) (y : Situation κ) (t : Store) : Prop where
  unattached : c.initialized = false
  attached : y.controller.initialized = true
  turn : ∃ callback, n.demand = .preUpdate callback ∧
    y.endpoint = (n.situation c).subscribed callback
  links : ∃ parentLink childLink, c.parentLink = some parentLink ∧
    y.controller.childLink = some childLink ∧
    joint = Joint.fixed parentLink childLink
  gains : n.store.Sound → n.store.create.2.WithinCapacity →
    n.store.Gains e joint t

/-- What an encounter can do to the store and the endpoint. Without attaching or
letting go of a joint it leaves both exactly as they were. -/
inductive Effect (c : Controller) (n : Encounter κ) (y : Situation κ) : Prop
  | idle (phase : y.controller.initialized = c.initialized)
      (holds : y.controller.joint = c.joint) (calls : y.calls = [])
      (store : y.store = n.store) (endpoint : y.endpoint = n.endpoint)
  | attach {e : Entity} {joint : Joint}
      (attaches : Attaches c n e joint y y.store)
      (holds : y.controller.joint = some e)
      (calls : y.calls = attaching e joint c.topic)
  | attachAndLetGo {e : Entity} {joint : Joint} {t : Store}
      (attaches : Attaches c n e joint y t) (gone : y.controller.joint = none)
      (calls : y.calls = attaching e joint c.topic ++ [.requestRemoval e])
      (asks : t.Asks e y.store)
  | letGo {e : Entity} (turn : ∃ callback, n.demand = .preUpdate callback)
      (holds : c.joint = some e) (gone : y.controller.joint = none)
      (calls : y.calls = [.requestRemoval e])
      (endpoint : y.endpoint = n.endpoint) (asks : n.store.Asks e y.store)

theorem effect_turn {c : Controller} {n : Encounter κ} {callback : κ}
    {y : Situation κ} (hn : n.demand = .preUpdate callback)
    (hturn : Turn callback (n.situation c) y) :
    Effect c n y := by
  have hattaches : ∀ {parentLink childLink : Entity} {z : Situation κ},
      Finds (n.situation c) parentLink childLink →
      z.controller.initialized = true →
      z.controller.childLink = some childLink →
      z.endpoint = (n.situation c).subscribed callback →
      Attaches c n n.store.create.1 (Joint.fixed parentLink childLink) z
        (n.store.create.2.setJoint n.store.create.1
          (Joint.fixed parentLink childLink)) :=
    fun finds hinit hchild hendpoint =>
      { unattached := finds.unattached
        attached := hinit
        turn := ⟨callback, hn, hendpoint⟩
        links := ⟨_, _, finds.parent, hchild, rfl⟩
        gains := fun h hs => Store.gains_setJoint h hs _ }
  cases hturn with
  | idle _ => exact .idle rfl rfl rfl rfl rfl
  | attach finds _ => exact .attach (hattaches finds rfl rfl rfl) rfl rfl
  | attachAndLetGo finds _ =>
      exact .attachAndLetGo (hattaches finds rfl rfl rfl) rfl rfl
        (Store.asks_requestRemoval _ _)
  | letGo _ holds _ =>
      exact .letGo ⟨callback, hn⟩ holds rfl rfl rfl
        (Store.asks_requestRemoval _ _)

/-- Every encounter has one of the effects that are listed. -/
theorem effect_meet {c : Controller} (h : c.Sound) (n : Encounter κ) :
    Effect c n (c.meet n) := by
  unfold Controller.meet
  split
  · next e element _ =>
    obtain ⟨hinit, hjoint, -⟩ := World.configure_same h e element n.store
    exact .idle hinit hjoint rfl rfl rfl
  · next callback hn => exact effect_turn hn (preUpdate_turn callback _)
  · exact .idle rfl rfl rfl rfl rfl

/-- Over a whole life a controller makes the calls of its account and no others,
each encounter has one of the listed effects, and a configuration leaves all
stores of a world alone. -/
theorem account_of_live (life : List (Encounter κ)) :
    Account (live {} life) (calls {} life) ∧
      (∀ n : Encounter κ, Effect (live {} life) n (meet (live {} life) n)) ∧
      ∀ (j : Nat) (ref other : StoreRef) (e : Entity)
        (element : Element) (w : World),
        ((configureJoint j ref e element).left w).store? other =
          w.store? other := by
  have hnew : Account {} [] := .unattached rfl
  refine ⟨hnew.live sound_new life,
    fun n => effect_meet (sound_live life) n, ?_⟩
  intro j ref other e element w
  exact World.store?_configureJoint j ref e element w other

end Controller

end Linkage
