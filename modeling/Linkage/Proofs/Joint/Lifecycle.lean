import Linkage.Joint.Controller
import Linkage.Proofs.Store.Soundness

/-!
# The life of a controller

A controller is configured, attaches, and lets go, each at most once. Whatever
state the store is in, a turn of a controller does one of four things, and they
are listed here once: it changes nothing, it attaches, it lets go, or it
attaches and lets go at once because a command came first.

## Main results

* `Controller.preUpdate_turn`: the four things that a turn can do.
* `Controller.Sound.configure`, `Controller.Sound.turn`: the phases of a life
  stay in order.
-/

namespace Linkage

namespace Controller

/-- The phases of a life come in order: configured, found valid, attached, let
go. What a controller knows fits the phase that it is in. -/
structure Sound (c : Controller) : Prop where
  configured : c.validConfig = true → c.configured = true
  model : c.model.isSome = c.validConfig
  spec : c.spec.isSome = c.validConfig
  parentLink : c.parentLink.isSome = c.validConfig
  topic : c.validConfig = true → Topic.isValid c.topic = true
  untitled : c.validConfig = false → c.topic = ""
  valid : c.initialized = true → c.validConfig = true
  childLink : c.childLink.isSome = c.initialized
  initialized : c.joint.isSome = true → c.initialized = true

/-- The controller has let go of the joint that it held. -/
def HasLetGo (c : Controller) : Prop := c.initialized = true ∧ c.joint = none

/-- The controller holding a joint to a child link. -/
def attachedTo (c : Controller) (childLink e : Entity) : Controller :=
  { c with childLink := some childLink, joint := some e, initialized := true }

/-- The controller without a joint and with its flag down. -/
def lettingGo (c : Controller) : Controller := { c with requested := false,
                                                        joint := none }

theorem sound_new : Sound {} :=
  { configured := by simp
    model := rfl
    spec := rfl
    parentLink := rfl
    topic := by simp
    untitled := fun _ => rfl
    valid := by simp
    childLink := rfl
    initialized := by simp }

/-! ## Configuration -/

/-- What a configuration finds: the entity is a live model, the element has
settings, the model has the parent link that they name, and the topic is the
first of the candidates that is valid. -/
theorem resolve_eq_ok_iff {e : Entity} {element : Element} {s : Store}
    {found : Resolution} :
    resolve e element s = .ok found ↔
      s.isValidModel e = true ∧ JointSpec.ofElement element = .ok found.spec ∧
        s.linkNamed? e found.spec.parentLink = some found.parentLink ∧
          Topic.firstValid (found.spec.topicCandidates (s.nameOrEmpty e)) =
            some found.topic := by
  obtain ⟨spec, parentLink, topic⟩ := found
  unfold resolve
  cases hvalid : s.isValidModel e with
  | false => simp [throw, throwThe, MonadExceptOf.throw, bind, Except.bind]
  | true =>
      cases hspec : JointSpec.ofElement element with
      | error cause => simp [bind, Except.bind]
      | ok spec' =>
          simp only [bind, Except.bind, pure, Except.pure, throw, throwThe,
            MonadExceptOf.throw, Bool.not_true, Bool.false_eq_true, if_false,
            Except.ok.injEq, true_and]
          constructor
          · intro h
            split at h
            · cases h
            · next hlink =>
              split at h
              · cases h
              · next htopic =>
                cases h
                exact ⟨rfl, hlink, htopic⟩
          · rintro ⟨rfl, hlink, htopic⟩
            simp only [hlink, htopic]

theorem isValid_of_resolve {e : Entity} {element : Element} {s : Store}
    {found : Resolution} (h : resolve e element s = .ok found) :
    Topic.isValid found.topic = true := by
  obtain ⟨-, -, -, hfirst⟩ := resolve_eq_ok_iff.1 h
  obtain ⟨candidate, -, hsanitize⟩ := List.exists_of_findSome?_eq_some hfirst
  exact Topic.isValid_of_sanitize hsanitize

/-- A configuration leaves the controller alone or is the first one. -/
theorem configure_cases (c : Controller) (e : Entity)
    (element : Element) (s : Store) :
    (c.configure e element s).1 = c ∨
    (c.configured = false ∧
      (c.configure e element s).1 = { c with configured := true }) ∨
    ∃ found : Resolution, c.configured = false ∧
      resolve e element s = .ok found ∧
      (c.configure e element s).1 = { c with
        configured := true
        validConfig := true
        model := some e
        spec := some found.spec
        parentLink := some found.parentLink
        topic := found.topic } := by
  unfold configure
  by_cases hc : c.configured = true
  · exact .inl (by simp [hc])
  · have hc' : c.configured = false := by simpa using hc
    rw [if_neg hc]
    cases hr : resolve e element s with
    | error cause => exact .inr (.inl ⟨hc', rfl⟩)
    | ok found => exact .inr (.inr ⟨found, hc', rfl, rfl⟩)

theorem Sound.not_initialized {c : Controller} (h : c.Sound)
    (hc : c.configured = false) :
    c.initialized = false := by
  cases hi : c.initialized with
  | false => rfl
  | true => simp [h.configured (h.valid hi)] at hc

theorem Sound.joint_eq_none {c : Controller} (h : c.Sound)
    (hi : c.initialized = false) :
    c.joint = none := by
  cases hj : c.joint with
  | none => rfl
  | some e => simp [h.initialized (by simp [hj])] at hi

theorem Sound.configure {c : Controller} (h : c.Sound) (e : Entity)
    (element : Element) (s : Store) : (c.configure e element s).1.Sound := by
  rcases configure_cases c e element s with
    heq | ⟨hc, heq⟩ | ⟨found, hc, hfound, heq⟩
  · rwa [heq]
  · rw [heq]
    exact { h with configured := fun _ => rfl }
  · have hi := h.not_initialized hc
    rw [heq]
    refine { configured := fun _ => rfl, model := rfl, spec := rfl,
             parentLink := rfl,
             topic := fun _ => isValid_of_resolve hfound, untitled := ?_,
             valid := fun _ => rfl,
             childLink := h.childLink, initialized := h.initialized }
    intro hvalid
    cases hvalid

/-! ## Turns -/

section Turns

variable {κ : Type}

/-- The endpoint once a controller has tried to subscribe to its topic. -/
def Situation.subscribed (x : Situation κ) (callback : κ) : Endpoint κ :=
  match x.endpoint.subscribe x.controller.topic callback with
  | .ok endpoint => endpoint
  | .error _ => x.endpoint

/-- The situation after attaching. -/
def Situation.attached (x : Situation κ) (callback : κ)
    (parentLink childLink : Entity) (log : Log) : Situation κ :=
  { controller := x.controller.attachedTo childLink x.store.create.1
    store := x.store.create.2.setJoint x.store.create.1
      (Joint.fixed parentLink childLink)
    endpoint := x.subscribed callback
    log
    calls := x.calls ++ [.create x.store.create.1,
      .setJoint x.store.create.1 (Joint.fixed parentLink childLink),
      .subscribe x.controller.topic] }

/-- The situation after letting go of a joint. -/
def Situation.released (x : Situation κ) (e : Entity) (log : Log) :
    Situation κ :=
  { x with
    controller := x.controller.lettingGo
    store := x.store.requestRemoval e
    log
    calls := x.calls ++ [.requestRemoval e] }

/-- The controller is ready to attach and finds its child link. -/
structure Finds (x : Situation κ) (parentLink childLink : Entity) : Prop where
  valid : x.controller.validConfig = true
  unattached : x.controller.initialized = false
  parent : x.controller.parentLink = some parentLink
  found : ∃ spec model, x.controller.spec = some spec ∧
    x.controller.model = some model ∧
    search spec model x.store = .link childLink

/-- What a turn can do. -/
inductive Turn (callback : κ) (x : Situation κ) : Situation κ → Prop
  | idle {log : Log}
      (keeps : x.controller.initialized = true → x.controller.requested = true →
        x.controller.joint = none) :
      Turn callback x { x with log }
  | attach {parentLink childLink : Entity} {log : Log}
      (finds : Finds x parentLink childLink)
      (untold : x.controller.requested = false) :
      Turn callback x (x.attached callback parentLink childLink log)
  | attachAndLetGo {parentLink childLink : Entity} {before log : Log}
      (finds : Finds x parentLink childLink)
      (told : x.controller.requested = true) :
      Turn callback x
        ((x.attached callback parentLink childLink before).released
          x.store.create.1 log)
  | letGo {e : Entity} {log : Log} (attached : x.controller.initialized = true)
      (holds : x.controller.joint = some e)
      (told : x.controller.requested = true) :
      Turn callback x (x.released e log)

/-- A look for the child link finds it and attaches, or leaves all but the log
alone. -/
theorem discover_cases (callback : κ) {x : Situation κ}
    (hv : x.controller.validConfig = true)
    (hi : x.controller.initialized = false) :
    (∃ log, discover callback x = { x with log }) ∨
      ∃ parentLink childLink, Finds x parentLink childLink ∧
        discover callback x = fasten callback parentLink childLink x := by
  unfold discover
  split
  · next spec model hspec hmodel =>
    unfold seek
    split
    · next childLink hsearch =>
      unfold Controller.attach
      split
      · exact .inl ⟨x.log, rfl⟩
      · next parentLink hparent =>
        exact .inr ⟨parentLink, childLink,
          { valid := hv, unattached := hi, parent := hparent,
            found := ⟨spec, model, hspec, hmodel, hsearch⟩ }, rfl⟩
    · split
      · exact .inl ⟨x.log, rfl⟩
      · exact .inl ⟨_, rfl⟩
    · exact .inl ⟨_, rfl⟩
  · exact .inl ⟨x.log, rfl⟩

theorem fasten_eq (callback : κ) (parentLink childLink : Entity)
    (x : Situation κ) :
    ∃ log, fasten callback parentLink childLink x =
      x.attached callback parentLink childLink log := by
  have hcalls : ∀ a b c : Call,
      x.calls ++ [a] ++ [b] ++ [c] = x.calls ++ [a, b, c] := by simp
  simp only [fasten, Situation.create, Situation.setJoint, Situation.subscribe,
    Situation.attached, Situation.subscribed, hcalls]
  cases x.endpoint.subscribe x.controller.topic callback with
  | ok endpoint => exact ⟨_, rfl⟩
  | error e => exact ⟨_, rfl⟩

theorem detach_of_none {x : Situation κ} (h : x.controller.joint = none) :
    Controller.detach x = x := by
  simp [Controller.detach, h]

theorem detach_of_untold {x : Situation κ}
    (h : x.controller.requested = false) :
    Controller.detach x = x := by
  simp only [Controller.detach, h]
  split <;> simp

theorem detach_of_told {x : Situation κ} {e : Entity}
    (hj : x.controller.joint = some e) (h : x.controller.requested = true) :
    ∃ log, Controller.detach x = x.released e log := by
  simp only [Controller.detach, hj, h, if_true]
  exact ⟨_, rfl⟩

/-- A turn of an attached controller looks at the flag only. -/
theorem preUpdate_of_initialized (callback : κ) {x : Situation κ}
    (hi : x.controller.initialized = true) :
    preUpdate callback x = Controller.detach x := by
  simp [preUpdate, hi]

/-- Looking at the flag right after attaching either leaves the joint in place
or lets go of it. -/
theorem detach_turn (callback : κ) {x : Situation κ}
    {parentLink childLink : Entity} (finds : Finds x parentLink childLink)
    (log : Log) :
    Turn callback x
      (Controller.detach (x.attached callback parentLink childLink log)) := by
  cases ht : x.controller.requested with
  | false =>
      rw [detach_of_untold
        (show (x.attached callback parentLink childLink
          log).controller.requested
        = false from ht)]
      exact .attach finds ht
  | true =>
      have hjoint :
          (x.attached callback parentLink childLink log).controller.joint =
          some x.store.create.1 := rfl
      obtain ⟨log', heq⟩ := detach_of_told hjoint ht
      exact heq ▸ .attachAndLetGo finds ht

/-- Every turn does one of four things. -/
theorem preUpdate_turn (callback : κ) (x : Situation κ) :
    Turn callback x (preUpdate callback x) := by
  cases hi : x.controller.initialized with
  | true =>
      rw [preUpdate_of_initialized callback hi]
      cases hj : x.controller.joint with
      | none =>
          rw [detach_of_none hj]
          exact .idle fun _ _ => hj
      | some e =>
          cases ht : x.controller.requested with
          | false =>
              rw [detach_of_untold ht]
              exact .idle fun _ h => absurd h (by simp [ht])
          | true =>
              obtain ⟨log, heq⟩ := detach_of_told hj ht
              exact heq ▸ .letGo hi hj ht
  | false =>
      cases hv : x.controller.validConfig with
      | false =>
          rw [preUpdate_of_invalid callback hv hi]
          exact .idle fun h => absurd h (by simp [hi])
      | true =>
          have hpre : preUpdate callback x =
              if (discover callback x).controller.initialized then
                Controller.detach (discover callback x)
              else discover callback x := by
            simp [preUpdate, hv, hi]
          rw [hpre]
          rcases discover_cases callback hv hi with
            ⟨log, heq⟩ | ⟨parent, child, hfinds, heq⟩
          · rw [heq, if_neg (by simp [hi])]
            exact .idle fun h => absurd h (by simp [hi])
          · obtain ⟨log, hattach⟩ := fasten_eq callback parent child x
            have hattached :
                (x.attached callback parent child log).controller.initialized =
                  true :=
              rfl
            rw [heq, hattach, if_pos hattached]
            exact detach_turn callback hfinds log

variable {callback : κ} {x y : Situation κ}

theorem Sound.turn (h : x.controller.Sound) (hturn : Turn callback x y) :
    y.controller.Sound := by
  cases hturn with
  | idle _ => exact h
  | attach finds _ =>
      exact { h with valid := fun _ => finds.valid, childLink := rfl,
                     initialized := fun _ => rfl }
  | attachAndLetGo finds _ =>
      exact { h with valid := fun _ => finds.valid, childLink := rfl,
                     initialized := fun _ => rfl }
  | letGo attached holds _ =>
      exact { h with
        initialized := fun hj =>
          absurd hj (by simp [Situation.released, lettingGo]) }

theorem Turn.store_sound (h : x.store.Sound) (hturn : Turn callback x y) :
    y.store.Sound := by
  cases hturn with
  | idle _ => exact h
  | attach _ _ => exact h.create.setJoint _ _
  | attachAndLetGo _ _ => exact (h.create.setJoint _ _).requestRemoval _
  | letGo _ _ _ => exact h.requestRemoval _

theorem slots_length_le_turn (hturn : Turn callback x y) :
    x.store.pool.slots.length ≤ y.store.pool.slots.length := by
  have hcreate := Pool.slots_length_le_create x.store.pool
  have hattach : ∀ joint,
      (x.store.create.2.setJoint x.store.create.1 joint).pool =
      x.store.pool.create.2 := fun joint => Store.pool_attach _ _ _
  cases hturn with
  | idle _ => exact Nat.le_refl _
  | attach _ _ => exact (hattach _).symm ▸ hcreate
  | attachAndLetGo _ _ =>
      show _ ≤ (Store.requestRemoval _ _).pool.slots.length
      rw [Store.pool_requestRemoval]
      exact (hattach _).symm ▸ hcreate
  | letGo _ _ _ =>
      exact Nat.le_of_eq
        (congrArg (·.slots.length) (Store.pool_requestRemoval _ _)).symm

theorem Turn.topic (hturn : Turn callback x y) :
    y.controller.topic = x.controller.topic := by
  cases hturn <;> rfl

/-- A turn subscribes exactly when it attaches. -/
theorem Turn.endpoint_cases (hturn : Turn callback x y) :
    (y.endpoint = x.endpoint ∧
      y.controller.initialized = x.controller.initialized) ∨
    (y.endpoint = x.subscribed callback ∧ x.controller.validConfig = true ∧
      x.controller.initialized = false ∧ y.controller.initialized = true) := by
  cases hturn with
  | idle _ => exact .inl ⟨rfl, rfl⟩
  | attach finds _ => exact .inr ⟨rfl, finds.valid, finds.unattached, rfl⟩
  | attachAndLetGo finds _ =>
      exact .inr ⟨rfl, finds.valid, finds.unattached, rfl⟩
  | letGo _ _ _ => exact .inl ⟨rfl, rfl⟩

/-- A controller that has not let go by the end of a turn has not touched its
flag. -/
theorem Turn.requested_eq (hturn : Turn callback x y)
    (hy : ¬ y.controller.HasLetGo) :
    ¬ x.controller.HasLetGo ∧
    y.controller.requested = x.controller.requested := by
  cases hturn with
  | idle _ => exact ⟨hy, rfl⟩
  | attach finds _ =>
      exact ⟨fun h => absurd h.1 (by simp [finds.unattached]), rfl⟩
  | attachAndLetGo _ _ => exact absurd ⟨rfl, rfl⟩ hy
  | letGo attached _ _ => exact absurd ⟨attached, rfl⟩ hy

end Turns

end Controller

end Linkage
