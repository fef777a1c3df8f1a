import Linkage.Proofs.Joint.Lifecycle

/-!
# A controller over its life

A controller is configured, told to let go and given turns, in any order and any
number of times, and each time it meets a store and an endpoint that others may
have changed in any way. All that it carries from one encounter to the next is
its own state.

What it learns it never forgets: a phase that it has come to is not taken back,
and a model, a link or a topic that it knows stays the one it knows. The phases
come in order, so when a controller looks for its child link it has all that it
needs, and neither the look nor the attaching breaks off for want of something.

## Main results

* `Controller.Sound.live`, `Controller.Lasting.live`: what holds over a life.
* `Controller.lifecycle_of_live`: the phases of a life and what they rule out.
-/

namespace Linkage

namespace Controller

variable {κ : Type}

/-- Something asked of a controller. -/
inductive Demand (κ : Type)
  | configure (e : Entity) (element : Element)
  | preUpdate (callback : κ)
  | request

/-- A demand, with the store and the endpoint that the controller meets. -/
structure Encounter (κ : Type) where
  demand : Demand κ
  store : Store
  endpoint : Endpoint κ

namespace Encounter

/-- The situation in which a controller meets the demand. -/
def situation (n : Encounter κ) (c : Controller) : Situation κ :=
  { controller := c, store := n.store, endpoint := n.endpoint }

end Encounter

/-- What a controller leaves of an encounter. -/
def meet (c : Controller) (n : Encounter κ) : Situation κ :=
  match n.demand with
  | .configure e element =>
      let configured := c.configure e element n.store
      { n.situation c with controller := configured.1, log := configured.2 }
  | .preUpdate callback => preUpdate callback (n.situation c)
  | .request => { n.situation c with controller := c.request }

/-- The controller after encounters, one after the other. -/
def live (c : Controller) (life : List (Encounter κ)) : Controller :=
  life.foldl (fun c n => (c.meet n).controller) c

theorem live_append (c : Controller) (earlier later : List (Encounter κ)) :
    c.live (earlier ++ later) = (c.live earlier).live later :=
  List.foldl_append

theorem live_concat (c : Controller) (life : List (Encounter κ))
    (n : Encounter κ) :
    c.live (life ++ [n]) = ((c.live life).meet n).controller :=
  live_append c life [n]

/-! ## The phases stay in order -/

theorem Sound.meet {c : Controller} (h : c.Sound) (n : Encounter κ) :
    (c.meet n).controller.Sound := by
  unfold Controller.meet
  split
  · next e element _ => exact h.configure e element n.store
  · next callback _ =>
      exact Sound.turn (x := n.situation c) h (preUpdate_turn callback _)
  · exact { h with }

theorem Sound.live {c : Controller} (h : c.Sound) (life : List (Encounter κ)) :
    (c.live life).Sound := by
  induction life generalizing c with
  | nil => exact h
  | cons n life ih => exact ih (h.meet n)

/-- Every controller that has come about since it was new is sound. -/
theorem sound_live (life : List (Encounter κ)) : (live {} life).Sound :=
  sound_new.live life

theorem Sound.not_valid {c : Controller} (h : c.Sound)
    (hc : c.configured = false) :
    c.validConfig = false := by
  cases hv : c.validConfig with
  | false => rfl
  | true => simp [h.configured hv] at hc

/-- A valid controller knows its settings, its model and its parent link. -/
theorem Sound.knows {c : Controller} (h : c.Sound) (hv : c.validConfig = true) :
    ∃ spec model parentLink,
      c.spec = some spec ∧ c.model = some model ∧
      c.parentLink = some parentLink := by
  obtain ⟨spec, hspec⟩ := Option.isSome_iff_exists.1 (h.spec.trans hv)
  obtain ⟨model, hmodel⟩ := Option.isSome_iff_exists.1 (h.model.trans hv)
  obtain ⟨parentLink, hparent⟩ :=
    Option.isSome_iff_exists.1 (h.parentLink.trans hv)
  exact ⟨spec, model, parentLink, hspec, hmodel, hparent⟩

/-! ## What lasts -/

/-- What a controller never takes back: the phases that it has come to, and what
it knows. -/
structure Lasting (c d : Controller) : Prop where
  configured : c.configured = true → d.configured = true
  validConfig : c.validConfig = true → d.validConfig = true
  initialized : c.initialized = true → d.initialized = true
  model : ∀ {e : Entity}, c.model = some e → d.model = some e
  spec : ∀ {spec : JointSpec}, c.spec = some spec → d.spec = some spec
  topic : c.topic ≠ "" → d.topic = c.topic
  parentLink : ∀ {e : Entity}, c.parentLink = some e → d.parentLink = some e
  childLink : ∀ {e : Entity}, c.childLink = some e → d.childLink = some e
  letGo : c.HasLetGo → d.HasLetGo

namespace Lasting

variable {c d f : Controller}

theorem refl (c : Controller) : Lasting c c :=
  { configured := id, validConfig := id, initialized := id,
    model := id, spec := id
    topic := fun _ => rfl, parentLink := id, childLink := id, letGo := id }

theorem trans (h : Lasting c d) (h' : Lasting d f) : Lasting c f :=
  { configured := fun hc => h'.configured (h.configured hc)
    validConfig := fun hc => h'.validConfig (h.validConfig hc)
    initialized := fun hc => h'.initialized (h.initialized hc)
    model := fun hc => h'.model (h.model hc)
    spec := fun hc => h'.spec (h.spec hc)
    topic := fun hc => by
      have htopic := h.topic hc
      exact (h'.topic (htopic.symm ▸ hc)).trans htopic
    parentLink := fun hc => h'.parentLink (h.parentLink hc)
    childLink := fun hc => h'.childLink (h.childLink hc)
    letGo := fun hc => h'.letGo (h.letGo hc) }

/-- A configuration sets only what a controller that was never configured does
not know yet. -/
theorem configure (h : c.Sound) (e : Entity) (element : Element) (s : Store) :
    Lasting c (c.configure e element s).1 := by
  rcases configure_cases c e element s with heq | ⟨-, heq⟩ | ⟨found, hc, -, heq⟩
  · rw [heq]
    exact refl c
  · rw [heq]
    exact { refl c with configured := fun _ => rfl }
  · have hv := h.not_valid hc
    have hunknown : ∀ {α : Type} {o : Option α} {a : α},
        o.isSome = c.validConfig → o ≠ some a := by
      rintro α o a ho rfl
      simp [hv] at ho
    rw [heq]
    exact { refl c with
      configured := fun _ => rfl
      validConfig := fun _ => rfl
      model := fun hm => absurd hm (hunknown h.model)
      spec := fun hs => absurd hs (hunknown h.spec)
      topic := fun ht => absurd (h.untitled hv) ht
      parentLink := fun hp => absurd hp (hunknown h.parentLink) }

/-- A turn sets only the child link and the joint, and only when the controller
attaches. -/
theorem turn {callback : κ} {x y : Situation κ} (h : x.controller.Sound)
    (hturn : Turn callback x y) : Lasting x.controller y.controller := by
  have hattached : ∀ {parentLink childLink : Entity},
      Finds x parentLink childLink →
      (∀ {e : Entity}, x.controller.childLink ≠ some e) ∧
      ¬ x.controller.HasLetGo := by
    intro parentLink childLink finds
    constructor
    · intro e he
      have hsome := h.childLink
      simp [he, finds.unattached] at hsome
    · exact fun hgone => absurd hgone.1 (by simp [finds.unattached])
  cases hturn with
  | idle _ => exact refl _
  | attach finds _ =>
      exact { refl x.controller with
        initialized := fun _ => rfl
        childLink := fun hc => absurd hc (hattached finds).1
        letGo := fun hgone => absurd hgone (hattached finds).2 }
  | attachAndLetGo finds _ =>
      exact { refl x.controller with
        initialized := fun _ => rfl
        childLink := fun hc => absurd hc (hattached finds).1
        letGo := fun hgone => absurd hgone (hattached finds).2 }
  | letGo attached _ _ =>
      exact { refl x.controller with letGo := fun _ => ⟨attached, rfl⟩ }

theorem meet (h : c.Sound) (n : Encounter κ) :
    Lasting c (c.meet n).controller := by
  unfold Controller.meet
  split
  · next e element _ => exact configure h e element n.store
  · next callback _ =>
      exact turn (x := n.situation c) h (preUpdate_turn callback _)
  · exact { refl c with }

/-- No encounter undoes what lasts. -/
theorem live (h : c.Sound) (life : List (Encounter κ)) :
    Lasting c (c.live life) := by
  induction life generalizing c with
  | nil => exact refl c
  | cons n life ih => exact (meet h n).trans (ih (h.meet n))

end Lasting

/-! ## A whole life -/

/-- With settings and a model at hand a look for the child link does not break
off early. -/
theorem discover_eq_seek (callback : κ) {x : Situation κ} {spec : JointSpec}
    {model : Entity} (hspec : x.controller.spec = some spec)
    (hmodel : x.controller.model = some model) :
    discover callback x = seek callback spec model x := by
  simp only [discover, hspec, hmodel]

/-- With a parent link at hand attaching does not break off early. -/
theorem attach_eq_fasten (callback : κ) {x : Situation κ} {parentLink : Entity}
    (hparent : x.controller.parentLink = some parentLink) (childLink : Entity) :
    Controller.attach callback childLink x =
      fasten callback parentLink childLink x := by
  simp only [Controller.attach, hparent]

/-- Whatever a controller has met since it was new, it is in order and stays so,
nothing that it has come to is ever taken back, and it has all that it needs
when it looks for its child link. -/
theorem lifecycle_of_live (earlier later : List (Encounter κ)) :
    (live {} earlier).Sound ∧ (live {} (earlier ++ later)).Sound ∧
      Lasting (live {} earlier) (live {} (earlier ++ later)) ∧
      ∀ (callback : κ) (x : Situation κ), x.controller = live {} earlier →
        x.controller.validConfig = true →
          ∃ spec model parentLink, x.controller.spec = some spec ∧
            x.controller.model = some model ∧
            x.controller.parentLink = some parentLink ∧
            discover callback x = seek callback spec model x ∧
            ∀ childLink, Controller.attach callback childLink x =
              fasten callback parentLink childLink x := by
  have hsound := sound_live earlier
  refine ⟨hsound, sound_live _, ?_, ?_⟩
  · rw [live_append]
    exact Lasting.live hsound later
  · intro callback x hx hvalid
    rw [← hx] at hsound
    obtain ⟨spec, model, parentLink, hspec, hmodel, hparent⟩ :=
      hsound.knows hvalid
    exact ⟨spec, model, parentLink, hspec, hmodel, hparent,
      discover_eq_seek callback hspec hmodel, attach_eq_fasten callback hparent⟩

end Controller

end Linkage
