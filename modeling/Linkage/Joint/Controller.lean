import Linkage.Joint.Spec
import Linkage.Log
import Linkage.Store.Query
import Linkage.Transport

/-!
# The detachable joint controller

A controller holds two links together with a fixed joint until it is told to
let go. It is configured once, with the model it belongs to; a configuration
that fails leaves it inert for good. In every later step it first looks for the
child link, which may be spawned at any time, and when it finds one it creates
the joint and subscribes to its command topic. A command only raises a flag;
the flag is looked at once per step, and the first time it is up after the
joint exists the removal of the joint is requested. A controller never attaches
a second time.

## Main results

* `Controller.configure_of_configured`: a second configuration changes nothing.
* `Controller.preUpdate_of_invalid`: without a valid configuration a step does
  nothing.
-/

namespace Linkage

/-- The state of a detachable joint. -/
structure Controller where
  model : Option Entity := none
  spec : Option JointSpec := none
  topic : String := ""
  configured : Bool := false
  validConfig : Bool := false
  initialized : Bool := false
  parentLink : Option Entity := none
  childLink : Option Entity := none
  joint : Option Entity := none
  requested : Bool := false
  deriving DecidableEq, Repr

namespace Controller

/-- The name that a runner reports for the controller. -/
def systemName : String := "detachable_joint"

/-- Receive a command; its content does not matter. -/
def request (c : Controller) : Controller := { c with requested := true }

/-- The model, settings, parent link and topic of a joint. -/
structure Resolution where
  spec : JointSpec
  parentLink : Entity
  topic : String

/-- Find what the element asks for in the store, or the first reason why it
cannot be found. -/
def resolve (e : Entity) (element : Element) (s : Store) :
    Except JointConfigError Resolution := do
  if !s.isValidModel e then throw (.notAModel e)
  let spec ← JointSpec.ofElement element
  match s.linkNamed? e spec.parentLink with
  | none => throw (.parentLinkNotFound spec.parentLink (s.nameOrEmpty e))
  | some parentLink =>
      let candidates := spec.topicCandidates (s.nameOrEmpty e)
      match Topic.firstValid candidates with
      | none => throw (.noValidTopic candidates)
      | some topic => return { spec, parentLink, topic }

/-- Configure the controller for a model. Only the first configuration
counts. -/
def configure (c : Controller) (e : Entity) (element : Element) (s : Store) :
    Controller × Log :=
  if c.configured then
    (c,
      [⟨.warning,
        "DetachableJoint is already configured; ignoring second configuration"⟩])
  else
    match resolve e element s with
    | .error cause =>
        ({ c with configured := true },
          [⟨.error, cause.message ++ ". Failed to initialize."⟩])
    | .ok found =>
        ({ c with
            configured := true
            validConfig := true
            model := some e
            spec := some found.spec
            parentLink := some found.parentLink
            topic := found.topic }, [])

/-- What a look for the child link found. -/
inductive Discovery
  | link (e : Entity)
  | noModel
  | noLink
  deriving DecidableEq, Repr

/-- The child model: the model of the joint itself, or the first model of the
name. -/
def childModel? (spec : JointSpec) (model : Entity) (s : Store) :
    Option Entity :=
  if spec.childIsSelf then some model else
    s.first? (Store.modelNamed spec.childModel)

/-- Look for the child link. -/
def search (spec : JointSpec) (model : Entity) (s : Store) : Discovery :=
  match childModel? spec model s with
  | none => .noModel
  | some child =>
      match s.linkNamed? child spec.childLink with
      | none => .noLink
      | some link => .link link

/-- A call that a controller makes on the store and the endpoint it acts on. -/
inductive Call
  | create (e : Entity)
  | setJoint (e : Entity) (joint : Joint)
  | subscribe (topic : String)
  | requestRemoval (e : Entity)
  deriving DecidableEq, Repr

/-- A controller together with the store and the endpoint it acts on, what it
logged, and the calls that it made. Nothing reads the calls; laws about what a
controller does are stated with them. -/
structure Situation (κ : Type) where
  controller : Controller
  store : Store
  endpoint : Endpoint κ
  log : Log := []
  calls : List Call := []

namespace Situation

variable {κ : Type}

/-- Create an entity in the store. -/
def create (x : Situation κ) : Entity × Situation κ :=
  let made := x.store.create
  (made.1, { x with store := made.2, calls := x.calls ++ [.create made.1] })

/-- Make an entity of the store stand for a joint. -/
def setJoint (x : Situation κ) (e : Entity) (joint : Joint) : Situation κ :=
  { x with store := x.store.setJoint e joint,
           calls := x.calls ++ [.setJoint e joint] }

/-- Subscribe to a topic and tell whether that succeeded. -/
def subscribe (x : Situation κ) (topic : String) (callback : κ) :
    Except InvalidTopic Unit × Situation κ :=
  let y := { x with calls := x.calls ++ [.subscribe topic] }
  match x.endpoint.subscribe topic callback with
  | .ok endpoint => (.ok (), { y with endpoint })
  | .error e => (.error e, y)

/-- Ask for the removal of an entity. -/
def requestRemoval (x : Situation κ) (e : Entity) : Situation κ :=
  { x with store := x.store.requestRemoval e,
           calls := x.calls ++ [.requestRemoval e] }

/-- Add an entry to the log. -/
def report (x : Situation κ) (entry : LogEntry) : Situation κ :=
  { x with log := x.log ++ [entry] }

end Situation

/-- The warning that the child model is missing. -/
def modelMissing (spec : JointSpec) : LogEntry :=
  ⟨.warning, s!"Child Model {spec.childModel} could not be found."⟩

/-- The warning that the child link is missing. -/
def linkMissing (spec : JointSpec) : LogEntry :=
  ⟨.warning, s!"Child Link {spec.childLink} could not be found."⟩

/-- Create the joint between two links and subscribe to the command topic. -/
def fasten {κ : Type} (callback : κ) (parentLink childLink : Entity)
    (x : Situation κ) :
    Situation κ :=
  let made := x.create
  let joined := made.2.setJoint made.1 (Joint.fixed parentLink childLink)
  let c := { x.controller with childLink := some childLink,
                               joint := some made.1 }
  let heard := joined.subscribe c.topic callback
  let told := match heard.1 with
    | .ok () => heard.2.report
        ⟨.info, s!"DetachableJoint subscribing to messages on [{c.topic}]"⟩
    | .error e => heard.2.report
        ⟨.error,
          s!"DetachableJoint could not subscribe to [{c.topic}]: {e.message}"⟩
  { told with controller := { c with initialized := true } }

/-- Attach to a child link, if there is a parent link to hold it to. -/
def attach {κ : Type} (callback : κ) (childLink : Entity) (x : Situation κ) :
    Situation κ :=
  match x.controller.parentLink with
  | none => x
  | some parentLink => fasten callback parentLink childLink x

/-- Look for the child link that the settings ask for and attach to it, or log
what is missing. -/
def seek {κ : Type} (callback : κ) (spec : JointSpec) (model : Entity)
    (x : Situation κ) :
    Situation κ :=
  match search spec model x.store with
  | .link childLink => attach callback childLink x
  | .noModel =>
      if spec.suppressChildWarning then x else x.report (modelMissing spec)
  | .noLink => x.report (linkMissing spec)

/-- Make one attempt to attach, if there are settings and a model. -/
def discover {κ : Type} (callback : κ) (x : Situation κ) : Situation κ :=
  match x.controller.spec, x.controller.model with
  | some spec, some model => seek callback spec model x
  | _, _ => x

/-- Request the removal of the joint if a command has come. -/
def detach {κ : Type} (x : Situation κ) : Situation κ :=
  match x.controller.joint with
  | none => x
  | some joint =>
      if x.controller.requested then
        let told := x.report ⟨.debug, s!"Removing entity: {joint.text}"⟩
        { told.requestRemoval joint with
          controller := { x.controller with requested := false,
                                            joint := none } }
      else x

/-- What the controller does in a step. -/
def preUpdate {κ : Type} (callback : κ) (x : Situation κ) : Situation κ :=
  let y := if x.controller.validConfig && !x.controller.initialized then
    discover callback x else x
  if y.controller.initialized then detach y else y

theorem configure_of_configured {c : Controller}
    (h : c.configured = true) (e : Entity) (element : Element) (s : Store) :
    (c.configure e element s).1 = c := by
  simp [configure, h]

theorem preUpdate_of_invalid {κ : Type} (callback : κ) {x : Situation κ}
    (hv : x.controller.validConfig = false)
    (hi : x.controller.initialized = false) :
    preUpdate callback x = x := by
  simp [preUpdate, hv, hi]

end Controller

end Linkage
