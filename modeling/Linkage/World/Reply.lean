import Linkage.Joint.Controller
import Linkage.Scene
import Linkage.World.Action

/-!
# Replies and traces

Every call of a scenario has a reply, and what listeners and scripted systems
see and do is recorded in a trace, in order.
-/

namespace Linkage

/-- All components of one entity. -/
structure EntityRow where
  entity : Entity
  isModel : Bool
  isLink : Bool
  name : Option String
  parent : Option Entity
  joint : Option Joint

/-- All live entities of a store with their components, in slot order. -/
def Store.rows (s : Store) : List EntityRow :=
  s.pool.live.map fun e => ⟨e, s.isModel e, s.isLink e, s.name? e,
    s.parent? e, s.joint? e⟩

/-- A model as it is seen through its entity, and one link if it was asked
for. -/
structure ModelView where
  entity : Entity
  valid : Bool
  name : String
  linkCount : Nat
  link : Option Entity

/-- A model of a store, with the link of a name if one is given. -/
def Store.view (s : Store) (e : Entity) (link : Option String) : ModelView :=
  ⟨e, s.isValidModel e, s.nameOrEmpty e, s.linkCount e,
    link.bind (s.linkNamed? e)⟩

/-- Which kind a system is found to have. -/
structure KindView where
  isJoint : Bool
  isScript : Bool
  isInert : Bool

/-- What a call can be refused for. -/
inductive Refusal
  | invalidTopic (e : InvalidTopic)
  | duplicateName (e : DuplicateName)
  | unreadable (origin : String)
  deriving DecidableEq, Repr

/-- The result of a call. -/
inductive Reply
  | nothing
  | done
  | flag (b : Bool)
  | maybeFlag (b : Option Bool)
  | count (n : Nat)
  | text (s : String)
  | maybeText (s : Option String)
  | texts (l : List String)
  | maybeEntity (e : Option Entity)
  | entities (l : List Entity)
  | spawned (model : Entity) (links : List Entity)
  | handle (raw : Nat) (text : String)
  | joint (j : Option Joint)
  | joints (l : List (Entity × Joint))
  | rows (l : List EntityRow)
  | model (view : ModelView)
  | runner (info : StepInfo) (paused stopped : Bool) (systems : Nat)
  | kind (view : KindView)
  | controller (c : Controller)
  | plugins (l : List PendingPlugin)
  | refused (cause : Refusal)
  | panicked (text : String)
  | unknown (what : String)

/-- One record of a listener or a scripted system. -/
inductive TraceEntry
  | heard (listener : String) (what : Delivery)
  | acted (listener : String) (index : Nat) (reply : Reply)
  | configured (system : String) (e : Entity) (element : Element)
      (pauseListeners : Nat)
  | updated (system : String) (info : StepInfo)
  | systemActed (system : String) (index : Nat) (reply : Reply)

end Linkage
