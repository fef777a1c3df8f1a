import Linkage.Element
import Linkage.Entity
import Linkage.Text.Quoted
import Linkage.Topic

/-!
# What a detachable joint is told

A joint is described by an element with three required parameters, the parent
link, the child model and the child link, and two optional ones, a topic that
overrides the default command topic and a switch that silences one warning.
All are read from trimmed text.

## Main results

* `JointSpec.topicCandidates_ne_nil`: there is always a topic to try.
-/

namespace Linkage

/-- The value of the child model that stands for the model the joint belongs
to. -/
def selfModel : String := "__model__"

/-- The settings of a detachable joint. -/
structure JointSpec where
  parentLink : String
  childModel : String
  childLink : String
  topic : Option String
  suppressChildWarning : Bool
  deriving DecidableEq, Repr

/-- Why a joint cannot be configured. -/
inductive JointConfigError
  | notAModel (entity : Entity)
  | missingParameter (key : String)
  | invalidParameter (error : UnreadableParameter)
  | parentLinkNotFound (link model : String)
  | noValidTopic (candidates : List String)
  deriving DecidableEq, Repr

/-- The message that reports the cause. -/
def JointConfigError.message : JointConfigError → String
  | .notAModel _ => "DetachableJoint should be attached to a model entity"
  | .missingParameter key =>
      s!"'{key}' is a required parameter for DetachableJoint"
  | .invalidParameter e => e.message
  | .parentLinkNotFound link model =>
      s!"link with name {link} not found in model {model}; check the 'parent_link' parameter"
  | .noValidTopic candidates =>
      "none of the candidate topics " ++
        Text.quotedList candidates ++ " is valid"

namespace JointSpec

/-- A required parameter, as trimmed text. -/
def required (e : Element) (key : String) : Except JointConfigError String :=
  match e.trimmed? key with
  | some value => .ok value
  | none => .error (.missingParameter key)

/-- The settings described by an element. -/
def ofElement (e : Element) : Except JointConfigError JointSpec := do
  let parentLink ← required e "parent_link"
  let childModel ← required e "child_model"
  let childLink ← required e "child_link"
  let suppress ← (e.readOr ScalarType.readFlag? "suppress_child_warning"
    false).mapError .invalidParameter
  return {
    parentLink, childModel, childLink
    topic := e.trimmed? "topic"
    suppressChildWarning := suppress }

/-- Whether the child link belongs to the model of the joint itself. -/
def childIsSelf (s : JointSpec) : Bool := s.childModel = selfModel

/-- The command topic of a joint that names none. -/
def defaultTopic (modelName : String) : String :=
  s!"/model/{modelName}/detachable_joint/detach"

/-- The topics to try, the most specific first. -/
def topicCandidates (s : JointSpec) (modelName : String) : List String :=
  s.topic.toList ++ [defaultTopic modelName]

theorem topicCandidates_ne_nil (s : JointSpec) (modelName : String) :
    s.topicCandidates modelName ≠ [] := by
  simp [topicCandidates]

end JointSpec

end Linkage
