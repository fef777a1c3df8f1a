import Linkage.SortedMap
import Linkage.Text.Quoted
import Linkage.Topic

/-!
# Message transport

Messages are published on named topics and delivered to the callbacks
subscribed there, in the order of their subscription and once per
subscription. A subscriber has to name a valid topic exactly; a publisher's
name is repaired first. There is no way to unsubscribe.

## Main results

* `Transport.subscribers_subscribe`: a subscription is seen on its own topic
  only.
-/

namespace Linkage

/-- A name that is not, or cannot be made, a valid topic. -/
structure InvalidTopic where
  name : String
  deriving DecidableEq, Repr

/-- The message that reports the name. -/
def InvalidTopic.message (e : InvalidTopic) : String :=
  s!"invalid topic name: '{e.name}'"

/-- Callbacks by topic; only topics with a callback are held. -/
structure Transport (κ : Type) where
  topics : SortedMap String (List κ) := .empty

namespace Transport

variable {κ : Type}

instance [DecidableEq κ] : DecidableEq (Transport κ) := fun a b =>
  if h : a.topics = b.topics then .isTrue (by cases a; cases b; simp_all)
  else .isFalse fun e => h (e ▸ rfl)

instance : Inhabited (Transport κ) := ⟨{}⟩

/-- The callbacks of a topic, in the order of their subscription. -/
def subscribers (t : Transport κ) (topic : String) : List κ :=
  (t.topics.get? topic).getD []

/-- Subscribe a callback to a valid topic. -/
def subscribe (t : Transport κ) (topic : String) (k : κ) :
    Except InvalidTopic (Transport κ) :=
  if Topic.isValid topic then
    .ok ⟨t.topics.insert topic (t.subscribers topic ++ [k])⟩
  else .error ⟨topic⟩

/-- The callbacks that a message published under a name goes to. -/
def receivers (t : Transport κ) (name : String) :
    Except InvalidTopic (List κ) :=
  match Topic.sanitize name with
  | some topic => .ok (t.subscribers topic)
  | none => .error ⟨name⟩

/-- Topics with a callback, sorted. -/
def topicNames (t : Transport κ) : List String := t.topics.keys

/-- The description of a transport: its topics and how many callbacks each
has. -/
def describe (t : Transport κ) : String :=
  let entries := t.topics.entries.map fun e =>
    "(" ++ Text.quoted e.1 ++ ", " ++ toString e.2.length ++ ")"
  "LocalTransport \x7b topics: [" ++ ", ".intercalate entries ++ "] \x7d"

theorem subscribers_subscribe {t u : Transport κ} {topic : String} {k : κ}
    (h : t.subscribe topic k = .ok u) (other : String) :
    u.subscribers other =
      if other = topic then t.subscribers topic ++ [k] else
          t.subscribers other := by
  unfold subscribe at h
  split at h
  · cases h
    simp only [subscribers, SortedMap.get?_insert]
    split <;> rfl
  · cases h

end Transport

/-- What a component that wants to receive messages holds: a transport, or one
that refuses every subscription. -/
inductive Endpoint (κ : Type)
  | connected (t : Transport κ)
  | refusing

namespace Endpoint

variable {κ : Type}

/-- Subscribe a callback to a topic. -/
def subscribe (e : Endpoint κ) (topic : String) (k : κ) :
    Except InvalidTopic (Endpoint κ) :=
  match e with
  | .connected t => (t.subscribe topic k).map .connected
  | .refusing => .error ⟨topic⟩

end Endpoint

end Linkage
