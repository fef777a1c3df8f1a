import Linkage.World.Basic

/-!
# Calls on a transport

A callback that is handed a message may subscribe and publish in its turn, on
the same transport, and those whom its messages reach may do so again. So the
calls on a transport do not come one after the other: a publication is a call
with further calls in it, which belong to the turns of the callbacks that it
called.

The law of a call is stated with the subscriptions that were made before it, in
the order of time and at whatever depth. A publication goes to those of its
topic, once for each and in their order, whatever is subscribed while it is
under way; what one is told about subscribers and topics is what those
subscriptions come to.

## Main results

* `Transport.Holds.subscribe`: what a transport holds once a subscription was
  made.
* `callsLawful_append_iff`: later calls are lawful after what was subscribed in
  earlier ones.
-/

namespace Linkage

/-! ## What a transport holds -/

/-- The callbacks that subscriptions have bound to a topic, in order. -/
def boundTo {κ : Type} (made : List (String × κ)) (topic : String) : List κ :=
  (made.filter (·.1 = topic)).map (·.2)

/-- A transport holds what some subscriptions come to: under every topic the
callbacks bound to it, and the topics that have any, sorted and all of them
valid. -/
structure Transport.Holds {κ : Type} (t : Transport κ)
    (made : List (String × κ)) : Prop where
  subscribers : ∀ topic, t.subscribers topic = boundTo made topic
  named : ∀ topic, topic ∈ t.topicNames ↔ ∃ k, (topic, k) ∈ made
  sorted : t.topicNames.Pairwise (· < ·)
  valid : ∀ topic ∈ t.topicNames, Topic.isValid topic = true

namespace Transport

variable {κ : Type} {t u : Transport κ} {made : List (String × κ)}
  {topic : String} {k : κ}

theorem mem_topicNames_iff (t : Transport κ) (topic : String) :
    topic ∈ t.topicNames ↔ (t.topics.get? topic).isSome = true := by
  simp only [topicNames, SortedMap.keys, List.mem_map, Option.isSome_iff_exists]
  constructor
  · rintro ⟨⟨key, l⟩, hmem, rfl⟩
    exact ⟨l, (SortedMap.mem_entries_iff t.topics key l).1 hmem⟩
  · rintro ⟨l, hl⟩
    exact ⟨(topic, l), (SortedMap.mem_entries_iff t.topics topic l).2 hl, rfl⟩

theorem holds_empty : ({} : Transport κ).Holds [] :=
  { subscribers := fun _ => rfl
    named := by simp [mem_topicNames_iff]
    sorted := .nil
    valid := by simp [mem_topicNames_iff] }

/-- A transport holds one subscription more once it was made. -/
theorem Holds.subscribe (h : t.Holds made) (hu : t.subscribe topic k = .ok u) :
    u.Holds (made ++ [(topic, k)]) := by
  have hnames : ∀ other, other ∈ u.topicNames ↔ other = topic ∨
      other ∈ t.topicNames := by
    intro other
    unfold Transport.subscribe at hu
    split at hu
    · cases hu
      simp only [mem_topicNames_iff, SortedMap.get?_insert]
      split <;> simp_all
    · cases hu
  refine { subscribers := fun other => ?_, named := fun other => ?_,
           sorted := ?_, valid := ?_ }
  · rw [subscribers_subscribe hu, h.subscribers, h.subscribers]
    by_cases hother : other = topic
    · subst hother
      simp [boundTo]
    · have hno : ¬ topic = other := fun heq => hother heq.symm
      simp [boundTo, hother, hno]
  · rw [hnames, h.named]
    constructor
    · rintro (rfl | ⟨j, hj⟩)
      · exact ⟨k, by simp⟩
      · exact ⟨j, by simp [hj]⟩
    · rintro ⟨j, hj⟩
      rcases List.mem_append.1 hj with hj | hj
      · exact .inr ⟨j, hj⟩
      · exact .inl (congrArg Prod.fst (List.mem_singleton.1 hj))
  · exact List.pairwise_map.2 u.topics.sorted
  · intro other hmem
    rcases (hnames other).1 hmem with rfl | hmem
    · unfold Transport.subscribe at hu
      split at hu
      · assumption
      · cases hu
    · exact h.valid other hmem

end Transport

/-! ## Calls with the calls in them -/

/-- What is asked of a transport. -/
inductive TransportAsk
  | subscribe (topic : String) (k : Callback)
  | publish (name : String) (bytes : List UInt8)
  | subscribers (topic : String)
  | topics

/-- A call on a transport: what the transport held when it was made, what was
asked, the turns of the callbacks that it called, each with the calls made in
it, and the reply. -/
inductive TransportCall
  | mk (held : Transport Callback) (ask : TransportAsk)
      (turns : List (Callback × List TransportCall)) (reply : Option Reply)

/-- The subscription that is made by asking for one with success. -/
def TransportAsk.made : TransportAsk → Option Reply → List (String × Callback)
  | .subscribe topic k, some .done => [(topic, k)]
  | _, _ => []

/-- A callback that is called by a publication, with the name of the
publication. -/
def TransportAsk.handed : TransportAsk → Callback → List (String × Callback)
  | .publish name _, k => [(name, k)]
  | _, _ => []

section Gathering

variable {β : Type} (own : TransportAsk → Option Reply → List β)
  (turn : TransportAsk → Callback → List β)

mutual

/-- What a call gives, in the order of time: its own part, and for every turn in
it the part of the turn and what the calls in the turn give. -/
def TransportCall.gather : TransportCall → List β
  | ⟨_, ask, turns, reply⟩ => own ask reply ++ gatherTurns (turn ask) turns

/-- What turns give, one after the other. -/
def gatherTurns (each : Callback → List β) :
    List (Callback × List TransportCall) → List β
  | [] => []
  | (k, calls) :: rest => each k ++ gatherAll calls ++ gatherTurns each rest

/-- What calls give, one after the other. -/
def gatherAll : List TransportCall → List β
  | [] => []
  | c :: rest => c.gather ++ gatherAll rest

end

theorem gatherAll_append (l later : List TransportCall) :
    gatherAll own turn (l ++ later) = gatherAll own turn l ++
      gatherAll own turn later := by
  induction l with
  | nil => rfl
  | cons c l ih => rw [List.cons_append, gatherAll, gatherAll, ih,
      List.append_assoc]

/-- Turns that have no part of their own give what their calls give. -/
theorem gatherAll_flatMap (turns : List (Callback × List TransportCall)) :
    gatherAll own turn (turns.flatMap Prod.snd) =
      gatherTurns own turn (fun _ => []) turns := by
  induction turns with
  | nil => rfl
  | cons x turns ih =>
      rw [List.flatMap_cons, gatherAll_append, ih]
      rfl

end Gathering

/-- The subscriptions made in calls. -/
def madeIn (calls : List TransportCall) : List (String × Callback) :=
  gatherAll TransportAsk.made (fun _ _ => []) calls

/-- The subscriptions made in turns. -/
def madeInTurns (turns : List (Callback × List TransportCall)) :
    List (String × Callback) :=
  gatherTurns TransportAsk.made (fun _ _ => []) (fun _ => []) turns

/-- The callbacks that were called in calls, each with the name of the
publication. -/
def handedIn (calls : List TransportCall) : List (String × Callback) :=
  gatherAll (fun _ _ => []) TransportAsk.handed calls

/-! ## The law of a call -/

/-- What is owed to who asks, by the subscriptions made before: whom to call,
and what to reply. A publication under a name that cannot be repaired and a
subscription to an invalid topic are refused with the text as given. -/
def TransportAsk.Owes (earlier : List (String × Callback)) :
    TransportAsk → List Callback → Option Reply → Prop
  | .subscribe topic _, called, reply =>
      called = [] ∧ reply = some (if Topic.isValid topic then .done
        else .refused (.invalidTopic ⟨topic⟩))
  | .publish name _, called, reply =>
      match Topic.sanitize name with
      | some topic =>
          called = boundTo earlier topic ∧
          reply = some (.count (boundTo earlier topic).length)
      | none => called = [] ∧ reply = some (.refused (.invalidTopic ⟨name⟩))
  | .subscribers topic, called, reply =>
      called = [] ∧ reply = some (.count (boundTo earlier topic).length)
  | .topics, called, reply =>
      called = [] ∧ ∃ names, reply = some (.texts names) ∧
      names.Pairwise (· < ·) ∧ ∀ topic, topic ∈ names ↔
        ∃ k, (topic, k) ∈ earlier

mutual

/-- A call is lawful after some subscriptions if the transport holds those, the
call is owed what it got, and the calls in its turns are lawful, each after what
was subscribed before it. -/
def TransportCall.Lawful : TransportCall → List (String × Callback) → Prop
  | ⟨held, ask, turns, reply⟩, earlier =>
      held.Holds earlier ∧ ask.Owes earlier (turns.map Prod.fst) reply ∧
      TurnsLawful turns earlier

/-- Turns are lawful, one after the other. -/
def TurnsLawful : List (Callback × List TransportCall) →
    List (String × Callback) → Prop
  | [], _ => True
  | (_, calls) :: rest, earlier =>
      CallsLawful calls earlier ∧ TurnsLawful rest (earlier ++ madeIn calls)

/-- Calls are lawful, one after the other. -/
def CallsLawful : List TransportCall → List (String × Callback) → Prop
  | [], _ => True
  | c :: rest, earlier =>
      c.Lawful earlier ∧ CallsLawful rest (earlier ++ madeIn [c])

end

theorem madeIn_append (l later : List TransportCall) :
    madeIn (l ++ later) = madeIn l ++ madeIn later :=
  gatherAll_append _ _ l later

theorem madeIn_flatMap (turns : List (Callback × List TransportCall)) :
    madeIn (turns.flatMap Prod.snd) = madeInTurns turns :=
  gatherAll_flatMap _ _ turns

theorem handedIn_append (l later : List TransportCall) :
    handedIn (l ++ later) = handedIn l ++ handedIn later :=
  gatherAll_append _ _ l later

theorem callsLawful_append_iff {l later : List TransportCall}
    {earlier : List (String × Callback)} :
    CallsLawful (l ++ later) earlier ↔
      CallsLawful l earlier ∧ CallsLawful later (earlier ++ madeIn l) := by
  induction l generalizing earlier with
  | nil =>
      rw [show madeIn [] = [] from rfl, List.append_nil]
      exact (iff_of_eq (true_and _)).symm
  | cons c l ih =>
      have hmade : madeIn (c :: l) = madeIn [c] ++ madeIn l :=
        madeIn_append [c] l
      rw [List.cons_append, CallsLawful, CallsLawful, ih, hmade,
        List.append_assoc, and_assoc]

theorem callsLawful_flatMap_iff {turns : List (Callback × List TransportCall)}
    {earlier : List (String × Callback)} :
    CallsLawful (turns.flatMap Prod.snd) earlier ↔
      TurnsLawful turns earlier := by
  induction turns generalizing earlier with
  | nil => exact Iff.rfl
  | cons x turns ih =>
      obtain ⟨k, calls⟩ := x
      rw [List.flatMap_cons, callsLawful_append_iff, ih, TurnsLawful]

end Linkage
