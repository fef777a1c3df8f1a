import Linkage.Proofs.Store.Soundness
import Linkage.World.Perform

/-!
# Calls on stores

Everything that changes a store is put together from four calls: creating an
entity, attaching a component, asking for a removal and applying the removals
asked for. The call of a scenario on a store, whatever it spawns or looks up, is
a list of these.

## Main results

* `Store.Sound.serve`, `Store.Sound.serveAll`: calls keep a store sound.
* `StoreAction.run?_cases`: all that a scenario's call can do to a store.
* `StoreAction.safe_of_run?`: only asking for its removal endangers an entity.
-/

namespace Linkage

/-- A component with its value. -/
inductive Attachment
  | model
  | link
  | name (name : String)
  | parent (parent : Entity)
  | joint (joint : Joint)

/-- A call that changes a store. -/
inductive StoreCall
  | create
  | attach (e : Entity) (a : Attachment)
  | requestRemoval (e : Entity)
  | applyRemovals

/-- What a call answers. -/
inductive StoreAnswer
  | issued (e : Entity)
  | done
  | removed (entities : List Entity)

/-- The record with a component in addition. -/
def Attachment.addTo (r : Record) : Attachment → Record
  | .model => { r with isModel := true }
  | .link => { r with isLink := true }
  | .name n => { r with name := some n }
  | .parent p => { r with parent := some p }
  | .joint j => { r with joint := some j }

namespace Store

/-- Attach a component to an entity. -/
def put (s : Store) (e : Entity) : Attachment → Store
  | .model => s.addModel e
  | .link => s.addLink e
  | .name name => s.setName e name
  | .parent parent => s.setParent e parent
  | .joint joint => s.setJoint e joint

/-- Answer a call. -/
def serve (s : Store) : StoreCall → StoreAnswer × Store
  | .create => (.issued s.create.1, s.create.2)
  | .attach e a => (.done, s.put e a)
  | .requestRemoval e => (.done, s.requestRemoval e)
  | .applyRemovals => (.removed s.applyRemovals.1, s.applyRemovals.2)

theorem Sound.put {s : Store} (h : s.Sound) (e : Entity) (a : Attachment) :
    (s.put e a).Sound := by
  cases a with
  | model => exact h.addModel e
  | link => exact h.addLink e
  | name name => exact h.setName e name
  | parent parent => exact h.setParent e parent
  | joint joint => exact h.setJoint e joint

theorem record?_put {s : Store} (h : s.Sound)
    (hs : s.WithinCapacity) (e : Entity) (a : Attachment) (f : Entity) :
    (s.put e a).record? f = if f = e then (s.record? f).map a.addTo
    else s.record? f := by
  cases a with
  | model => exact record?_addModel h e hs f
  | link => exact record?_addLink h e hs f
  | name name => exact record?_setName h e hs name f
  | parent parent => exact record?_setParent h e hs parent f
  | joint joint => exact record?_setJoint h e hs joint f

theorem pool_put (s : Store) (e : Entity) (a : Attachment) :
    (s.put e a).pool = s.pool := by
  cases a <;> exact pool_attach s e _

theorem has_put (s : Store) (e : Entity) (a : Attachment) (f : Entity) :
    (s.put e a).has f = s.has f :=
  congrArg (·.isLive f) (pool_put s e a)

theorem pending_put (s : Store) (e : Entity) (a : Attachment) :
    (s.put e a).pending = s.pending := by
  cases a <;> exact pending_attach s e _

theorem Sound.serve {s : Store} (h : s.Sound) (call : StoreCall) :
    (s.serve call).2.Sound := by
  cases call with
  | create => exact h.create
  | attach e a => exact h.put e a
  | requestRemoval e => exact h.requestRemoval e
  | applyRemovals => exact h.applyRemovals

/-- The store after calls made one after the other. -/
def serveAll (s : Store) (calls : List StoreCall) : Store :=
  calls.foldl (fun s call => (s.serve call).2) s

theorem serveAll_append (s : Store) (calls later : List StoreCall) :
    s.serveAll (calls ++ later) = (s.serveAll calls).serveAll later :=
  List.foldl_append

theorem Sound.serveAll {s : Store} (h : s.Sound) (calls : List StoreCall) :
    (s.serveAll calls).Sound := by
  induction calls generalizing s with
  | nil => exact h
  | cons call calls ih => exact ih (h.serve call)

/-- Slots are never given up. -/
theorem slots_length_le_serve (s : Store) (call : StoreCall) :
    s.pool.slots.length ≤ (s.serve call).2.pool.slots.length := by
  cases call with
  | create => exact Pool.slots_length_le_create s.pool
  | attach e a =>
      exact Nat.le_of_eq (congrArg (·.slots.length) (pool_put s e a)).symm
  | requestRemoval e =>
      exact Nat.le_of_eq
        (congrArg (·.slots.length) (pool_requestRemoval s e)).symm
  | applyRemovals => exact Nat.le_of_eq (slots_length_applyRemovals s).symm

theorem slots_length_le_serveAll (s : Store) (calls : List StoreCall) :
    s.pool.slots.length ≤ (s.serveAll calls).pool.slots.length := by
  induction calls generalizing s with
  | nil => exact Nat.le_refl _
  | cons call calls ih =>
      exact Nat.le_trans (slots_length_le_serve s call) (ih _)

end Store

/-! ## The calls of a scenario -/

/-- The call adds an entity or a component other than a joint. -/
def StoreCall.Plain : StoreCall → Prop
  | .create => True
  | .attach _ (.joint _) => False
  | .attach _ _ => True
  | _ => False

/-- One store comes from another by plain calls. -/
def Store.PlainlyFrom (s t : Store) : Prop :=
  ∃ calls : List StoreCall, t = s.serveAll calls ∧ ∀ call ∈ calls, call.Plain

namespace Store.PlainlyFrom

theorem refl (s : Store) : s.PlainlyFrom s := ⟨[], rfl, by simp⟩

theorem of_call (s : Store) (call : StoreCall) (h : call.Plain) :
    s.PlainlyFrom (s.serve call).2 := ⟨[call], rfl, by simpa using h⟩

theorem trans {s t u : Store} (h : s.PlainlyFrom t) (h' : t.PlainlyFrom u) :
    s.PlainlyFrom u := by
  obtain ⟨calls, rfl, hplain⟩ := h
  obtain ⟨later, rfl, hplain'⟩ := h'
  refine ⟨calls ++ later, (s.serveAll_append calls later).symm, ?_⟩
  intro call hcall
  rcases List.mem_append.1 hcall with hcall | hcall
  · exact hplain call hcall
  · exact hplain' call hcall

theorem spawnModel (s : Store) (name : String) :
    s.PlainlyFrom (s.spawnModel name).2 :=
  ⟨[.create, .attach s.create.1 .model, .attach s.create.1 (.name name)], rfl,
    by simp [StoreCall.Plain]⟩

theorem spawnLink (s : Store) (model : Entity) (name : String) :
    s.PlainlyFrom (s.spawnLink model name).2 :=
  ⟨[.create, .attach s.create.1 .link, .attach s.create.1 (.name name),
    .attach s.create.1 (.parent model)], rfl, by simp [StoreCall.Plain]⟩

theorem spawnLinks (model : Entity) (links : List String) (s : Store) :
    s.PlainlyFrom (s.spawnLinks model links).2 := by
  induction links generalizing s with
  | nil => exact refl s
  | cons name rest ih => exact (spawnLink s model name).trans (ih _)

theorem spawnModelWithLinks (s : Store) (name : String) (links : List String) :
    s.PlainlyFrom (s.spawnModelWithLinks name links).2.2 :=
  (spawnModel s name).trans (spawnLinks _ links _)

end Store.PlainlyFrom

namespace Names

/-- The labels of connections and of joints are the same. -/
def SameOthers (n n' : Names) : Prop :=
  n'.connections = n.connections ∧ n'.joints = n.joints

theorem sameOthers_labelEntity (n : Names) (label : Option String)
    (e : Entity) :
    n.SameOthers (n.labelEntity label e) := by
  cases label <;> exact ⟨rfl, rfl⟩

theorem sameOthers_labelSpawned (names : Names) (label : Option String)
    (model : Entity) (name : String) (links : List (String × Entity)) :
    names.SameOthers
      (StoreAction.labelSpawned names label model name links) := by
  have hfold : ∀ (links : List (String × Entity)) (n : Names), n.SameOthers
      (links.foldl (fun n l => n.labelEntity (some (name ++ "." ++ l.1)) l.2)
        n) := by
    intro links
    induction links with
    | nil => exact fun _ => ⟨rfl, rfl⟩
    | cons l links ih =>
        exact fun n => ih (n.labelEntity (some (name ++ "." ++ l.1)) l.2)
  obtain ⟨hconnections, hjoints⟩ := hfold links (names.labelEntity label model)
  obtain ⟨hconnections', hjoints'⟩ := sameOthers_labelEntity names label model
  exact ⟨hconnections.trans hconnections', hjoints.trans hjoints'⟩

end Names

/-- What a scenario's call leaves of a store: it asks for a removal, sets a
joint, applies the removals asked for, or is made of plain calls. Only labels of
entities change. -/
theorem StoreAction.run?_cases {op : StoreAction} {names names' : Names}
    {s s' : Store} {reply : Reply}
    (h : op.run? names s = some (reply, names', s')) :
    names.SameOthers names' ∧
      (s.PlainlyFrom s' ∨
        (∃ ref e, op = .remove ref ∧ names.entity? ref = some e ∧
          s' = s.requestRemoval e) ∨
        (∃ a b c kind e joint, op = .setJoint a b c kind ∧
          s' = s.setJoint e joint) ∨
        (op = .process ∧ s' = s.applyRemovals.2)) := by
  cases op with
  | create label =>
      cases h
      exact ⟨Names.sameOthers_labelEntity _ _ _,
        .inl (.of_call s .create trivial)⟩
  | spawnModel name label =>
      cases h
      exact ⟨Names.sameOthers_labelEntity _ _ _, .inl (.spawnModel s name)⟩
  | spawnLink model name label =>
      simp only [run?, Option.bind_eq_bind, Option.bind_eq_some_iff] at h
      obtain ⟨e, he, h⟩ := h
      cases h
      exact ⟨Names.sameOthers_labelEntity _ _ _, .inl (.spawnLink s e name)⟩
  | spawn name links label =>
      cases h
      exact ⟨Names.sameOthers_labelSpawned _ _ _ _ _,
        .inl (.spawnModelWithLinks s name links)⟩
  | addModel ref =>
      simp only [run?, Option.bind_eq_bind, Option.bind_eq_some_iff] at h
      obtain ⟨e, he, h⟩ := h
      cases h
      exact ⟨⟨rfl, rfl⟩, .inl (.of_call s (.attach e .model) trivial)⟩
  | addLink ref =>
      simp only [run?, Option.bind_eq_bind, Option.bind_eq_some_iff] at h
      obtain ⟨e, he, h⟩ := h
      cases h
      exact ⟨⟨rfl, rfl⟩, .inl (.of_call s (.attach e .link) trivial)⟩
  | setName ref name =>
      simp only [run?, Option.bind_eq_bind, Option.bind_eq_some_iff] at h
      obtain ⟨e, he, h⟩ := h
      cases h
      exact ⟨⟨rfl, rfl⟩, .inl (.of_call s (.attach e (.name name)) trivial)⟩
  | setParent ref parent =>
      simp only [run?, Option.bind_eq_bind, Option.bind_eq_some_iff] at h
      obtain ⟨e, he, p, hp, h⟩ := h
      cases h
      exact ⟨⟨rfl, rfl⟩, .inl (.of_call s (.attach e (.parent p)) trivial)⟩
  | setJoint a b c kind =>
      simp only [run?, Option.bind_eq_bind, Option.bind_eq_some_iff] at h
      obtain ⟨e, he, p, hp, q, hq, h⟩ := h
      cases h
      exact ⟨⟨rfl, rfl⟩, .inr (.inr (.inl ⟨a, b, c, kind, e, _, rfl, rfl⟩))⟩
  | remove ref =>
      simp only [run?, Option.bind_eq_bind, Option.bind_eq_some_iff] at h
      obtain ⟨e, he, h⟩ := h
      cases h
      exact ⟨⟨rfl, rfl⟩, .inr (.inl ⟨ref, e, rfl, he, rfl⟩)⟩
  | process =>
      cases h
      exact ⟨⟨rfl, rfl⟩, .inr (.inr (.inr ⟨rfl, rfl⟩))⟩
  | find q label =>
      simp only [run?, Option.bind_eq_bind, Option.bind_eq_some_iff] at h
      obtain ⟨query, hq, h⟩ := h
      cases h
      refine ⟨?_, .inl (.refl s)⟩
      cases s.first? query with
      | none => exact ⟨rfl, rfl⟩
      | some e => exact Names.sameOthers_labelEntity _ _ _
  | joints | pending | dump =>
      cases h
      exact ⟨⟨rfl, rfl⟩, .inl (.refl s)⟩
  | has ref | isModel ref | isLink ref | nameOf ref | parentOf ref
  | jointOf ref | raw ref
  | query ref | isPending ref | view ref link =>
      simp only [run?, Option.bind_eq_bind, Option.bind_eq_some_iff] at h
      obtain ⟨e, he, h⟩ := h
      cases h
      exact ⟨⟨rfl, rfl⟩, .inl (.refl s)⟩

namespace StoreAction

/-- Whether the call sets a joint. -/
def setsJoint : StoreAction → Bool
  | .setJoint .. => true
  | _ => false

/-- The entity whose removal the call asks for. -/
def removes? : StoreAction → Option EntityRef
  | .remove ref => some ref
  | _ => none

/-- The call neither sets a joint nor asks for a removal. -/
def Mild (op : StoreAction) : Prop := op.setsJoint = false ∧ op.removes? = none

instance (op : StoreAction) : Decidable op.Mild :=
  inferInstanceAs (Decidable (_ ∧ _))

end StoreAction

/-! ## Entities that nobody asks to remove -/

namespace Store

/-- The entity is live and nobody has asked for its removal. -/
def Safe (s : Store) (e : Entity) : Prop := s.has e = true ∧ e ∉ s.pending

variable {s : Store} {e : Entity}

theorem Safe.serve (h : s.Safe e) (hs : s.Sound) {call : StoreCall}
    (hcall : call.Plain) :
    (s.serve call).2.Safe e := by
  cases call with
  | create => exact ⟨(has_create hs e).2 (.inr h.1), h.2⟩
  | attach f a => exact ⟨(has_put s f a e).trans h.1,
      (pending_put s f a).symm ▸ h.2⟩
  | requestRemoval f => exact absurd hcall id
  | applyRemovals => exact absurd hcall id

theorem Safe.plain (h : s.Safe e) (hs : s.Sound) {t : Store}
    (ht : s.PlainlyFrom t) :
    t.Safe e := by
  obtain ⟨calls, rfl, hplain⟩ := ht
  induction calls generalizing s with
  | nil => exact h
  | cons call calls ih =>
      exact ih (h.serve hs (hplain call (by simp))) (hs.serve call)
        fun c hc => hplain c (by simp [hc])

theorem Safe.applyRemovals (h : s.Safe e) : s.applyRemovals.2.Safe e :=
  ⟨(has_applyRemovals s e).2 ⟨h.2, h.1⟩, by simp⟩

theorem Safe.requestRemoval (h : s.Safe e) {f : Entity} (hne : f ≠ e) :
    (s.requestRemoval f).Safe e := by
  refine ⟨(has_requestRemoval s f e).trans h.1, fun hmem => ?_⟩
  rcases mem_pending_requestRemoval.1 hmem with hmem | ⟨heq, -⟩
  · exact h.2 hmem
  · exact hne heq.symm

end Store

/-- A scenario's call that does not ask for the removal of an entity leaves the
entity safe. -/
theorem StoreAction.safe_of_run? {op : StoreAction} {names names' : Names}
    {s s' : Store} {reply : Reply} {e : Entity}
    (h : op.run? names s = some (reply, names', s')) (hs : s.Sound)
    (hsafe : s.Safe e) (hop : ∀ ref ∈ op.removes?, names.entity? ref ≠ some e) :
    s'.Safe e := by
  rcases (StoreAction.run?_cases h).2 with hplain | ⟨ref, f, rfl, hf, rfl⟩ |
    ⟨a, b, c, kind, f, joint, -, rfl⟩ | ⟨-, rfl⟩
  · exact hsafe.plain hs hplain
  · refine hsafe.requestRemoval fun heq => ?_
    exact hop ref rfl (heq ▸ hf)
  · exact ⟨(Store.has_attach s f e _).trans hsafe.1,
      (Store.pending_attach s f _).symm ▸ hsafe.2⟩
  · exact hsafe.applyRemovals

end Linkage
