import Linkage.Proofs.Entity.Handles
import Linkage.Store.Query

/-!
# Sound stores

A store keeps six slot-indexed structures, and an operation touches one or two
of them. They stay in step because of one invariant: every component, and every
removal asked for, belongs to a live entity. Under it a store is the table of
the records of its live entities, and each operation has one equation on
records.

Attachments need a handle that tables accept as a key, so their equations ask
for a pool within capacity.

## Main results

* `Store.Sound.create`, `Store.Sound.attach`, `Store.Sound.requestRemoval`,
  `Store.Sound.applyRemovals`: every operation keeps a store sound.
* `Store.record?_create`, `Store.record?_attach`, `Store.record?_applyRemovals`:
  what it does to the records.
-/

namespace Linkage

/-- All that is known of an entity. -/
@[ext] structure Record where
  isModel : Bool := false
  isLink : Bool := false
  name : Option String := none
  parent : Option Entity := none
  joint : Option Joint := none
  deriving DecidableEq

namespace Components

/-- Every component belongs to a handle with a property. -/
structure KeysIn (c : Components) (P : Entity → Prop) : Prop where
  models : c.models.KeysIn P
  links : c.links.KeysIn P
  names : c.names.KeysIn P
  parents : c.parents.KeysIn P
  joints : c.joints.KeysIn P

theorem keysIn_empty (P : Entity → Prop) : KeysIn {} P :=
  { models := Table.keysIn_empty P
    links := Table.keysIn_empty P
    names := Table.keysIn_empty P
    parents := Table.keysIn_empty P
    joints := Table.keysIn_empty P }

theorem KeysIn.imp {c : Components} {P Q : Entity → Prop} (h : c.KeysIn P)
    (hPQ : ∀ e, P e → Q e) : c.KeysIn Q :=
  { models := h.models.imp hPQ
    links := h.links.imp hPQ
    names := h.names.imp hPQ
    parents := h.parents.imp hPQ
    joints := h.joints.imp hPQ }

theorem KeysIn.removeEntity {c : Components} {P : Entity → Prop}
    (h : c.KeysIn P) (e : Entity) :
    (c.removeEntity e).KeysIn fun f => f ≠ e ∧ P f :=
  { models := h.models.erase e
    links := h.links.erase e
    names := h.names.erase e
    parents := h.parents.erase e
    joints := h.joints.erase e }

/-- The components of a handle, gathered from the tables. -/
def view (c : Components) (e : Entity) : Record :=
  { isModel := c.models.contains e
    isLink := c.links.contains e
    name := c.names.get? e
    parent := c.parents.get? e
    joint := c.joints.get? e }

theorem view_removeEntity {c : Components} {e f : Entity} (h : f ≠ e) :
    (c.removeEntity e).view f = c.view f := by
  simp [view, Table.contains, removeEntity_models, removeEntity_links,
    removeEntity_names, removeEntity_parents, removeEntity_joints, h]

/-- A handle that no component belongs to has an empty record. -/
theorem view_of_not_key {c : Components} {P : Entity → Prop}
    (h : c.KeysIn P) {e : Entity} (he : ¬ P e) : c.view e = {} := by
  have absent : ∀ {α : Type} {t : Table α}, t.KeysIn P → t.get? e = none := by
    intro α t ht
    cases hget : t.get? e with
    | none => rfl
    | some a => exact absurd (ht e a hget) he
  simp [view, Table.contains, absent h.models, absent h.links, absent h.names,
    absent h.parents, absent h.joints]

end Components

namespace Store

/-- What is known of an entity, if it is live. -/
def record? (s : Store) (e : Entity) : Option Record :=
  if s.has e then some (s.components.view e) else none

/-- Components and removals asked for belong to live entities. -/
structure Sound (s : Store) : Prop where
  pool : s.pool.WellFormed
  components : s.components.KeysIn (s.has · = true)
  pending_live : ∀ e ∈ s.pending, s.has e = true
  pending_nodup : s.pending.Nodup

/-- The store has made no slot of the index that names no entity. -/
abbrev WithinCapacity (s : Store) : Prop := s.pool.WithinCapacity

theorem sound_empty : Sound {} :=
  { pool := { free_nodup := .nil, vacant := by simp }
    components := Components.keysIn_empty _
    pending_live := by simp
    pending_nodup := .nil }

/-! ## Reading records -/

theorem record?_isSome (s : Store) (e : Entity) :
    (s.record? e).isSome = s.has e := by
  unfold record?
  cases s.has e <;> rfl

theorem record?_eq_some_iff (s : Store) (e : Entity) (r : Record) :
    s.record? e = some r ↔ s.has e = true ∧ s.components.view e = r := by
  unfold record?
  cases s.has e <;> simp

/-- In a sound store the tables say what the record says, live entity or not. -/
theorem Sound.view_eq {s : Store} (h : s.Sound) (e : Entity) :
    s.components.view e = (s.record? e).getD {} := by
  unfold record?
  by_cases he : s.has e = true
  · simp [he]
  · simp [he, Components.view_of_not_key h.components he]

theorem Sound.joint?_eq {s : Store} (h : s.Sound) (e : Entity) :
    s.joint? e = (s.record? e).bind Record.joint := by
  have hview := congrArg Record.joint (h.view_eq e)
  show (s.components.view e).joint = _
  rw [hview]
  cases s.record? e <;> rfl

theorem Sound.has_of_joint? {s : Store} (h : s.Sound) {e : Entity} {j : Joint}
    (hj : s.joint? e = some j) : s.has e = true :=
  h.components.joints e j hj

/-! ## Creation -/

theorem not_has_create {s : Store} (h : s.Sound) : s.has s.create.1 = false :=
  Pool.not_isLive_create h.pool

theorem has_create {s : Store} (h : s.Sound) (e : Entity) :
    s.create.2.has e = true ↔ e = s.create.1 ∨ s.has e = true :=
  Pool.isLive_create h.pool e

theorem has_created {s : Store} (h : s.Sound) :
    s.create.2.has s.create.1 = true :=
  (has_create h _).2 (.inl rfl)

theorem Sound.create {s : Store} (h : s.Sound) : s.create.2.Sound :=
  { pool := h.pool.create
    components := h.components.imp fun e he => (has_create h e).2 (.inr he)
    pending_live := fun e he => (has_create h e).2 (.inr (h.pending_live e he))
    pending_nodup := h.pending_nodup }

theorem not_mem_pending_create {s : Store} (h : s.Sound) :
    s.create.1 ∉ s.pending := by
  intro hmem
  have hlive := h.pending_live _ hmem
  rw [not_has_create h] at hlive
  cases hlive

/-- A new entity has no components, and nothing else changes. -/
theorem record?_create {s : Store} (h : s.Sound) (e : Entity) :
    s.create.2.record? e = if e = s.create.1 then some {} else s.record? e := by
  by_cases he : e = s.create.1
  · subst he
    have hempty : s.components.view s.create.1 = {} :=
      Components.view_of_not_key h.components (by simp [not_has_create h])
    rw [if_pos rfl, record?_eq_some_iff]
    exact ⟨has_created h, hempty⟩
  · have hhas : s.create.2.has e = s.has e := by
      rw [Bool.eq_iff_iff, has_create h e]
      simp [he]
    simp only [record?, hhas, he, if_false]
    rfl

/-! ## Attachment -/

@[simp] theorem has_attach (s : Store) (e f : Entity)
    (change : Components → Components) :
    (s.attach e change).has f = s.has f := by
  unfold attach
  split <;> rfl

@[simp] theorem pending_attach (s : Store) (e : Entity)
    (change : Components → Components) :
    (s.attach e change).pending = s.pending := by
  unfold attach
  split <;> rfl

@[simp] theorem pool_attach (s : Store) (e : Entity)
    (change : Components → Components) :
    (s.attach e change).pool = s.pool := by
  unfold attach
  split <;> rfl

theorem Sound.attach {s : Store} (h : s.Sound) {e : Entity}
    {change : Components → Components}
    (hkeys : s.has e = true → (change s.components).KeysIn (s.has · = true)) :
    (s.attach e change).Sound := by
  by_cases he : s.has e = true
  · unfold Store.attach
    rw [if_pos he]
    exact { pool := h.pool, components := hkeys he,
            pending_live := h.pending_live,
            pending_nodup := h.pending_nodup }
  · rw [attach_of_not_live (by simpa using he)]
    exact h

/-- An attachment to a live entity changes its record as the tables say; to any
other handle it changes nothing. -/
theorem record?_attach {s : Store} {e : Entity}
    {change : Components → Components} {update : Record → Record}
    (hview : s.has e = true → ∀ f, (change s.components).view f =
      if f = e then update (s.components.view f) else
        s.components.view f) (f : Entity) :
    (s.attach e change).record? f = if f = e then (s.record? f).map update
    else s.record? f := by
  by_cases he : s.has e = true
  · have hcomponents : (s.attach e change).components =
        change s.components := by
      simp [attach, he]
    simp only [record?, has_attach, hcomponents, hview he f]
    by_cases hf : f = e
    · subst hf
      simp [he]
    · simp [hf]
  · have hnone : s.record? e = none := by simp [record?, he]
    rw [attach_of_not_live (by simpa using he)]
    by_cases hf : f = e
    · subst hf
      simp [hnone]
    · simp [hf]

/-- A component written for a live entity is seen at that entity only. -/
theorem get?_insert_of_has {s : Store} (hs : s.WithinCapacity)
    {α : Type} {t : Table α} (ht : t.KeysIn (s.has · = true)) {e : Entity}
    (he : s.has e = true) (a : α) (f : Entity) :
    (t.insert e a).get? f = if f = e then some a else t.get? f :=
  Table.get?_insert ht he (Pool.not_isNull_of_isLive hs he) a f

section Attachments

variable {s : Store} (h : s.Sound) (e : Entity)
include h

theorem Sound.addModel : (s.addModel e).Sound :=
  h.attach fun he =>
    { h.components with models := h.components.models.insert he () }

theorem Sound.addLink : (s.addLink e).Sound :=
  h.attach fun he =>
    { h.components with links := h.components.links.insert he () }

theorem Sound.setName (name : String) : (s.setName e name).Sound :=
  h.attach fun he =>
    { h.components with names := h.components.names.insert he name }

theorem Sound.setParent (parent : Entity) : (s.setParent e parent).Sound :=
  h.attach fun he =>
    { h.components with parents := h.components.parents.insert he parent }

theorem Sound.setJoint (joint : Joint) : (s.setJoint e joint).Sound :=
  h.attach fun he =>
    { h.components with joints := h.components.joints.insert he joint }

variable (hs : s.WithinCapacity)
include hs

theorem record?_addModel (f : Entity) :
    (s.addModel e).record? f =
      if f = e then (s.record? f).map fun r => { r with isModel := true } else
          s.record? f := by
  refine record?_attach ?_ f
  intro he g
  have hget := get?_insert_of_has hs h.components.models he () g
  simp only [Components.view, Table.contains, hget]
  by_cases hg : g = e <;> simp [hg]

theorem record?_addLink (f : Entity) :
    (s.addLink e).record? f =
      if f = e then (s.record? f).map fun r => { r with isLink := true } else
          s.record? f := by
  refine record?_attach ?_ f
  intro he g
  have hget := get?_insert_of_has hs h.components.links he () g
  simp only [Components.view, Table.contains, hget]
  by_cases hg : g = e <;> simp [hg]

theorem record?_setName (name : String) (f : Entity) :
    (s.setName e name).record? f =
      if f = e then (s.record? f).map fun r => { r with name := some name }
      else s.record? f := by
  refine record?_attach ?_ f
  intro he g
  have hget := get?_insert_of_has hs h.components.names he name g
  simp only [Components.view, hget]
  by_cases hg : g = e <;> simp [hg]

theorem record?_setParent (parent : Entity) (f : Entity) :
    (s.setParent e parent).record? f =
      if f = e then (s.record? f).map fun r => { r with parent := some parent }
      else s.record? f := by
  refine record?_attach ?_ f
  intro he g
  have hget := get?_insert_of_has hs h.components.parents he parent g
  simp only [Components.view, hget]
  by_cases hg : g = e <;> simp [hg]

theorem record?_setJoint (joint : Joint) (f : Entity) :
    (s.setJoint e joint).record? f =
      if f = e then (s.record? f).map fun r => { r with joint := some joint }
      else s.record? f := by
  refine record?_attach ?_ f
  intro he g
  have hget := get?_insert_of_has hs h.components.joints he joint g
  simp only [Components.view, hget]
  by_cases hg : g = e <;> simp [hg]

end Attachments

/-! ## Removal -/

@[simp] theorem has_requestRemoval (s : Store) (e f : Entity) :
    (s.requestRemoval e).has f = s.has f := by
  unfold requestRemoval
  split <;> rfl

@[simp] theorem record?_requestRemoval (s : Store) (e f : Entity) :
    (s.requestRemoval e).record? f = s.record? f := by
  unfold requestRemoval
  split <;> rfl

theorem pending_requestRemoval (s : Store) (e : Entity) :
    (s.requestRemoval e).pending =
      if s.has e = true ∧ e ∉ s.pending then s.pending ++ [e] else
          s.pending := by
  unfold requestRemoval
  by_cases h : s.has e = true ∧ e ∉ s.pending
  · simp [h]
  · rw [if_neg h, if_neg (by simpa using h)]

theorem mem_pending_requestRemoval {s : Store} {e f : Entity} :
    f ∈ (s.requestRemoval e).pending ↔ f ∈ s.pending ∨
    (f = e ∧ s.has e = true) := by
  rw [pending_requestRemoval]
  by_cases hlive : s.has e = true
  · by_cases hp : e ∈ s.pending
    · rw [if_neg (by simp [hp])]
      constructor
      · exact .inl
      · rintro (hf | ⟨rfl, -⟩)
        · exact hf
        · exact hp
    · rw [if_pos ⟨hlive, hp⟩, List.mem_append, List.mem_singleton]
      simp [hlive]
  · rw [if_neg (by simp [hlive])]
    simp [hlive]

theorem Sound.requestRemoval {s : Store} (h : s.Sound) (e : Entity) :
    (s.requestRemoval e).Sound := by
  unfold Store.requestRemoval
  split
  · next he =>
    simp only [Bool.and_eq_true, Bool.not_eq_true', List.contains_eq_mem,
      decide_eq_false_iff_not] at he
    refine { pool := h.pool, components := h.components, pending_live := ?_,
             pending_nodup := ?_ }
    · intro f hf
      rcases List.mem_append.1 hf with hf | hf
      · exact h.pending_live f hf
      · rw [List.mem_singleton.1 hf]
        exact he.1
    · refine List.nodup_append.2 ⟨h.pending_nodup, by simp, ?_⟩
      intro a ha b hb heq
      rw [List.mem_singleton.1 hb] at heq
      exact he.2 (heq ▸ ha)
  · exact h

theorem has_drop (s : Store) (e f : Entity) :
    (s.drop e).has f = true ↔ f ≠ e ∧ s.has f = true :=
  Pool.isLive_release s.pool e f

theorem record?_drop (s : Store) (e f : Entity) :
    (s.drop e).record? f = if f = e then none else s.record? f := by
  by_cases hf : f = e
  · subst hf
    have hdead : (s.drop f).has f = false := by
      rw [← Bool.not_eq_true, has_drop]
      simp
    simp [record?, hdead]
  · have hhas : (s.drop e).has f = s.has f := by
      rw [Bool.eq_iff_iff, has_drop]
      simp [hf]
    have hview : (s.drop e).components.view f = s.components.view f :=
      Components.view_removeEntity hf
    simp [record?, hhas, hview, hf]

theorem has_foldl_drop (l : List Entity) (s : Store) (f : Entity) :
    (l.foldl drop s).has f = true ↔ f ∉ l ∧ s.has f = true := by
  induction l generalizing s with
  | nil => simp
  | cons e l ih =>
      rw [List.foldl_cons, ih, has_drop, List.mem_cons, not_or]
      constructor
      · rintro ⟨hl, he, hs⟩
        exact ⟨⟨he, hl⟩, hs⟩
      · rintro ⟨⟨he, hl⟩, hs⟩
        exact ⟨hl, he, hs⟩

theorem record?_foldl_drop (l : List Entity) (s : Store) (f : Entity) :
    (l.foldl drop s).record? f = if f ∈ l then none else s.record? f := by
  induction l generalizing s with
  | nil => simp
  | cons e l ih =>
      rw [List.foldl_cons, ih, record?_drop]
      by_cases hl : f ∈ l
      · simp [hl]
      · by_cases hf : f = e <;> simp [hl, hf]

theorem keysIn_foldl_drop (l : List Entity) {s : Store}
    (h : s.components.KeysIn (s.has · = true)) :
    (l.foldl drop s).components.KeysIn ((l.foldl drop s).has · = true) := by
  induction l generalizing s with
  | nil => exact h
  | cons e l ih =>
      refine ih ?_
      exact (h.removeEntity e).imp fun f hf => (has_drop s e f).2 hf

theorem pool_foldl_drop (l : List Entity) {s : Store} (h : s.pool.WellFormed) :
    (l.foldl drop s).pool.WellFormed := by
  induction l generalizing s with
  | nil => exact h
  | cons e l ih => exact ih (h.release e)

/-- Applying removals takes exactly the entities asked for away. -/
theorem has_applyRemovals (s : Store) (e : Entity) :
    s.applyRemovals.2.has e = true ↔ e ∉ s.pending ∧ s.has e = true :=
  has_foldl_drop s.pending s e

theorem record?_applyRemovals (s : Store) (e : Entity) :
    s.applyRemovals.2.record? e = if e ∈ s.pending then none else s.record? e :=
  record?_foldl_drop s.pending s e

theorem Sound.applyRemovals {s : Store} (h : s.Sound) :
    s.applyRemovals.2.Sound :=
  { pool := pool_foldl_drop s.pending h.pool
    components := keysIn_foldl_drop s.pending h.components
    pending_live := by simp
    pending_nodup := by simp }

/-! ## Counting -/

theorem size_eq_length_live (s : Store) : s.size = s.pool.live.length :=
  (Pool.live_length s.pool).symm

theorem mem_live_iff_has (s : Store) (e : Entity) :
    e ∈ s.pool.live ↔ s.has e = true :=
  Pool.mem_live_iff s.pool e

/-! ## Slots -/

theorem slots_length_foldl_drop (l : List Entity) (s : Store) :
    (l.foldl drop s).pool.slots.length = s.pool.slots.length := by
  induction l generalizing s with
  | nil => rfl
  | cons e l ih =>
      rw [List.foldl_cons, ih]
      exact Pool.slots_length_release s.pool e

theorem slots_length_applyRemovals (s : Store) :
    s.applyRemovals.2.pool.slots.length = s.pool.slots.length :=
  slots_length_foldl_drop s.pending s

@[simp] theorem pool_requestRemoval (s : Store) (e : Entity) :
    (s.requestRemoval e).pool = s.pool := by
  unfold requestRemoval
  split <;> rfl

end Store

end Linkage
