import Linkage.Proofs.Store.Issued
import Linkage.Bus.Signal

/-!
# Models and links that are added to a store

Spawning a scene adds models and links to a store one by one. Each is a new
entity that is given all its components at once, so the additions can be read
off the records afterwards, and whatever was in the store before is still there.

## Main results

* `Store.record?_added`: what an addition does to the records.
* `Store.Adds.record?_of_mem`, `Store.Adds.record?_of_not_mem`: what many
  additions do.
* `Store.Adds.nodup`, `Store.Adds.not_issued`: the entities that are added are
  all new.
-/

namespace Linkage

/-- A model or a link that was added to a store. A link has a parent. -/
structure Addition where
  entity : Entity
  name : String
  parent : Option Entity

namespace Addition

/-- All that is known of the entity when it was added. -/
def record (a : Addition) : Record :=
  { isModel := a.parent.isNone, isLink := a.parent.isSome, name := some a.name,
    parent := a.parent }

/-- The announcement of the addition. -/
def signal (a : Addition) : Signal :=
  .addToStore a.entity.raw a.name ((a.parent.map Entity.raw).getD 0)

end Addition

namespace Store

/-- The store with a model in addition, or with a link if there is a parent. -/
def added (s : Store) (name : String) : Option Entity → Store
  | none => (s.spawnModel name).2
  | some parent => (s.spawnLink parent name).2

/-- One store comes from another by additions. -/
inductive Adds : Store → List Addition → Store → Prop
  | nil (s : Store) : Adds s [] s
  | snoc {s t : Store} {as : List Addition} (before : Adds s as t)
      (name : String) (parent : Option Entity) :
      Adds s (as ++ [⟨t.create.1, name, parent⟩]) (t.added name parent)

/-- The store after additions. -/
def addedAll (s : Store) (as : List Addition) : Store :=
  as.foldl (fun t a => t.added a.name a.parent) s

theorem Adds.eq_addedAll {s t : Store} {as : List Addition} (h : s.Adds as t) :
    t = s.addedAll as := by
  induction h with
  | nil => rfl
  | snoc before name parent ih =>
      rw [addedAll, List.foldl_concat]
      exact congrArg (·.added name parent) ih

/-! ## One addition -/

section Addition

variable {s : Store} (name : String) (parent : Option Entity)

theorem pool_added (s : Store) (name : String) (parent : Option Entity) :
    (s.added name parent).pool = s.create.2.pool := by
  cases parent <;> simp [added, spawnModel, spawnLink, addModel, addLink,
    setName, setParent]

theorem Sound.added (h : s.Sound) : (s.added name parent).Sound := by
  cases parent with
  | none => exact (h.create.addModel _).setName _ name
  | some p => exact ((h.create.addLink _).setName _ name).setParent _ p

/-- An addition is a new entity with its components, and nothing else
changes. -/
theorem record?_added (h : s.Sound) (hs : (s.added name parent).WithinCapacity)
    (e : Entity) :
    (s.added name parent).record? e =
      if e = s.create.1 then some (Addition.record ⟨s.create.1, name, parent⟩)
      else s.record? e := by
  have hcapacity : s.create.2.WithinCapacity := by
    rwa [WithinCapacity, pool_added] at hs
  have hmodel : (s.create.2.addModel s.create.1).WithinCapacity := by
    rwa [WithinCapacity, addModel, pool_attach]
  have hlink : (s.create.2.addLink s.create.1).WithinCapacity := by
    rwa [WithinCapacity, addLink, pool_attach]
  cases parent with
  | none =>
      show ((s.create.2.addModel s.create.1).setName s.create.1 name).record?
        e = _
      rw [record?_setName (h.create.addModel _) _ hmodel,
        record?_addModel h.create _ hcapacity, record?_create h]
      split
      · rfl
      · rfl
  | some p =>
      have hname :
          ((s.create.2.addLink s.create.1).setName s.create.1
            name).WithinCapacity := by
        rwa [WithinCapacity, setName, pool_attach]
      show (((s.create.2.addLink s.create.1).setName s.create.1 name).setParent
        s.create.1 p).record? e = _
      rw [record?_setParent ((h.create.addLink _).setName _ name) _ hname,
        record?_setName (h.create.addLink _) _ hlink,
        record?_addLink h.create _ hcapacity,
        record?_create h]
      split
      · rfl
      · rfl

end Addition

/-! ## Many additions -/

namespace Adds

variable {s t : Store} {as : List Addition} {e : Entity}

theorem sound (h : Adds s as t) (hs : s.Sound) : t.Sound := by
  induction h with
  | nil => exact hs
  | snoc _ name parent ih => exact ih.added name parent

/-- The handles that were issued afterwards are those issued before and the
additions. -/
theorem issued_iff (h : Adds s as t) (hs : s.Sound) :
    t.pool.Issued e ↔ e ∈ as.map Addition.entity ∨ s.pool.Issued e := by
  induction h with
  | nil => simp
  | snoc before name parent ih =>
      have hpool := (before.sound hs).pool
      rw [pool_added]
      refine (Pool.issued_create_iff hpool).trans ?_
      rw [ih, List.map_append, List.mem_append, ← or_assoc]
      refine or_congr ?_ Iff.rfl
      rw [or_comm]
      exact or_congr Iff.rfl List.mem_singleton.symm

/-- No addition had been issued before. -/
theorem not_issued (h : Adds s as t) (hs : s.Sound)
    (he : e ∈ as.map Addition.entity) :
    ¬ s.pool.Issued e := by
  induction h with
  | nil => cases he
  | snoc before name parent ih =>
      rw [List.map_append, List.mem_append] at he
      rcases he with he | he
      · exact ih he
      · have hnew := Pool.not_issued_create (before.sound hs).pool
        rw [List.mem_singleton.1 he]
        intro hold
        exact hnew ((before.issued_iff hs).2 (.inr hold))

/-- No two additions are the same entity. -/
theorem nodup (h : Adds s as t) (hs : s.Sound) :
    (as.map Addition.entity).Nodup := by
  induction h with
  | nil => exact .nil
  | snoc before name parent ih =>
      have hnew := Pool.not_issued_create (before.sound hs).pool
      rw [List.map_append]
      refine List.nodup_append.2 ⟨ih, List.nodup_singleton _, ?_⟩
      intro a ha b hb heq
      rw [heq, List.mem_singleton.1 hb] at ha
      exact hnew ((before.issued_iff hs).2 (.inl ha))

theorem record?_of_not_mem (h : Adds s as t) (hs : s.Sound)
    (ht : t.WithinCapacity) (he : e ∉ as.map Addition.entity) :
    t.record? e = s.record? e := by
  induction h with
  | nil => rfl
  | @snoc t as before name parent ih =>
      have hslots := Pool.slots_length_le_create t.pool
      have hcapacity : t.WithinCapacity := by
        rw [WithinCapacity, pool_added] at ht
        exact Nat.lt_of_le_of_lt hslots ht
      rw [List.map_append, List.mem_append, not_or] at he
      have hne : e ≠ t.create.1 := fun heq => he.2 (by simp [heq])
      rw [record?_added name parent (before.sound hs) ht, if_neg hne]
      exact ih hcapacity he.1

theorem record?_of_mem (h : Adds s as t) (hs : s.Sound) (ht : t.WithinCapacity)
    {a : Addition} (ha : a ∈ as) : t.record? a.entity = some a.record := by
  induction h with
  | nil => cases ha
  | @snoc t as before name parent ih =>
      have hsound := before.sound hs
      have hslots := Pool.slots_length_le_create t.pool
      have hcapacity : t.WithinCapacity := by
        rw [WithinCapacity, pool_added] at ht
        exact Nat.lt_of_le_of_lt hslots ht
      rw [record?_added name parent hsound ht]
      rcases List.mem_append.1 ha with ha | ha
      · have hlive : t.has a.entity = true := by
          rw [← record?_isSome, ih hcapacity ha]
          rfl
        have hne : a.entity ≠ t.create.1 := by
          intro heq
          rw [heq, not_has_create hsound] at hlive
          cases hlive
        rw [if_neg hne]
        exact ih hcapacity ha
      · rw [List.mem_singleton.1 ha, if_pos rfl]

/-- Afterwards an entity is one that was added, or it is as it was. -/
theorem record?_cases (h : Adds s as t) (hs : s.Sound) (ht : t.WithinCapacity)
    (e : Entity) :
    (∃ a ∈ as, a.entity = e ∧ t.record? e = some a.record) ∨
      (e ∉ as.map Addition.entity ∧ t.record? e = s.record? e) := by
  by_cases he : e ∈ as.map Addition.entity
  · obtain ⟨a, ha, rfl⟩ := List.mem_map.1 he
    exact .inl ⟨a, ha, rfl, h.record?_of_mem hs ht ha⟩
  · exact .inr ⟨he, h.record?_of_not_mem hs ht he⟩

end Adds

end Store

end Linkage
