import Linkage.Proofs.Entity.Handles
import Linkage.Store.Components

/-!
# Dropping a handle from the component tables

The five tables are written one by one, under any handles, so the same slot may
belong to one generation in one table and to another in the next. Dropping an
entity therefore goes by its handle, not by its slot: a table that holds a value
for another life of the slot keeps it. Seen through its listing a table without
a handle is the table with one line left out, from which everything else
follows: other values and their order stay, dropping twice is dropping once, and
the order of two removals makes no difference.

## Main results

* `Table.ext_get?`: tables with equal lookups are equal.
* `Table.toList_erase`: what is listed after a handle is dropped.
* `Components.each_edited`: what every write and every removal keeps holds of
  all five tables.
* `Components.drops_edited`: what dropping a handle does, after any writes and
  removals.
-/

namespace Linkage

namespace Table

variable {α : Type}

/-! ## One table -/

theorem get?_eq_some_iff (t : Table α) (e : Entity) (a : α) :
    t.get? e = some a ↔ t.slots.get? e.index = some ⟨e.generation, a⟩ := by
  unfold get?
  cases t.slots.get? e.index with
  | none => simp
  | some o =>
      cases o
      simp

/-- Tables with equal lookups are equal. -/
theorem ext_get? {t u : Table α} (h : ∀ e, t.get? e = u.get? e) : t = u := by
  have hslots : t.slots = u.slots := by
    refine SortedMap.ext_get? fun i => Option.ext fun o => ?_
    exact (t.get?_eq_some_iff ⟨i, o.generation⟩ o.value).symm.trans
      (h _ ▸ u.get?_eq_some_iff ⟨i, o.generation⟩ o.value)
  cases t
  cases u
  cases hslots
  rfl

theorem erase_erase_self (t : Table α) (e : Entity) :
    (t.erase e).erase e = t.erase e := by
  refine ext_get? fun f => ?_
  rw [get?_erase, get?_erase]
  split <;> rfl

theorem erase_comm (t : Table α) (e f : Entity) :
    (t.erase e).erase f = (t.erase f).erase e := by
  refine ext_get? fun g => ?_
  simp only [get?_erase]
  split <;> split <;> rfl

/-- Handles are listed slot by slot. -/
theorem keys_increasing (t : Table α) :
    t.keys.Pairwise fun e f => e.index < f.index := by
  unfold keys toList
  rw [List.map_map, List.pairwise_map]
  exact t.slots.sorted

/-- No two values are held in one slot. -/
theorem eq_of_index_eq {t : Table α} {e f : Entity} (he : t.contains e = true)
    (hf : t.contains f = true) (hindex : e.index = f.index) : e = f := by
  obtain ⟨a, ha⟩ := Option.isSome_iff_exists.1 he
  obtain ⟨b, hb⟩ := Option.isSome_iff_exists.1 hf
  rw [get?_eq_some_iff] at ha hb
  rw [hindex, hb] at ha
  cases e
  cases f
  simp_all

/-- What is listed without a handle is what was listed, less its line. -/
theorem toList_erase (t : Table α) (e : Entity) :
    (t.erase e).toList = t.toList.filter (·.1 ≠ e) := by
  have hlisted : ∀ line ∈ t.toList,
      t.contains line.1 = true := fun line hline =>
    Option.isSome_iff_exists.2 ⟨line.2,
      (t.mem_toList_iff line.1 line.2).1 hline⟩
  unfold erase
  split
  · -- The table goes by slots, the listing by handles; a slot has one handle at
    -- a time.
    next he =>
    unfold toList SortedMap.erase at *
    rw [List.filter_map]
    refine congrArg _ (List.filter_congr fun entry hentry => ?_)
    have hentry := hlisted _ (List.mem_map_of_mem hentry)
    refine decide_eq_decide.2
      (not_congr ⟨fun hindex => ?_, fun heq => heq ▸ rfl⟩)
    exact eq_of_index_eq hentry he hindex
  · next he =>
    refine (List.filter_eq_self.2 fun line hline => ?_).symm
    exact decide_eq_true fun heq => he (heq ▸ hlisted line hline)

theorem keys_erase (t : Table α) (e : Entity) :
    (t.erase e).keys = t.keys.filter (· ≠ e) := by
  unfold keys
  rw [toList_erase, List.filter_map]
  rfl

/-- The second table is the first without a handle: its value is gone, and the
other lines are listed as before. -/
structure Without (t : Table α) (e : Entity) (u : Table α) : Prop where
  gone : u.contains e = false
  kept : ∀ f, f ≠ e → u.get? f = t.get? f
  listed : u.toList = t.toList.filter (·.1 ≠ e)
  ordered : u.keys = t.keys.filter (· ≠ e)

theorem without_erase (t : Table α) (e : Entity) : t.Without e (t.erase e) where
  gone := by simp [contains, get?_erase]
  kept f hf := by rw [get?_erase, if_neg hf]
  listed := t.toList_erase e
  ordered := t.keys_erase e

/-- The handles of a table are those of different slots, listed slot by slot,
and none of them is the handle of no entity. -/
structure Slotted (t : Table α) : Prop where
  single : ∀ e f, t.contains e = true → t.contains f = true →
    e.index = f.index → e = f
  increasing : t.keys.Pairwise fun e f => e.index < f.index
  named : ∀ e, t.contains e = true → e.isNull = false

/-- A write makes no handle known but its own, and never that of no entity. -/
theorem contains_of_insert {t : Table α} {e f : Entity} {a : α}
    (h : (t.insert e a).contains f = true) :
    t.contains f = true ∨ f = e ∧ e.isNull = false := by
  cases hrefuses : t.refuses e with
  | true =>
      rw [insert, if_pos hrefuses] at h
      exact .inl h
  | false =>
      by_cases hindex : f.index = e.index
      · right
        have hself : (t.insert e a).contains e = true := by
          simp [contains, get?_insert_self a hrefuses]
        refine ⟨eq_of_index_eq h hself hindex, ?_⟩
        cases hnull : e.isNull <;> simp [refuses, hnull] at hrefuses ⊢
      · left
        unfold contains at h ⊢
        rwa [get?_insert_of_index_ne t a hindex] at h

theorem slotted_of_named {t : Table α}
    (h : ∀ e, t.contains e = true → e.isNull = false) :
    t.Slotted :=
  { single := fun _ _ => eq_of_index_eq,
    increasing := t.keys_increasing, named := h }

theorem slotted_empty : ({} : Table α).Slotted :=
  slotted_of_named fun _ h => by cases h

theorem Slotted.insert {t : Table α} (h : t.Slotted) (e : Entity) (a : α) :
    (t.insert e a).Slotted := by
  refine slotted_of_named fun f hf => ?_
  rcases contains_of_insert hf with hf | ⟨rfl, hnull⟩
  · exact h.named f hf
  · exact hnull

theorem Slotted.erase {t : Table α} (h : t.Slotted) (e : Entity) :
    (t.erase e).Slotted := by
  refine slotted_of_named fun f hf => h.named f ?_
  unfold contains at hf ⊢
  rw [get?_erase] at hf
  split at hf
  · cases hf
  · exact hf

end Table

/-! ## All five tables -/

/-- A change of the component tables: a write of any value into one of them,
under any handle, or the removal of a handle. -/
inductive ComponentEdit
  | model (e : Entity)
  | link (e : Entity)
  | name (e : Entity) (name : String)
  | parent (e other : Entity)
  | joint (e : Entity) (joint : Joint)
  | remove (e : Entity)

namespace Components

/-- Make a change. -/
def edit (c : Components) : ComponentEdit → Components
  | .model e => { c with models := c.models.insert e () }
  | .link e => { c with links := c.links.insert e () }
  | .name e name => { c with names := c.names.insert e name }
  | .parent e other => { c with parents := c.parents.insert e other }
  | .joint e joint => { c with joints := c.joints.insert e joint }
  | .remove e => c.removeEntity e

/-- What changes made one after the other lead to. -/
def edited (edits : List ComponentEdit) : Components := edits.foldl edit {}

/-- A property of all five tables. -/
structure Each (P : {α : Type} → Table α → Prop) (c : Components) : Prop where
  models : P c.models
  links : P c.links
  names : P c.names
  parents : P c.parents
  joints : P c.joints

/-- A relation between the five tables before and after. -/
structure EachTo (R : {α : Type} → Table α → Table α → Prop)
    (c d : Components) : Prop where
  models : R c.models d.models
  links : R c.links d.links
  names : R c.names d.names
  parents : R c.parents d.parents
  joints : R c.joints d.joints

section Each

variable {P : {α : Type} → Table α → Prop}
  (hinsert : ∀ {α : Type} (t : Table α) (e : Entity) (a : α), P t →
    P (t.insert e a))
  (herase : ∀ {α : Type} (t : Table α) (e : Entity), P t → P (t.erase e))
include hinsert herase

theorem each_edit {c : Components} (h : c.Each P) (x : ComponentEdit) :
    (c.edit x).Each P := by
  cases x with
  | model e => exact { h with models := hinsert _ e () h.models }
  | link e => exact { h with links := hinsert _ e () h.links }
  | name e name => exact { h with names := hinsert _ e name h.names }
  | parent e other => exact { h with parents := hinsert _ e other h.parents }
  | joint e joint => exact { h with joints := hinsert _ e joint h.joints }
  | remove e =>
      exact { models := herase _ e h.models
              links := herase _ e h.links
              names := herase _ e h.names
              parents := herase _ e h.parents
              joints := herase _ e h.joints }

/-- What holds of empty tables and is kept by every write and every removal
holds of all five. -/
theorem each_edited (hempty : ∀ {α : Type}, P ({} : Table α))
    (edits : List ComponentEdit) :
    (edited edits).Each P := by
  have hrun : ∀ (edits : List ComponentEdit) (c : Components), c.Each P →
      (edits.foldl edit c).Each P := by
    intro edits
    induction edits with
    | nil => exact fun _ h => h
    | cons x rest ih => exact fun _ h => ih _ (each_edit hinsert herase h x)
  exact hrun edits {} ⟨hempty, hempty, hempty, hempty, hempty⟩

end Each

theorem eachTo_removeEntity {R : {α : Type} → Table α → Table α → Prop}
    {e : Entity} (h : ∀ {α : Type} (t : Table α), R t (t.erase e))
    (c : Components) :
    c.EachTo R (c.removeEntity e) :=
  ⟨h _, h _, h _, h _, h _⟩

theorem removeEntity_removeEntity_self (c : Components) (e : Entity) :
    (c.removeEntity e).removeEntity e = c.removeEntity e := by
  simp only [removeEntity, Table.erase_erase_self]

theorem removeEntity_comm (c : Components) (e f : Entity) :
    (c.removeEntity e).removeEntity f = (c.removeEntity f).removeEntity e := by
  simp only [removeEntity, Table.erase_comm _ e f]

/-- Whatever was written and removed before, under whatever handles: dropping a
handle takes its values out of all five tables and leaves every other line as it
is and where it is, dropping it again does nothing more, and of two handles
either may be dropped first. All the while no table holds two values in one
slot, or one for no entity. -/
theorem drops_edited (edits : List ComponentEdit) (e f : Entity) :
    (edited edits).EachTo (fun t u => t.Without e u)
      ((edited edits).removeEntity e) ∧
    ((edited edits).removeEntity e).removeEntity e =
      (edited edits).removeEntity e ∧
    ((edited edits).removeEntity e).removeEntity f =
      ((edited edits).removeEntity f).removeEntity e ∧
    (edited edits).Each Table.Slotted :=
  ⟨eachTo_removeEntity (fun t => t.without_erase e) _,
    removeEntity_removeEntity_self _ e, removeEntity_comm _ e f,
    each_edited (fun _ e a h => h.insert e a) (fun _ e h => h.erase e)
      Table.slotted_empty edits⟩

/-- The second life of a slot has a model and a name, the first one a parent;
the handle of no entity and an older write are refused. Dropping the first life
takes the parent only. -/
example :
    let c := edited [.parent ⟨1, 0⟩ ⟨2, 0⟩, .model ⟨1, 1⟩, .name ⟨1, 0⟩ "old",
      .name ⟨1, 1⟩ "new",
      .name ⟨1, 0⟩ "late", .link Entity.null, .link ⟨2, 0⟩,
      .parent ⟨2, 0⟩ ⟨1, 1⟩]
    let d := c.removeEntity ⟨1, 0⟩
    c.parents.keys = [⟨1, 0⟩, ⟨2, 0⟩] ∧ d.parents.keys = [⟨2, 0⟩] ∧
      d.models.keys = [⟨1, 1⟩] ∧
      d.names.get? ⟨1, 1⟩ = some "new" ∧ d.links.keys = [⟨2, 0⟩] := by
  decide

end Components

end Linkage
