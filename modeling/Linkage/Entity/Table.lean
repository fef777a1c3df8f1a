import Linkage.Entity
import Linkage.SortedMap

/-!
# Tables of components

A component table holds at most one value per slot, together with the
generation it was written for. A write for a later generation evicts the value
of an earlier one, a write for an earlier generation is refused, and a value
is found only under the exact handle it was written for. The handle of no
entity is never a key.

Generations start over after the largest, so "later" means that fewer than
half of all generations lie between.

## Main results

* `Table.get?_erase`: a removal is seen at its own handle only.
* `Table.get?_insert_self`: an accepted write is read back.
-/

namespace Linkage

/-- The value in a slot and the generation it belongs to. -/
structure Occupant (α : Type) where
  generation : Nat
  value : α
  deriving DecidableEq, Repr

/-- One value per slot, found under the handle it was written for. -/
structure Table (α : Type) where
  slots : SortedMap Nat (Occupant α) := .empty

namespace Table

variable {α : Type}

instance [DecidableEq α] : DecidableEq (Table α) := fun s t =>
  if h : s.slots = t.slots then .isTrue (by cases s; cases t; simp_all)
  else .isFalse fun e => h (e ▸ rfl)

/-- Whether generation `g` comes before generation `h`. -/
def isEarlier (g h : Nat) : Bool :=
  (g + Entity.generationBound - h) % Entity.generationBound ≥
    Entity.generationBound / 2

/-- The value of a handle. -/
def get? (t : Table α) (e : Entity) : Option α :=
  match t.slots.get? e.index with
  | some o => if o.generation = e.generation then some o.value else none
  | none => none

/-- Whether a handle has a value. -/
def contains (t : Table α) (e : Entity) : Bool := (t.get? e).isSome

/-- Whether a write under a handle is refused. -/
def refuses (t : Table α) (e : Entity) : Bool :=
  e.isNull ||
    match t.slots.get? e.index with
    | some o =>
        o.generation ≠ e.generation && isEarlier e.generation o.generation
    | none => false

/-- Write the value of a handle, unless the write is refused. -/
def insert (t : Table α) (e : Entity) (a : α) : Table α :=
  if t.refuses e then t else ⟨t.slots.insert e.index ⟨e.generation, a⟩⟩

/-- The value that a write under a handle replaces: the one of the same
handle. -/
def replacedBy (t : Table α) (e : Entity) : Option α :=
  if e.isNull then none else t.get? e

/-- Drop the value of a handle. -/
def erase (t : Table α) (e : Entity) : Table α :=
  if t.contains e then ⟨t.slots.erase e.index⟩ else t

/-- Handles and values in slot order. -/
def toList (t : Table α) : List (Entity × α) :=
  t.slots.entries.map fun s => (⟨s.1, s.2.generation⟩, s.2.value)

/-- Handles in slot order. -/
def keys (t : Table α) : List Entity := t.toList.map (·.1)

theorem get?_insert_self {t : Table α} {e : Entity} (a : α)
    (h : t.refuses e = false) :
    (t.insert e a).get? e = some a := by
  simp [insert, h, get?]

theorem get?_insert_of_index_ne (t : Table α) {e f : Entity} (a : α)
    (h : f.index ≠ e.index) :
    (t.insert e a).get? f = t.get? f := by
  unfold insert
  split
  · rfl
  · simp [get?, SortedMap.get?_insert_ne _ _ h]

/-- A removal is seen at its own handle only. -/
theorem get?_erase (t : Table α) (e f : Entity) :
    (t.erase e).get? f = if f = e then none else t.get? f := by
  unfold erase
  split
  · next hc =>
    by_cases hi : f.index = e.index
    · have hnone : (⟨t.slots.erase e.index⟩ : Table α).get? f = none := by
        simp [get?, SortedMap.get?_erase, hi]
      rw [hnone]
      split
      · rfl
      · next hfe =>
        have hg : f.generation ≠ e.generation := fun hg => hfe (by
          cases e; cases f; simp_all)
        unfold contains get? at hc
        unfold get?
        rw [hi]
        cases ho : t.slots.get? e.index with
        | none => rfl
        | some o =>
            have : o.generation = e.generation := by
              rw [ho] at hc
              by_cases hoe : o.generation = e.generation
              · exact hoe
              · simp [hoe] at hc
            simp [this, Ne.symm hg]
    · have hfe : f ≠ e := fun h => hi (h ▸ rfl)
      simp [get?, SortedMap.get?_erase, hi, hfe]
  · next hc =>
    split
    · next hfe => subst hfe; simpa [contains] using hc
    · rfl

end Table

end Linkage
