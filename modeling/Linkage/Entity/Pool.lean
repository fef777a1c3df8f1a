import Linkage.Entity

/-!
# The pool of slots

A pool issues handles. A slot that is released is reused before a new one is
made, the most recently released first, and each life in a slot has the next
generation, so a handle kept from an earlier life is never taken for the
current one.

## Main results

* `Pool.mem_live_iff`: the live handles are those whose slot is occupied in
  their generation.
* `Pool.live_sorted`: live handles are listed by strictly increasing index.
-/

namespace Linkage

/-- A place for one entity at a time. -/
structure Slot where
  generation : Nat
  occupied : Bool
  deriving DecidableEq, Repr

/-- Slots, of which the first has index 1, and the indices that are free, most
recently released first. -/
structure Pool where
  slots : List Slot := []
  free : List Nat := []
  deriving DecidableEq, Repr

namespace Pool

/-- The slot of an index. -/
def slot? (p : Pool) (index : Nat) : Option Slot :=
  if index = 0 then none else p.slots[index - 1]?

/-- The pool with another slot at an index that has one. -/
def setSlot (p : Pool) (index : Nat) (s : Slot) : Pool :=
  { p with slots := p.slots.set (index - 1) s }

/-- Whether a handle names a live entity. -/
def isLive (p : Pool) (e : Entity) : Bool :=
  p.slot? e.index = some ⟨e.generation, true⟩

/-- Issue a handle for a new entity. -/
def create (p : Pool) : Entity × Pool :=
  match p.free with
  | [] => (⟨p.slots.length + 1, 0⟩, { p with slots := p.slots ++ [⟨0, true⟩] })
  | index :: rest =>
      let generation := ((p.slot? index).map Slot.generation).getD 0
      (⟨index, generation⟩,
        { p.setSlot index ⟨generation, true⟩ with free := rest })

/-- End the life of an entity; a handle that is not live is left alone. -/
def release (p : Pool) (e : Entity) : Pool :=
  if p.isLive e then
    { p.setSlot e.index ⟨(e.generation + 1) % Entity.generationBound,
        false⟩ with
      free := e.index :: p.free }
  else p

/-- The live handle in a slot at a position, if it is occupied. -/
def handleAt (entry : Slot × Nat) : Option Entity :=
  if entry.1.occupied then some ⟨entry.2 + 1, entry.1.generation⟩ else none

/-- Live handles in slot order. -/
def live (p : Pool) : List Entity := p.slots.zipIdx.filterMap handleAt

/-- How many entities are live. -/
def count (p : Pool) : Nat := p.slots.countP Slot.occupied

theorem mem_live_iff (p : Pool) (e : Entity) :
    e ∈ p.live ↔ p.isLive e = true := by
  obtain ⟨i, g⟩ := e
  simp only [live, List.mem_filterMap, handleAt, isLive, slot?,
    decide_eq_true_eq]
  constructor
  · rintro ⟨⟨⟨g', o⟩, k⟩, hmem, heq⟩
    split at heq
    · next ho =>
      cases heq
      rw [List.mem_zipIdx_iff_getElem?] at hmem
      simp_all
    · cases heq
  · intro h
    split at h
    · cases h
    · next hi =>
      refine ⟨(⟨g, true⟩, i - 1), List.mem_zipIdx_iff_getElem?.2 h, ?_⟩
      have : i - 1 + 1 = i := by omega
      simp [this]

theorem live_sorted (p : Pool) :
    p.live.Pairwise fun a b => a.index < b.index := by
  unfold live
  rw [List.pairwise_filterMap]
  suffices h : ∀ (l : List Slot) (k : Nat),
      (l.zipIdx k).Pairwise fun a b => a.2 < b.2 by
    refine (h p.slots 0).imp ?_
    intro a b hab e he f hf
    simp only [handleAt] at he hf
    split at he
    · split at hf
      · cases he; cases hf; simpa using hab
      · cases hf
    · cases he
  intro l
  induction l with
  | nil => simp
  | cons s l ih =>
      intro k
      rw [List.zipIdx_cons, List.pairwise_cons]
      refine ⟨fun x hx => ?_, ih (k + 1)⟩
      have := List.le_snd_of_mem_zipIdx hx
      omega

end Pool

end Linkage
