import Linkage.Entity.Pool
import Linkage.Entity.Table

/-!
# Which handles are live, and which values tables hold

Two facts carry everything that is proved about stores. A pool issues a handle
that is not live, and afterwards exactly that handle is live in addition; a
release takes exactly its own handle away. And a table whose values all belong
to live handles never refuses or evicts: two live handles of one index are the
same handle, so whatever occupies the slot of a live handle was written for that
very handle.

## Main results

* `Pool.isLive_create`, `Pool.isLive_release`: what a pool does to the live
  handles.
* `Pool.WellFormed.create`, `Pool.WellFormed.release`: free indices stay vacant
  and distinct.
* `Table.get?_insert`: a write under a live handle is seen there and nowhere
  else.
* `Table.mem_toList_iff`, `Table.toList_keys_nodup`: the listing of a table is
  its lookup.
-/

namespace Linkage

namespace Pool

/-- Free indices are distinct and their slots vacant. -/
structure WellFormed (p : Pool) : Prop where
  free_nodup : p.free.Nodup
  vacant : ∀ i ∈ p.free, ∃ g, p.slot? i = some ⟨g, false⟩

/-- The pool has made no slot of the index that names no entity. -/
def WithinCapacity (p : Pool) : Prop := p.slots.length < Entity.indexBound - 1

/-! ## Slots -/

theorem slot?_setSlot (p : Pool) {i : Nat} (s : Slot)
    (hi : (p.slot? i).isSome) (j : Nat) :
    (p.setSlot i s).slot? j = if j = i then some s else p.slot? j := by
  have hpos : i ≠ 0 := by
    rintro rfl
    simp [slot?] at hi
  have hlt : i - 1 < p.slots.length := by
    simpa [slot?, hpos] using hi
  by_cases hj : j = i
  · subst hj
    simp [slot?, setSlot, hpos, hlt]
  · by_cases hj0 : j = 0
    · simp [slot?, hj0, Ne.symm hpos]
    · have hne : i - 1 ≠ j - 1 := by omega
      simp [slot?, setSlot, hj, hj0, List.getElem?_set_ne hne]

theorem slot?_push (p : Pool) (s : Slot) (free : List Nat) (j : Nat) :
    Pool.slot? { slots := p.slots ++ [s], free } j =
      if j = p.slots.length + 1 then some s else p.slot? j := by
  by_cases hj0 : j = 0
  · simp [slot?, hj0]
  · by_cases hj : j = p.slots.length + 1
    · simp [slot?, hj]
    · have hne : j - 1 ≠ p.slots.length := by omega
      rw [if_neg hj]
      simp only [slot?, hj0, if_false]
      rcases Nat.lt_or_ge (j - 1) p.slots.length with hlt | hge
      · rw [List.getElem?_append_left hlt]
      · rw [List.getElem?_eq_none (by simp; omega), List.getElem?_eq_none hge]

theorem slot?_top (p : Pool) : p.slot? (p.slots.length + 1) = none := by
  simp [slot?]

theorem isLive_iff (p : Pool) (e : Entity) :
    p.isLive e = true ↔ p.slot? e.index = some ⟨e.generation, true⟩ := by
  simp [isLive]

/-- Two live handles of one index are the same handle. -/
theorem eq_of_isLive {p : Pool} {e f : Entity} (he : p.isLive e = true)
    (hf : p.isLive f = true) (hi : e.index = f.index) : e = f := by
  rw [isLive_iff] at he hf
  obtain ⟨i, g⟩ := e
  obtain ⟨j, h⟩ := f
  simp only at he hf hi
  subst hi
  rw [he] at hf
  simpa using hf

theorem index_le_of_isLive {p : Pool} {e : Entity} (h : p.isLive e = true) :
    e.index ≤ p.slots.length := by
  rw [isLive_iff] at h
  simp only [slot?] at h
  split at h
  · cases h
  · have := (List.getElem?_eq_some_iff.1 h).1
    omega

theorem not_isNull_of_isLive {p : Pool} {e : Entity} (hp : p.WithinCapacity)
    (h : p.isLive e = true) : e.isNull = false := by
  have hle := index_le_of_isLive h
  simp only [WithinCapacity] at hp
  simp only [Entity.isNull, decide_eq_false_iff_not]
  omega

/-! ## Creation -/

theorem create_of_nil {p : Pool} (h : p.free = []) :
    p.create = (⟨p.slots.length + 1, 0⟩,
      { p with slots := p.slots ++ [⟨0, true⟩] }) := by
  simp [create, h]

theorem create_of_cons {p : Pool} {i g : Nat} {rest : List Nat}
    (h : p.free = i :: rest) (hs : p.slot? i = some ⟨g, false⟩) :
    p.create = (⟨i, g⟩, { p.setSlot i ⟨g, true⟩ with free := rest }) := by
  simp [create, h, hs]

/-- A handle that is issued was not live. -/
theorem not_isLive_create {p : Pool} (hp : p.WellFormed) :
    p.isLive p.create.1 = false := by
  cases hfree : p.free with
  | nil =>
      rw [create_of_nil hfree]
      simp [isLive, slot?_top]
  | cons i rest =>
      obtain ⟨g, hg⟩ := hp.vacant i (by simp [hfree])
      rw [create_of_cons hfree hg]
      simp [isLive, hg]

/-- After a creation the issued handle is live in addition. -/
theorem isLive_create {p : Pool} (hp : p.WellFormed) (e : Entity) :
    p.create.2.isLive e = true ↔ e = p.create.1 ∨ p.isLive e = true := by
  obtain ⟨j, h⟩ := e
  cases hfree : p.free with
  | nil =>
      rw [create_of_nil hfree]
      simp only [isLive_iff, slot?_push, Entity.mk.injEq]
      by_cases hj : j = p.slots.length + 1
      · subst hj
        simp [slot?_top, eq_comm]
      · simp [hj]
  | cons i rest =>
      obtain ⟨g, hg⟩ := hp.vacant i (by simp [hfree])
      rw [create_of_cons hfree hg]
      have hslot := slot?_setSlot p ⟨g, true⟩ (i := i) (by simp [hg]) j
      have hfields : Pool.slot? { p.setSlot i ⟨g, true⟩ with free := rest } j =
          (p.setSlot i ⟨g, true⟩).slot? j := rfl
      simp only [isLive_iff, hfields, hslot, Entity.mk.injEq]
      by_cases hj : j = i
      · subst hj
        simp [hg, eq_comm]
      · simp [hj]

theorem WellFormed.create {p : Pool} (hp : p.WellFormed) :
    p.create.2.WellFormed := by
  cases hfree : p.free with
  | nil =>
      rw [create_of_nil hfree]
      exact { free_nodup := by simp [hfree], vacant := by simp [hfree] }
  | cons i rest =>
      obtain ⟨g, hg⟩ := hp.vacant i (by simp [hfree])
      have hnodup : (i :: rest).Nodup := hfree ▸ hp.free_nodup
      rw [create_of_cons hfree hg]
      refine { free_nodup := (List.nodup_cons.1 hnodup).2, vacant := ?_ }
      intro j hj
      have hji : j ≠ i := by
        rintro rfl
        exact (List.nodup_cons.1 hnodup).1 hj
      obtain ⟨h, hh⟩ := hp.vacant j (by simp [hfree, show j ∈ rest from hj])
      refine ⟨h, ?_⟩
      show (p.setSlot i ⟨g, true⟩).slot? j = _
      rw [slot?_setSlot p _ (by simp [hg]), if_neg hji, hh]

theorem slots_length_le_create (p : Pool) :
    p.slots.length ≤ p.create.2.slots.length := by
  unfold create
  split <;> simp [setSlot]

theorem slots_length_create_le (p : Pool) :
    p.create.2.slots.length ≤ p.slots.length + 1 := by
  unfold create
  split <;> simp [setSlot]

/-! ## Release -/

/-- A release takes its own handle away. -/
theorem isLive_release (p : Pool) (e f : Entity) :
    (p.release e).isLive f = true ↔ f ≠ e ∧ p.isLive f = true := by
  unfold release
  split
  · next he =>
    have hslot :=
      slot?_setSlot p ⟨(e.generation + 1) % Entity.generationBound, false⟩
      (i := e.index) (by simp [(isLive_iff p e).1 he]) f.index
    have hfields : Pool.slot? { p.setSlot e.index
        ⟨(e.generation + 1) % Entity.generationBound, false⟩ with free :=
      e.index :: p.free }
        f.index = (p.setSlot e.index
          ⟨(e.generation + 1) % Entity.generationBound,
            false⟩).slot? f.index := rfl
    rw [isLive_iff, hfields, hslot]
    by_cases hi : f.index = e.index
    · simp only [hi, if_true, Option.some.injEq, Slot.mk.injEq,
        Bool.false_eq_true, and_false, false_iff, not_and]
      intro hne hf
      exact hne (eq_of_isLive hf he hi)
    · have hne : f ≠ e := fun h => hi (h ▸ rfl)
      simp [hi, hne, isLive_iff]
  · next he =>
    constructor
    · intro hf
      exact ⟨fun h => he (h ▸ hf), hf⟩
    · exact fun h => h.2

theorem WellFormed.release {p : Pool} (hp : p.WellFormed) (e : Entity) :
    (p.release e).WellFormed := by
  unfold Pool.release
  split
  · next he =>
    have hoccupied := (isLive_iff p e).1 he
    have hnot : e.index ∉ p.free := by
      intro hmem
      obtain ⟨g, hg⟩ := hp.vacant _ hmem
      rw [hg] at hoccupied
      simp at hoccupied
    refine { free_nodup := List.nodup_cons.2 ⟨hnot, hp.free_nodup⟩,
             vacant := ?_ }
    intro j hj
    show ∃ g, (p.setSlot e.index _).slot? j = some ⟨g, false⟩
    rw [slot?_setSlot p _ (by simp [hoccupied])]
    by_cases hje : j = e.index
    · simp [hje]
    · obtain ⟨g, hg⟩ := hp.vacant j (by
        rcases List.mem_cons.1 hj with h | h
        · exact absurd h hje
        · exact h)
      exact ⟨g, by simp [hje, hg]⟩
  · exact hp

theorem slots_length_release (p : Pool) (e : Entity) :
    (p.release e).slots.length = p.slots.length := by
  unfold release
  split <;> simp [setSlot]

/-! ## Counting -/

theorem live_nodup (p : Pool) : p.live.Nodup :=
  p.live_sorted.imp fun h => fun heq => Nat.lt_irrefl _ (heq ▸ h)

theorem live_length (p : Pool) : p.live.length = p.count := by
  have key : ∀ (l : List Slot) (k : Nat),
      ((l.zipIdx k).filterMap handleAt).length = l.countP Slot.occupied := by
    intro l
    induction l with
    | nil => simp
    | cons s l ih =>
        intro k
        rw [List.zipIdx_cons, List.filterMap_cons, List.countP_cons]
        cases hs : s.occupied <;> simp [handleAt, hs, ih]
  exact key p.slots 0

end Pool

namespace Table

variable {α : Type}

/-- Every value belongs to a handle with a property. -/
def KeysIn (t : Table α) (P : Entity → Prop) : Prop :=
  ∀ e a, t.get? e = some a → P e

theorem keysIn_empty (P : Entity → Prop) : KeysIn ({} : Table α) P := by
  intro e a h
  cases h

theorem KeysIn.imp {t : Table α} {P Q : Entity → Prop} (h : t.KeysIn P)
    (hPQ : ∀ e, P e → Q e) :
    t.KeysIn Q := fun e a ha => hPQ e (h e a ha)

theorem get?_mk (t : Table α) {i : Nat} {o : Occupant α}
    (h : t.slots.get? i = some o) :
    t.get? ⟨i, o.generation⟩ = some o.value := by
  simp [get?, h]

/-- Under a live handle no write is refused when every value belongs to a live
handle. -/
theorem refuses_eq_false {t : Table α} {p : Pool}
    (ht : t.KeysIn (p.isLive · = true)) {e : Entity} (he : p.isLive e = true)
    (hnull : e.isNull = false) : t.refuses e = false := by
  unfold refuses
  cases ho : t.slots.get? e.index with
  | none => simp [hnull]
  | some o =>
      have hlive := ht _ _ (get?_mk t ho)
      have heq : e = ⟨e.index, o.generation⟩ := Pool.eq_of_isLive he hlive rfl
      have hg : e.generation = o.generation := congrArg Entity.generation heq
      simp [hnull, hg]

/-- A write under a live handle is seen at that handle only. -/
theorem get?_insert {t : Table α} {p : Pool}
    (ht : t.KeysIn (p.isLive · = true)) {e : Entity} (he : p.isLive e = true)
    (hnull : e.isNull = false) (a : α) (f : Entity) :
    (t.insert e a).get? f = if f = e then some a else t.get? f := by
  have hrefuses := refuses_eq_false ht he hnull
  by_cases hf : f = e
  · subst hf
    rw [get?_insert_self a hrefuses, if_pos rfl]
  · rw [if_neg hf]
    by_cases hi : f.index = e.index
    · -- The slot may hold a value, but not one of `f`, which is not live.
      have hold : t.get? f = none := by
        cases hget : t.get? f with
        | none => rfl
        | some b => exact absurd (Pool.eq_of_isLive (ht f b hget) he hi) hf
      have hg : e.generation ≠ f.generation := by
        intro hg
        apply hf
        cases e; cases f; simp_all
      rw [hold]
      simp [insert, hrefuses, get?, hi, hg]
    · exact get?_insert_of_index_ne t a hi

theorem KeysIn.insert {t : Table α} {p : Pool}
    (ht : t.KeysIn (p.isLive · = true)) {e : Entity} (he : p.isLive e = true)
    (a : α) : (t.insert e a).KeysIn (p.isLive · = true) := by
  intro f b hf
  by_cases hi : f.index = e.index
  · unfold Table.insert at hf
    split at hf
    · exact ht f b hf
    · simp only [get?, hi, SortedMap.get?_insert_self] at hf
      split at hf
      · next hg =>
        have : f = e := by
          cases e; cases f; simp_all
        exact this ▸ he
      · cases hf
  · exact ht f b (get?_insert_of_index_ne t a hi ▸ hf)

theorem KeysIn.erase {t : Table α} {P : Entity → Prop} (ht : t.KeysIn P)
    (e : Entity) :
    (t.erase e).KeysIn fun f => f ≠ e ∧ P f := by
  intro f a hf
  rw [get?_erase] at hf
  split at hf
  · cases hf
  · next hne => exact ⟨hne, ht f a hf⟩

/-! ## Listing -/

theorem mem_toList_iff (t : Table α) (e : Entity) (a : α) :
    (e, a) ∈ t.toList ↔ t.get? e = some a := by
  have hmem := fun o => SortedMap.mem_entries_iff t.slots e.index o
  obtain ⟨i, g⟩ := e
  simp only [toList, List.mem_map, Prod.mk.injEq, Entity.mk.injEq,
    get?] at hmem ⊢
  constructor
  · rintro ⟨⟨j, o⟩, hj, ⟨rfl, rfl⟩, rfl⟩
    simp [(hmem o).1 hj]
  · intro h
    split at h
    · next o ho =>
      split at h
      · next hg => exact ⟨(i, o), (hmem o).2 ho, ⟨rfl, hg⟩, by simpa using h⟩
      · cases h
    · cases h

theorem toList_keys_nodup (t : Table α) : (t.toList.map Prod.fst).Nodup := by
  have hsorted := t.slots.sorted
  rw [toList, List.map_map, List.Nodup, List.pairwise_map]
  refine hsorted.imp ?_
  intro a b h heq
  have hi : a.1 = b.1 := congrArg Entity.index heq
  exact Nat.lt_irrefl _ (hi ▸ h)

end Table

end Linkage
