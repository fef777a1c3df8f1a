import Linkage.Proofs.Store.Registry

/-!
# Handles that were issued

The slots of a pool remember which handles were issued: the lives that a slot
has had are those of the generations below its own, and its own if it is
occupied. Each life takes a creation, so before `2 ^ 31` creations no generation
starts over, a handle that is issued is a new one, and no two handles that were
issued have the same number.

## Main results

* `Pool.issued_create_iff`, `Pool.issued_release_iff`: what a creation adds, and
  that a release forgets nothing.
* `Pool.issues_nodup`: what many creations issue is new and all different.
* `Store.issued_serveAll_iff`: the slots know exactly the handles that calls
  were answered.
* `Store.issuedBy_nodup`: no handle is issued twice.
-/

namespace Linkage

namespace Pool

/-- The handle is that of a life that its slot has had or has. -/
def Issued (p : Pool) (e : Entity) : Prop :=
  ∃ slot, p.slot? e.index = some slot ∧
    (e.generation < slot.generation ∨ e.generation = slot.generation ∧
      slot.occupied = true)

/-- No more than a number of slots, and none that has had more lives than
that. -/
structure Counts (p : Pool) (n : Nat) : Prop where
  slots : p.slots.length ≤ n
  lives : ∀ {i : Nat} {slot : Slot}, p.slot? i = some slot →
    slot.generation + slot.occupied.toNat ≤ n

variable {p : Pool} {n : Nat} {e f : Entity}

theorem issued_iff_of_slot? {slot : Slot} (h : p.slot? e.index = some slot) :
    p.Issued e ↔
      e.generation < slot.generation ∨ e.generation = slot.generation ∧
      slot.occupied = true := by
  simp [Issued, h]

theorem not_issued_of_slot? (h : p.slot? e.index = none) : ¬ p.Issued e := by
  simp [Issued, h]

theorem Issued.of_isLive (h : p.isLive e = true) : p.Issued e :=
  (issued_iff_of_slot? ((isLive_iff p e).1 h)).2 (.inr ⟨rfl, rfl⟩)

theorem index_le_of_slot? {i : Nat} {slot : Slot} (h : p.slot? i = some slot) :
    i ≤ p.slots.length := by
  unfold slot? at h
  split at h
  · cases h
  · have hlt := (List.getElem?_eq_some_iff.1 h).1
    omega

/-- Issued handles are within bounds as long as generations do not start
over. -/
theorem Issued.withinBounds (h : p.Issued e) (hn : p.Counts n)
    (hbound : n < 2 ^ 31) :
    e.WithinBounds := by
  obtain ⟨slot, hslot, hlife⟩ := h
  have hindex := index_le_of_slot? hslot
  have hslots := hn.slots
  have hlives := hn.lives hslot
  have hgeneration : e.generation < n := by
    rcases hlife with hlt | ⟨heq, ho⟩
    · omega
    · rw [ho, Bool.toNat_true] at hlives
      omega
  constructor
  · show e.index < 2 ^ 32
    omega
  · show e.generation < 2 ^ 31
    omega

/-! ## Creation -/

/-- What a creation does to the slots: it makes one more, or it begins the next
life of a vacant one. -/
theorem create_cases (hp : p.WellFormed) :
    (p.slot? p.create.1.index = none ∧ p.create.1.generation = 0 ∨
      p.slot? p.create.1.index = some ⟨p.create.1.generation, false⟩) ∧
      ∀ i, p.create.2.slot? i =
        if i = p.create.1.index then some ⟨p.create.1.generation, true⟩ else
            p.slot? i := by
  cases hfree : p.free with
  | nil =>
      rw [create_of_nil hfree]
      exact ⟨.inl ⟨slot?_top p, rfl⟩, slot?_push p ⟨0, true⟩ p.free⟩
  | cons i rest =>
      obtain ⟨g, hg⟩ := hp.vacant i (by simp [hfree])
      rw [create_of_cons hfree hg]
      exact ⟨.inr hg, slot?_setSlot p ⟨g, true⟩ (by simp [hg])⟩

/-- A handle that is issued is a new one. -/
theorem not_issued_create (hp : p.WellFormed) : ¬ p.Issued p.create.1 := by
  rcases (create_cases hp).1 with ⟨hnone, -⟩ | hvacant
  · exact not_issued_of_slot? hnone
  · rw [issued_iff_of_slot? hvacant]
    simp

theorem issued_create_iff (hp : p.WellFormed) :
    p.create.2.Issued e ↔ e = p.create.1 ∨ p.Issued e := by
  obtain ⟨hbefore, hafter⟩ := create_cases hp
  by_cases hi : e.index = p.create.1.index
  · have hown : e = p.create.1 ↔ e.generation = p.create.1.generation := by
      constructor
      · exact fun h => congrArg Entity.generation h
      · intro hg
        cases e
        cases hc : p.create.1
        simp_all
    have hnow : p.create.2.slot? e.index =
        some ⟨p.create.1.generation, true⟩ := by
      rw [hafter, if_pos hi]
    rw [issued_iff_of_slot? hnow, hown]
    rcases hbefore with ⟨hnone, hzero⟩ | hvacant
    · have hnot := not_issued_of_slot? (hi ▸ hnone : p.slot? e.index = none)
      simp [hnot, hzero]
    · rw [issued_iff_of_slot? (hi ▸ hvacant : p.slot? e.index = some _)]
      simp [or_comm]
  · have hne : e ≠ p.create.1 := fun h => hi (h ▸ rfl)
    have hsame : p.create.2.slot? e.index = p.slot? e.index := by
      rw [hafter, if_neg hi]
    unfold Issued
    rw [hsame]
    simp [hne]

theorem Counts.create (hp : p.WellFormed) (h : p.Counts n) :
    p.create.2.Counts (n + 1) := by
  obtain ⟨hbefore, hafter⟩ := create_cases hp
  refine { slots := ?_, lives := ?_ }
  · have hlength := slots_length_create_le p
    have hslots := h.slots
    omega
  · intro i slot hslot
    rw [hafter] at hslot
    split at hslot
    · cases hslot
      rcases hbefore with ⟨-, hzero⟩ | hvacant
      · simp [hzero]
      · have hlives := h.lives hvacant
        simp only [Bool.toNat_false, Nat.add_zero] at hlives
        simpa using hlives
    · have hlives := h.lives hslot
      omega

/-! ## Many creations -/

/-- The pool after a number of creations. -/
def creates (p : Pool) : Nat → Pool
  | 0 => p
  | n + 1 => p.create.2.creates n

/-- The handles that a number of creations issue, the first of them first. -/
def issues (p : Pool) : Nat → List Entity
  | 0 => []
  | n + 1 => p.create.1 :: p.create.2.issues n

theorem creates_add (p : Pool) (n m : Nat) :
    p.creates (n + m) = (p.creates n).creates m := by
  induction n generalizing p with
  | zero => rw [Nat.zero_add, creates]
  | succ n ih =>
      rw [Nat.succ_add, creates, creates]
      exact ih p.create.2

theorem issues_add (p : Pool) (n m : Nat) :
    p.issues (n + m) = p.issues n ++ (p.creates n).issues m := by
  induction n generalizing p with
  | zero => rw [Nat.zero_add, creates, issues, List.nil_append]
  | succ n ih =>
      rw [Nat.succ_add, creates, issues, issues, List.cons_append]
      exact congrArg (p.create.1 :: ·) (ih p.create.2)

/-- What is not among the next handles is not among some of them either. -/
theorem not_mem_issues_creates {k m : Nat} (h : e ∉ p.issues m)
    (hk : k + n ≤ m) :
    e ∉ (p.creates k).issues n := by
  obtain ⟨later, rfl⟩ := Nat.exists_eq_add_of_le hk
  rw [issues_add, issues_add, List.mem_append, List.mem_append,
    not_or, not_or] at h
  exact h.1.2

theorem WellFormed.creates (hp : p.WellFormed) (n : Nat) :
    (p.creates n).WellFormed := by
  induction n generalizing p with
  | zero => exact hp
  | succ n ih => exact ih hp.create

theorem issued_creates_iff (hp : p.WellFormed) :
    (p.creates n).Issued e ↔ e ∈ p.issues n ∨ p.Issued e := by
  induction n generalizing p with
  | zero => simp [creates, issues]
  | succ n ih =>
      rw [creates, issues, ih hp.create, issued_create_iff hp, List.mem_cons]
      exact or_left_comm.trans or_assoc.symm

/-- The handles that are issued one after the other are new ones, and all
different. -/
theorem issues_nodup (hp : p.WellFormed) (n : Nat) :
    (p.issues n).Nodup ∧ ∀ e ∈ p.issues n, ¬ p.Issued e := by
  induction n generalizing p with
  | zero => exact ⟨.nil, by simp [issues]⟩
  | succ n ih =>
      obtain ⟨hnodup, hnew⟩ := ih hp.create
      have hknown : p.create.2.Issued p.create.1 :=
        (issued_create_iff hp).2 (.inl rfl)
      refine ⟨List.nodup_cons.2 ⟨fun hmem => hnew _ hmem hknown, hnodup⟩,
        fun e he hissued => ?_⟩
      rcases List.mem_cons.1 he with rfl | he
      · exact not_issued_create hp hissued
      · exact hnew e he ((issued_create_iff hp).2 (.inr hissued))

theorem Counts.creates (hp : p.WellFormed) {m : Nat}
    (h : p.Counts m) (n : Nat) :
    (p.creates n).Counts (m + n) := by
  induction n generalizing p m with
  | zero => exact h
  | succ n ih =>
      rw [← Nat.add_assoc, Nat.add_right_comm]
      exact ih hp.create (h.create hp)

/-! ## Release -/

/-- What a release does to the slots: it ends the life of an occupied one. -/
theorem slot?_release (hp : p.Counts n) (hbound : n < 2 ^ 31) (i : Nat) :
    (p.release e).slot? i =
      if p.isLive e = true ∧ i = e.index then
          some ⟨e.generation + 1, false⟩ else p.slot? i := by
  unfold release
  split
  · next he =>
    have hoccupied := (isLive_iff p e).1 he
    have hlives := hp.lives hoccupied
    simp only [Bool.toNat_true] at hlives
    have hwrap : (e.generation + 1) % Entity.generationBound =
        e.generation + 1 :=
      Nat.mod_eq_of_lt (Nat.lt_of_le_of_lt hlives hbound)
    rw [hwrap]
    have hthere : (p.slot? e.index).isSome := by rw [hoccupied]; rfl
    refine (slot?_setSlot p ⟨e.generation + 1, false⟩ hthere i).trans ?_
    simp only [he, true_and]
  · next he => simp [he]

theorem issued_release_iff (hp : p.Counts n) (hbound : n < 2 ^ 31) :
    (p.release e).Issued f ↔ p.Issued f := by
  have hslot := slot?_release (e := e) hp hbound f.index
  by_cases h : p.isLive e = true ∧ f.index = e.index
  · have hoccupied : p.slot? f.index = some ⟨e.generation, true⟩ :=
      h.2 ▸ (isLive_iff p e).1 h.1
    rw [if_pos h] at hslot
    rw [issued_iff_of_slot? hslot, issued_iff_of_slot? hoccupied]
    simp only [Bool.false_eq_true, and_false, or_false, and_true]
    omega
  · rw [if_neg h] at hslot
    unfold Issued
    rw [hslot]

theorem Counts.release (hp : p.Counts n) (hbound : n < 2 ^ 31) (e : Entity) :
    (p.release e).Counts n := by
  refine { slots := Nat.le_trans (Nat.le_of_eq (slots_length_release p e))
             hp.slots, lives := ?_ }
  intro i slot hslot
  rw [slot?_release hp hbound] at hslot
  split at hslot
  · next h =>
    cases hslot
    have hlives := hp.lives ((isLive_iff p e).1 h.1)
    simpa using hlives
  · exact hp.lives hslot

end Pool

namespace Store

variable {s : Store} {n : Nat} {e : Entity}

/-- The handles that calls are answered, in the order of the creations. -/
def issuedBy (s : Store) : List StoreCall → List Entity
  | [] => []
  | call :: calls =>
      match call with
      | .create => s.create.1 :: s.create.2.issuedBy calls
      | call => (s.serve call).2.issuedBy calls

theorem pool_foldl_drop_of_counts (l : List Entity) (hs : s.pool.Counts n)
    (hbound : n < 2 ^ 31) : (l.foldl drop s).pool.Counts n ∧
      ((l.foldl drop s).pool.Issued e ↔ s.pool.Issued e) := by
  induction l generalizing s with
  | nil => exact ⟨hs, Iff.rfl⟩
  | cons f l ih =>
      obtain ⟨hcounts, hissued⟩ := ih (s := s.drop f) (hs.release hbound f)
      exact ⟨hcounts, hissued.trans (Pool.issued_release_iff hs hbound)⟩

/-- A call issues the handle that it is answered, and forgets none. -/
theorem counts_serve (h : s.Sound) (hs : s.pool.Counts n) (hbound : n < 2 ^ 31)
    (call : StoreCall) : (s.serve call).2.pool.Counts (n + creations [call]) ∧
      ((s.serve call).2.pool.Issued e ↔ s.pool.Issued e ∨
        e ∈ s.issuedBy [call]) := by
  cases call with
  | create =>
      refine ⟨hs.create h.pool, (Pool.issued_create_iff h.pool).trans ?_⟩
      rw [or_comm]
      exact or_congr Iff.rfl List.mem_singleton.symm
  | attach f a =>
      have hpool : (s.serve (.attach f a)).2.pool = s.pool := pool_put s f a
      rw [hpool]
      exact ⟨hs, by simp [issuedBy]⟩
  | requestRemoval f =>
      have hpool : (s.serve (.requestRemoval f)).2.pool = s.pool :=
        pool_requestRemoval s f
      rw [hpool]
      exact ⟨hs, by simp [issuedBy]⟩
  | applyRemovals =>
      obtain ⟨hcounts, hissued⟩ :=
        pool_foldl_drop_of_counts (e := e) s.pending hs hbound
      exact ⟨hcounts, hissued.trans (by simp [issuedBy])⟩

theorem issuedBy_cons (s : Store) (call : StoreCall) (calls : List StoreCall) :
    s.issuedBy (call :: calls) = s.issuedBy [call] ++
      (s.serve call).2.issuedBy calls := by
  cases call <;> rfl

/-- The slots know exactly the handles that calls were answered. -/
theorem counts_serveAll (h : s.Sound) (hs : s.pool.Counts n)
    (calls : List StoreCall) (hbound : n + creations calls < 2 ^ 31) :
    (s.serveAll calls).pool.Counts (n + creations calls) ∧
      ((s.serveAll calls).pool.Issued e ↔ s.pool.Issued e ∨
        e ∈ s.issuedBy calls) := by
  induction calls generalizing s n with
  | nil => exact ⟨hs, by simp [serveAll, issuedBy]⟩
  | cons call calls ih =>
      rw [creations_cons] at hbound
      obtain ⟨hcounts, hissued⟩ := counts_serve (e := e) h hs (by omega) call
      obtain ⟨hlater, hall⟩ := ih (h.serve call) hcounts (by omega)
      rw [creations_cons, ← Nat.add_assoc]
      refine ⟨hlater, hall.trans ?_⟩
      rw [hissued, or_assoc, issuedBy_cons s call calls, List.mem_append]

theorem counts_empty : ({} : Store).pool.Counts 0 :=
  { slots := Nat.le_refl 0, lives := by simp [Pool.slot?] }

theorem not_issued_empty (e : Entity) : ¬ ({} : Store).pool.Issued e := by
  simp [Pool.Issued, Pool.slot?]

/-- The handles that the slots of a store know are those that were issued. -/
theorem issued_serveAll_iff (calls : List StoreCall)
    (h : creations calls < 2 ^ 31) :
    (({} : Store).serveAll calls).pool.Issued e ↔
      e ∈ ({} : Store).issuedBy calls := by
  have hcounts := counts_serveAll (e := e) sound_empty counts_empty
    calls (by omega)
  exact hcounts.2.trans (or_iff_right (not_issued_empty e))

/-- No handle is issued twice. -/
theorem issuedBy_nodup (h : s.Sound) (hs : s.pool.Counts n)
    (calls : List StoreCall) (hbound : n + creations calls < 2 ^ 31) :
    (s.issuedBy calls).Nodup ∧ ∀ e ∈ s.issuedBy calls, ¬ s.pool.Issued e := by
  induction calls generalizing s n with
  | nil => exact ⟨.nil, by simp [issuedBy]⟩
  | cons call calls ih =>
      rw [creations_cons] at hbound
      have hserve := fun e => (counts_serve (e := e) h hs (by omega) call).2
      obtain ⟨hnodup, hfresh⟩ := ih (h.serve call)
        (counts_serve (e := default) h hs (by omega) call).1 (by omega)
      have hold : ∀ e ∈ (s.serve call).2.issuedBy calls, ¬ s.pool.Issued e :=
        fun e he hissued => hfresh e he ((hserve e).2 (.inl hissued))
      cases call with
      | create =>
          have hnew := Pool.not_issued_create h.pool
          refine ⟨List.nodup_cons.2 ⟨?_, hnodup⟩, ?_⟩
          · exact fun hmem =>
              hfresh _ hmem ((hserve _).2 (.inr (by simp [issuedBy])))
          · intro e he
            rcases List.mem_cons.1 he with rfl | he
            · exact hnew
            · exact hold e he
      | _ => exact ⟨hnodup, hold⟩

end Store

end Linkage
