import Linkage.Proofs.Scene.Additions
import Linkage.Proofs.Joint.Attaching

/-!
# What announcements tell of a store

Models and links are announced when they are added and when they are gone.
Whoever enters each addition in a table under its number, and takes out the
number of each removal, has a second record of the models and links of the
store. The two records agree as long as everything that is done to the store is
announced in this way or touches neither models nor links, like the joints that
come and go between them.

Numbers take the place of handles in the table. They do so faithfully while no
generation starts over, for which `2 ^ 31` creations are needed.

## Main results

* `Signal.get?_listing_added`, `Signal.get?_listing_removed`: what signals do to
  a table.
* `Store.get?_listing`: the numbers of a store's own table are those of its
  models and links.
* `Store.Mirrored.adds`, `Store.Mirrored.churns`, `Store.Mirrored.sweep`: what
  keeps the records in agreement.
* `Store.Mirrored.listing_eq`: records in agreement are one table.
-/

namespace Linkage

/-- What a table tells of a model or a link: its name, and the number of its
parent, which is 0 for a model. -/
structure Listed where
  name : Option String
  parent : Nat
  deriving DecidableEq

/-- Models and links by their numbers. -/
abbrev Listing := SortedMap Nat Listed

namespace SortedMap

variable {κ α : Type} [LT κ] [DecidableEq κ] [DecidableLT κ] [KeyOrder κ]

/-- A table made of entries with different keys has these entries. -/
theorem get?_ofList {l : List (κ × α)} (h : (l.map Prod.fst).Nodup)
    (k : κ) (a : α) :
    (ofList l).get? k = some a ↔ (k, a) ∈ l := by
  induction l using List.reverseRecOn with
  | nil => simp [ofList]
  | append_singleton l x ih =>
      rw [List.map_append, List.nodup_append] at h
      obtain ⟨hl, -, hapart⟩ := h
      rw [ofList_concat, get?_insert, List.mem_append, List.mem_singleton]
      by_cases hk : k = x.1
      · have hnot : (k, a) ∉ l := fun hmem =>
          hapart k (List.mem_map_of_mem hmem) x.1 (by simp) hk
        simp [hk ▸ hnot, hk, Prod.ext_iff, eq_comm]
      · rw [if_neg hk, ih hl]
        simp [Prod.ext_iff, hk]

end SortedMap

/-! ## The table of a stream of signals -/

namespace Signal

/-- Enter an addition in a table, or take out what was removed. -/
def enter (table : Listing) : Signal → Listing
  | .addToStore k name parent => table.insert k ⟨some name, parent⟩
  | .removeFromStore k => table.erase k
  | _ => table

/-- The table that results from signals, entered one after the other. -/
def listing (signals : List Signal) : Listing := signals.foldl enter .empty

/-- The number that is announced as added. -/
def added? : Signal → Option Nat
  | .addToStore k _ _ => some k
  | _ => none

theorem listing_concat (signals : List Signal) (s : Signal) :
    listing (signals ++ [s]) = enter (listing signals) s := by
  simp [listing]

/-- An addition is seen at its own number only. -/
theorem get?_listing_added (signals : List Signal) (a : Addition) (k : Nat) :
    (listing (signals ++ [a.signal])).get? k =
      if k = a.entity.raw then some ⟨some a.name,
        (a.parent.map Entity.raw).getD 0⟩
      else (listing signals).get? k := by
  rw [listing_concat]
  exact SortedMap.get?_insert _ _ _ _

/-- After removals their numbers are gone, and the others are as they were. -/
theorem get?_listing_removed (signals : List Signal)
    (removed : List Entity) (k : Nat) :
    (listing (signals ++ removed.map fun e => .removeFromStore e.raw)).get? k =
      if k ∈ removed.map Entity.raw then none else
          (listing signals).get? k := by
  induction removed using List.reverseRecOn with
  | nil => simp
  | append_singleton removed e ih =>
      rw [List.map_append, ← List.append_assoc, List.map_singleton,
        listing_concat]
      show ((listing _).erase e.raw).get? k = _
      rw [SortedMap.get?_erase, ih]
      simp only [List.map_append, List.map_singleton, List.mem_append,
        List.mem_singleton]
      by_cases hk : k = e.raw <;> simp [hk]

end Signal

/-! ## The table of a store -/

namespace Record

/-- What a table tells of an entity, if it is a model or a link. -/
def listed? (r : Record) : Option Listed :=
  if r.isModel then some ⟨r.name, 0⟩
  else if r.isLink then some ⟨r.name, (r.parent.map Entity.raw).getD 0⟩
  else none

theorem listed?_addition (a : Addition) :
    a.record.listed? = some ⟨some a.name,
      (a.parent.map Entity.raw).getD 0⟩ := by
  unfold listed? Addition.record
  cases a.parent <;> rfl

end Record

namespace Store

variable {s t : Store} {signals : List Signal} {n : Nat} {e f : Entity}

/-- What a table tells of an entity, if it is live and a model or a link. -/
def listed? (s : Store) (e : Entity) : Option Listed :=
  if !s.has e then none
  else if s.isModel e then some ⟨s.name? e, 0⟩
  else if s.isLink e then some ⟨s.name? e,
    ((s.parent? e).map Entity.raw).getD 0⟩
  else none

/-- The live models and links of a store by their numbers. -/
def listing (s : Store) : Listing :=
  .ofList (s.pool.live.filterMap fun e =>
    (s.listed? e).map fun row => (e.raw, row))

theorem listed?_eq (s : Store) (e : Entity) :
    s.listed? e = (s.record? e).bind Record.listed? := by
  unfold listed? record?
  cases s.has e <;> rfl

theorem has_of_listed? {row : Listed} (h : s.listed? e = some row) :
    s.has e = true := by
  rw [listed?_eq] at h
  obtain ⟨r, hr, -⟩ := Option.bind_eq_some_iff.1 h
  exact ((record?_eq_some_iff _ _ _).1 hr).1

/-- If no two live entities have the same number, a store's table tells of each
model and link under its number, and of nothing else. -/
theorem get?_listing
    (h : ∀ e f, s.has e = true → s.has f = true → e.raw = f.raw → e = f)
    (k : Nat) (row : Listed) :
    s.listing.get? k = some row ↔ ∃ e, s.listed? e = some row ∧ e.raw = k := by
  have hnodup : ((s.pool.live.filterMap fun e =>
      (s.listed? e).map fun row => (e.raw, row)).map Prod.fst).Nodup := by
    rw [List.map_filterMap]
    refine s.pool.live_nodup.filterMap fun e f k he hf => ?_
    simp only [Option.map_map, Option.mem_def, Option.map_eq_some_iff] at he hf
    obtain ⟨row, he, rfl⟩ := he
    obtain ⟨row', hf, heq⟩ := hf
    exact h e f (has_of_listed? he) (has_of_listed? hf) heq.symm
  unfold listing
  rw [SortedMap.get?_ofList hnodup, List.mem_filterMap]
  constructor
  · rintro ⟨e, -, he⟩
    obtain ⟨row', hrow, heq⟩ := Option.map_eq_some_iff.1 he
    cases heq
    exact ⟨e, hrow, rfl⟩
  · rintro ⟨e, he, rfl⟩
    exact ⟨e, (s.mem_live_iff_has e).2 (has_of_listed? he), by rw [he]; rfl⟩

/-- One store comes from another by attaching a number of joints and asking for
removals. -/
inductive Churns : Store → Nat → Store → Prop
  | refl (s : Store) : Churns s 0 s
  | attach {s t : Store} {n : Nat} (before : Churns s n t) (k : Joint) :
      Churns s (n + 1) (t.create.2.setJoint t.create.1 k)
  | request {s t : Store} {n : Nat} (before : Churns s n t) (e : Entity) :
      Churns s n (t.requestRemoval e)

theorem Churns.trans {u : Store} {m : Nat} (h : Churns s n t)
    (h' : Churns t m u) :
    Churns s (n + m) u := by
  induction h' with
  | refl => exact h
  | attach _ k ih => exact .attach ih k
  | request _ e ih => exact .request ih e

theorem Churns.requestAll (s : Store) (l : List Entity) :
    Churns s 0 (l.foldl requestRemoval s) := by
  induction l using List.reverseRecOn with
  | nil => exact .refl s
  | append_singleton l e ih =>
      rw [List.foldl_append]
      exact .request ih e

/-! ## Two records of one store -/

/-- After a number of creations, the table of the signals tells of each model
and link of the store under its number, and of nothing else. The numbers that
were announced as added are those of handles that were issued, and no number was
announced twice. -/
structure Mirrored (s : Store) (signals : List Signal) (n : Nat) : Prop where
  sound : s.Sound
  counts : s.pool.Counts n
  table : ∀ k row, (Signal.listing signals).get? k = some row ↔
    ∃ e, s.listed? e = some row ∧ e.raw = k
  issued : ∀ k ∈ signals.filterMap Signal.added?, ∃ e,
    s.pool.Issued e ∧ e.raw = k
  once : (signals.filterMap Signal.added?).Nodup

/-- Handles that were issued are told apart by their numbers. -/
theorem eq_of_raw_eq (hs : s.pool.Counts n) (hn : n < 2 ^ 31)
    (he : s.pool.Issued e) (hf : s.pool.Issued f) (h : e.raw = f.raw) : e = f :=
  Entity.raw_injective (he.withinBounds hs hn) (hf.withinBounds hs hn) h

theorem withinCapacity_of_counts (hs : s.pool.Counts n) (hn : n < 2 ^ 31) :
    s.WithinCapacity := by
  have hslots := hs.slots
  show s.pool.slots.length < 2 ^ 32 - 1
  omega

theorem mirrored_empty : Mirrored {} [] 0 :=
  { sound := sound_empty
    counts := counts_empty
    table := fun k row => by
      have hnone : ∀ e, ({} : Store).listed? e = none := fun e => by
        rw [listed?_eq, show ({} : Store).record? e = none from by
          simp [record?, has, Pool.isLive,
          Pool.slot?]]
        rfl
      simp [Signal.listing, hnone]
    issued := by simp
    once := .nil }

namespace Mirrored

theorem listing_eq (h : s.Mirrored signals n) (hn : n < 2 ^ 31) :
    Signal.listing signals = s.listing := by
  refine SortedMap.ext_get? fun k => Option.ext fun row => ?_
  have hraw : ∀ e f, s.has e = true → s.has f = true → e.raw = f.raw → e = f :=
    fun e f he hf => eq_of_raw_eq h.counts hn (.of_isLive he) (.of_isLive hf)
  rw [h.table, get?_listing hraw]

/-- An addition that is announced. -/
theorem added (h : s.Mirrored signals n) (hn : n + 1 < 2 ^ 31) (name : String)
    (parent : Option Entity) : (s.added name parent).Mirrored
      (signals ++ [Addition.signal ⟨s.create.1, name, parent⟩]) (n + 1) := by
  have hpool : (s.added name parent).pool = s.pool.create.2 :=
    pool_added s name parent
  have hcounts : (s.added name parent).pool.Counts (n + 1) :=
    hpool ▸ h.counts.create h.sound.pool
  have hissued : ∀ e, (s.added name parent).pool.Issued e ↔ e = s.create.1 ∨
      s.pool.Issued e :=
    fun e => hpool ▸ Pool.issued_create_iff h.sound.pool
  have hrecord := record?_added name parent h.sound
    (withinCapacity_of_counts hcounts hn)
  have hlisted : ∀ e, (s.added name parent).listed? e = if e = s.create.1 then
      some ⟨some name, (parent.map Entity.raw).getD 0⟩ else s.listed? e := by
    intro e
    rw [listed?_eq, hrecord, listed?_eq]
    split
    · exact Record.listed?_addition ⟨s.create.1, name, parent⟩
    · rfl
  -- the number of the new entity is new, for its handle is
  have hnew : ∀ e, s.pool.Issued e → e.raw ≠ s.create.1.raw := by
    intro e he hraw
    have heq := eq_of_raw_eq hcounts hn ((hissued e).2 (.inr he))
      ((hissued _).2 (.inl rfl)) hraw
    exact Pool.not_issued_create h.sound.pool (heq ▸ he)
  have hold : ∀ {e : Entity} {row : Listed}, s.listed? e = some row →
      s.pool.Issued e :=
    fun he => .of_isLive (has_of_listed? he)
  refine { sound := h.sound.added name parent, counts := hcounts,
           table := fun k row => ?_,
           issued := ?_, once := ?_ }
  · rw [Signal.get?_listing_added]
    constructor
    · intro hrow
      split at hrow
      · next hk => exact ⟨s.create.1,
          by rw [hlisted, if_pos rfl]; exact hrow, hk.symm⟩
      · obtain ⟨e, he, hk⟩ := (h.table k row).1 hrow
        have hne : e ≠ s.create.1 :=
          fun heq => hnew e (hold he) (congrArg Entity.raw heq)
        exact ⟨e, by rw [hlisted, if_neg hne]; exact he, hk⟩
    · rintro ⟨e, he, rfl⟩
      rw [hlisted] at he
      split at he
      · next heq => rw [if_pos (congrArg Entity.raw heq)]; exact he
      · rw [if_neg (hnew e (hold he))]
        exact (h.table e.raw row).2 ⟨e, he, rfl⟩
  · intro k hk
    rw [List.filterMap_append, List.mem_append] at hk
    rcases hk with hk | hk
    · obtain ⟨e, he, heq⟩ := h.issued k hk
      exact ⟨e, (hissued e).2 (.inr he), heq⟩
    · exact ⟨s.create.1, (hissued _).2 (.inl rfl),
        (List.mem_singleton.1 hk).symm⟩
  · rw [List.filterMap_append]
    refine List.nodup_append.2 ⟨h.once, List.nodup_singleton _,
      fun k hk l hl heq => ?_⟩
    obtain ⟨e, he, hraw⟩ := h.issued k hk
    exact hnew e he (hraw.trans (heq.trans (List.mem_singleton.1 hl)))

/-- Additions that are announced one by one. -/
theorem adds {as : List Addition} (h : s.Mirrored signals n) (has : s.Adds as t)
    (hn : n + as.length < 2 ^ 31) :
    t.Mirrored (signals ++ as.map Addition.signal) (n + as.length) := by
  induction has with
  | nil => simpa using h
  | snoc _ name parent ih =>
      rw [List.length_append] at hn
      have hlast := (ih (by omega)).added hn name parent
      simpa [← Nat.add_assoc] using hlast

/-- A store that lists the same and has issued no less. -/
theorem congr {m : Nat} (h : s.Mirrored signals n) (ht : t.Sound)
    (hm : t.pool.Counts m) (hlisted : ∀ e, t.listed? e = s.listed? e)
    (hissued : ∀ e, s.pool.Issued e → t.pool.Issued e) :
    t.Mirrored signals m :=
  { sound := ht
    counts := hm
    table := fun k row => by simp only [h.table, hlisted]
    issued := fun k hk => by
      obtain ⟨e, he, heq⟩ := h.issued k hk
      exact ⟨e, hissued e he, heq⟩
    once := h.once }

/-- Joints come and go without announcement, for they are no models and no
links. -/
theorem churns {m : Nat} (h : s.Mirrored signals n) (ht : s.Churns m t)
    (hn : n + m < 2 ^ 31) : t.Mirrored signals (n + m) := by
  induction ht with
  | refl => exact h
  | @attach t m before k ih =>
      have hbefore := ih (by omega)
      have hpool : (t.create.2.setJoint t.create.1 k).pool = t.pool.create.2 :=
        pool_attach _ _ _
      have hcreated : t.create.2.pool.Counts (n + (m + 1)) :=
        hbefore.counts.create hbefore.sound.pool
      refine hbefore.congr (hbefore.sound.create.setJoint _ k)
        (hpool ▸ hcreated) (fun e => ?_) fun e he => ?_
      · rw [listed?_eq,
          record?_joined hbefore.sound (withinCapacity_of_counts hcreated hn),
          listed?_eq]
        split
        · next heq =>
          have hdead := not_has_create hbefore.sound
          rw [← record?_isSome, Option.isSome_eq_false_iff,
            Option.isNone_iff_eq_none] at hdead
          rw [heq, hdead]
          rfl
        · rfl
      · exact hpool ▸ (Pool.issued_create_iff hbefore.sound.pool).2 (.inr he)
  | @request t m before e ih =>
      have hbefore := ih hn
      refine hbefore.congr (hbefore.sound.requestRemoval e) ?_ (fun f => ?_)
        fun f hf => ?_
      · rw [pool_requestRemoval]
        exact hbefore.counts
      · rw [listed?_eq, record?_requestRemoval, listed?_eq]
      · rwa [pool_requestRemoval]

/-- Removals that are applied together and announced one by one. -/
theorem sweep (h : s.Mirrored signals n) (hn : n < 2 ^ 31) :
    s.applyRemovals.2.Mirrored
    (signals ++ s.pending.map fun e => .removeFromStore e.raw) n := by
  have hdropped := fun e =>
    pool_foldl_drop_of_counts (e := e) s.pending h.counts hn
  have hlisted : ∀ e, s.applyRemovals.2.listed? e =
      if e ∈ s.pending then none else s.listed? e := by
    intro e
    rw [listed?_eq, record?_applyRemovals, listed?_eq]
    split <;> rfl
  have hpending : ∀ {e : Entity} {row : Listed}, s.listed? e = some row →
      (e.raw ∈ s.pending.map Entity.raw ↔ e ∈ s.pending) := by
    intro e row he
    constructor
    · intro hmem
      obtain ⟨f, hf, hraw⟩ := List.mem_map.1 hmem
      have heq := eq_of_raw_eq h.counts hn
        (.of_isLive (h.sound.pending_live f hf))
        (.of_isLive (has_of_listed? he)) hraw
      exact heq ▸ hf
    · exact List.mem_map_of_mem
  have hadded :
      (signals ++ s.pending.map fun e => Signal.removeFromStore e.raw).filterMap
      Signal.added? = signals.filterMap Signal.added? := by
    rw [List.filterMap_append, List.filterMap_map]
    simp [Function.comp_def, Signal.added?]
  refine { sound := h.sound.applyRemovals, counts := (hdropped default).1,
           table := fun k row => ?_, issued := ?_, once := ?_ }
  · rw [Signal.get?_listing_removed]
    constructor
    · intro hrow
      split at hrow
      · cases hrow
      · next hk =>
        obtain ⟨e, he, rfl⟩ := (h.table k row).1 hrow
        exact ⟨e, by rw [hlisted, if_neg (mt (hpending he).2 hk)]; exact he,
          rfl⟩
    · rintro ⟨e, he, rfl⟩
      rw [hlisted] at he
      split at he
      · cases he
      · next hstays =>
        rw [if_neg (mt (hpending he).1 hstays)]
        exact (h.table _ row).2 ⟨e, he, rfl⟩
  · rw [hadded]
    intro k hk
    obtain ⟨e, he, heq⟩ := h.issued k hk
    exact ⟨e, (hdropped e).2.2 he, heq⟩
  · rw [hadded]
    exact h.once

end Mirrored

end Store

end Linkage
