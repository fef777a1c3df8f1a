import Linkage.Proofs.Store.Issued

/-!
# One lifetime for each handle

A handle is issued once, lives until its removal is applied, and is dead from
then on, however often its slot is taken again. What carries this along a
history of calls is that a handle which was issued and is not live has *ended*:
its slot remembers that it was issued, a creation issues only handles the slot
does not remember, and every other call lets no handle live that did not live
before.

A handle travels as a number, and what has been received before may be compared
with what is received later. So it matters that handles which were issued at any
two points of a history have different numbers, and that none is the number that
stands for no parent or that of no entity.

## Main results

* `Store.Ended.serve`, `Store.Ended.serveAll`: what has ended stays ended.
* `lifetimes_of_creations_lt`: along every history with fewer than `2 ^ 31`
  creations a handle has one lifetime, and its number is its own.
-/

namespace Linkage

namespace Store

variable {s : Store} {n : Nat} {e : Entity}

/-- The handle was issued, and its entity is no longer live. -/
structure Ended (s : Store) (e : Entity) : Prop where
  issued : s.pool.Issued e
  dead : s.has e = false

/-- A new entity is not one that has ended. -/
theorem Ended.create (h : s.Ended e) (hs : s.Sound) : s.create.2.Ended e := by
  have hne : e ≠ s.create.1 := by
    rintro rfl
    exact Pool.not_issued_create hs.pool h.issued
  refine { issued := (Pool.issued_create_iff hs.pool).2 (.inr h.issued),
           dead := ?_ }
  have hlive := has_create hs e
  rw [or_iff_right hne, h.dead] at hlive
  exact Bool.eq_false_iff.2 fun hlive' => Bool.false_ne_true (hlive.1 hlive')

/-- What has ended stays ended. -/
theorem Ended.serve (h : s.Ended e) (hs : s.Sound) (hn : s.pool.Counts n)
    (hbound : n < 2 ^ 31) (call : StoreCall) : (s.serve call).2.Ended e := by
  have hissued := (counts_serve hs hn hbound call).2.2 (.inl h.issued)
  cases call with
  | create => exact h.create hs
  | attach f a => exact { issued := hissued,
                          dead := (has_put s f a e).trans h.dead }
  | requestRemoval f => exact { issued := hissued,
                                dead :=
                                  (has_requestRemoval s f e).trans h.dead }
  | applyRemovals =>
      refine { issued := hissued, dead := Bool.eq_false_iff.2 fun hlive => ?_ }
      exact Bool.eq_false_iff.1 h.dead ((has_applyRemovals s e).1 hlive).2

theorem Ended.serveAll (h : s.Ended e) (hs : s.Sound) (hn : s.pool.Counts n)
    (calls : List StoreCall) (hbound : n + creations calls < 2 ^ 31) :
    (s.serveAll calls).Ended e := by
  induction calls generalizing s n with
  | nil => exact h
  | cons call calls ih =>
      rw [creations_cons] at hbound
      have hcounts := (counts_serve (e := e) hs hn (by omega) call).1
      exact ih (h.serve hs hn (by omega) call) (hs.serve call)
        hcounts (by omega)

/-- What was removed has ended. -/
theorem ended_of_removed (hs : s.Sound) (hn : s.pool.Counts n)
    (hbound : n < 2 ^ 31) (he : e ∈ s.pending) : s.applyRemovals.2.Ended e := by
  have hlive : s.pool.Issued e := .of_isLive (hs.pending_live e he)
  refine { issued := (pool_foldl_drop_of_counts s.pending hn hbound).2.2 hlive,
           dead := ?_ }
  exact Bool.eq_false_iff.2 fun hstill =>
    ((has_applyRemovals s e).1 hstill).1 he

end Store

/-! ## Histories of calls -/

/-- The store after the first calls of a history. -/
def storeAfter (calls : List StoreCall) (k : Nat) : Store :=
  ({} : Store).serveAll (calls.take k)

/-- The answer to the call at a position of a history. -/
def answerAt? (calls : List StoreCall) (i : Nat) : Option StoreAnswer :=
  calls[i]?.map fun call => ((storeAfter calls i).serve call).1

/-- The call at a position of a history issues a handle. -/
def IssuesAt (calls : List StoreCall) (i : Nat) (e : Entity) : Prop :=
  answerAt? calls i = some (.issued e)

/-- The call at a position of a history removes an entity. -/
def RemovesAt (calls : List StoreCall) (i : Nat) (e : Entity) : Prop :=
  ∃ removed, answerAt? calls i = some (.removed removed) ∧ e ∈ removed

/-- Along a history each handle has one lifetime, and its number is its own. -/
structure Lifetimes (calls : List StoreCall) : Prop where
  /-- No handle is issued twice. -/
  issued_once : ∀ {i j e}, IssuesAt calls i e → IssuesAt calls j e → i = j
  /-- A handle lives only after it was issued. -/
  issued_before : ∀ {k e}, (storeAfter calls k).has e = true →
    ∃ i < k, IssuesAt calls i e
  /-- Only live entities are removed, so a handle that is removed was issued. -/
  live_until : ∀ {i e}, RemovesAt calls i e → (storeAfter calls i).has e = true
  /-- Whatever is created later, a removed entity is not live again. -/
  dead_from : ∀ {i k e}, RemovesAt calls i e → i < k →
    (storeAfter calls k).has e = false
  /-- A handle that was issued and is found dead once is dead from then on. -/
  stays_dead : ∀ {i j k e}, IssuesAt calls i e → i < j →
    (storeAfter calls j).has e = false →
    j ≤ k → (storeAfter calls k).has e = false
  /-- Handles that were issued, at whatever points of the history, have
  different numbers. -/
  raw_injective : ∀ {i j e f}, IssuesAt calls i e → IssuesAt calls j f →
    e.raw = f.raw → e = f
  /-- No number is the one that is sent for no parent. -/
  raw_ne_zero : ∀ {i e}, IssuesAt calls i e → e.raw ≠ 0
  /-- No number is that of the handle of no entity. -/
  raw_ne_null : ∀ {i e}, IssuesAt calls i e → e.raw ≠ Entity.null.raw

variable {calls : List StoreCall} {i j k : Nat} {e : Entity}

theorem sound_storeAfter (calls : List StoreCall) (k : Nat) :
    (storeAfter calls k).Sound :=
  Store.sound_empty.serveAll _

theorem storeAfter_succ {call : StoreCall} (h : calls[i]? = some call) :
    storeAfter calls (i + 1) = ((storeAfter calls i).serve call).2 := by
  rw [storeAfter, List.take_add_one, h, Option.toList_some,
    Store.serveAll_append]
  rfl

/-- The first calls of a history are those before an earlier point and those
from there on. -/
theorem take_split (calls : List StoreCall) (h : j ≤ k) :
    calls.take k = calls.take j ++ (calls.take k).drop j := by
  conv_lhs => rw [← List.take_append_drop j (calls.take k), List.take_take,
    Nat.min_eq_left h]

/-- A later store comes from an earlier one by the calls between. -/
theorem storeAfter_of_le (h : j ≤ k) :
    storeAfter calls k =
      (storeAfter calls j).serveAll ((calls.take k).drop j) :=
  (congrArg _ (take_split calls h)).trans (Store.serveAll_append _ _ _)

theorem creations_take_le (calls : List StoreCall) (k : Nat) :
    creations (calls.take k) ≤ creations calls :=
  (List.take_sublist k calls).countP_le

theorem creations_between_le (calls : List StoreCall) (h : j ≤ k) :
    creations (calls.take j) + creations ((calls.take k).drop j) ≤
      creations calls := by
  have hle := creations_take_le calls k
  rwa [take_split calls h, creations, List.countP_append] at hle

/-- The slots count the creations of a history so far. -/
theorem counts_storeAfter (h : creations calls < 2 ^ 31) (k : Nat) :
    (storeAfter calls k).pool.Counts (creations (calls.take k)) := by
  have hle := creations_take_le calls k
  have hcounts :=
    (Store.counts_serveAll (e := default) Store.sound_empty Store.counts_empty
    (calls.take k) (by omega)).1
  rwa [Nat.zero_add] at hcounts

theorem ended_of_le (h : creations calls < 2 ^ 31)
    (he : (storeAfter calls j).Ended e) (hjk : j ≤ k) :
    (storeAfter calls k).Ended e := by
  have hle := creations_between_le calls hjk
  rw [storeAfter_of_le hjk]
  exact he.serveAll (sound_storeAfter calls j)
    (counts_storeAfter h j) _ (by omega)

/-- What a call that issues a handle is. -/
theorem issuesAt_iff :
    IssuesAt calls i e ↔ calls[i]? = some .create ∧
    (storeAfter calls i).create.1 = e := by
  unfold IssuesAt answerAt?
  cases hcall : calls[i]? with
  | none => simp
  | some call => cases call <;> simp [Store.serve]

/-- What a call that removes an entity is. -/
theorem removesAt_iff :
    RemovesAt calls i e ↔ calls[i]? = some .applyRemovals ∧
    e ∈ (storeAfter calls i).pending := by
  unfold RemovesAt answerAt?
  cases hcall : calls[i]? with
  | none => simp
  | some call => cases call <;> simp [Store.serve]

/-- The slots remember a handle exactly when some call so far has issued it. -/
theorem issued_storeAfter_iff (h : creations calls < 2 ^ 31) (k : Nat) :
    (storeAfter calls k).pool.Issued e ↔ ∃ i < k, IssuesAt calls i e := by
  induction k with
  | zero =>
      have hnone : ¬ (storeAfter calls 0).pool.Issued e :=
        Store.not_issued_empty e
      simp [hnone]
  | succ k ih =>
      have hsound := sound_storeAfter calls k
      have hle := creations_take_le calls k
      have hlast : (storeAfter calls (k + 1)).pool.Issued e ↔
          (storeAfter calls k).pool.Issued e ∨ IssuesAt calls k e := by
        cases hcall : calls[k]? with
        | none =>
            have hsame : storeAfter calls (k + 1) = storeAfter calls k := by
              rw [storeAfter, List.take_add_one, hcall, Option.toList_none,
                List.append_nil, storeAfter]
            rw [hsame, issuesAt_iff, hcall]
            simp
        | some call =>
            rw [storeAfter_succ hcall,
              (Store.counts_serve hsound (counts_storeAfter h k) (by omega)
                call).2, issuesAt_iff,
              hcall]
            cases call <;> simp [Store.issuedBy, eq_comm]
      rw [hlast, ih]
      constructor
      · rintro (⟨i, hi, hissues⟩ | hissues)
        · exact ⟨i, by omega, hissues⟩
        · exact ⟨k, by omega, hissues⟩
      · rintro ⟨i, hi, hissues⟩
        rcases Nat.lt_succ_iff_lt_or_eq.1 hi with hlt | rfl
        · exact .inl ⟨i, hlt, hissues⟩
        · exact .inr hissues

/-- A handle is not issued at a later point again. -/
theorem not_issuesAt_of_lt (h : creations calls < 2 ^ 31)
    (hi : IssuesAt calls i e) (hij : i < j) : ¬ IssuesAt calls j e := by
  intro hj
  have hknown : (storeAfter calls j).pool.Issued e :=
    (issued_storeAfter_iff h j).2 ⟨i, hij, hi⟩
  obtain ⟨-, rfl⟩ := issuesAt_iff.1 hj
  exact Pool.not_issued_create (sound_storeAfter calls j).pool hknown

theorem withinBounds_null : Entity.null.WithinBounds := by
  constructor <;> decide +kernel

theorem withinBounds_of_issuesAt (h : creations calls < 2 ^ 31)
    (hi : IssuesAt calls i e) :
    e.WithinBounds ∧ e ≠ Entity.null := by
  have hle := creations_take_le calls (i + 1)
  have hcounts := counts_storeAfter h (i + 1)
  have hissued : (storeAfter calls (i + 1)).pool.Issued e :=
    (issued_storeAfter_iff h (i + 1)).2 ⟨i, Nat.lt_succ_self i, hi⟩
  refine ⟨hissued.withinBounds hcounts (by omega), ?_⟩
  rintro rfl
  obtain ⟨slot, hslot, -⟩ := hissued
  have hindex := Pool.index_le_of_slot? hslot
  have hslots := hcounts.slots
  have hnull : Entity.null.index = 2 ^ 32 - 1 := rfl
  omega

/-- A handle has one lifetime, and its number is its own, along every history of
calls that creates fewer than `2 ^ 31` entities: it is issued once, lives until
its removal is applied and never again, and no other handle of the history,
living or dead, is sent as the same number. -/
theorem lifetimes_of_creations_lt (calls : List StoreCall)
    (h : creations calls < 2 ^ 31) :
    Lifetimes calls := by
  refine
    { issued_once := ?_
      issued_before := ?_
      live_until := ?_
      dead_from := ?_
      stays_dead := ?_
      raw_injective := ?_
      raw_ne_zero := fun _ => Nat.ne_of_gt (Entity.raw_pos _)
      raw_ne_null := ?_ }
  · intro i j e hi hj
    rcases Nat.lt_trichotomy i j with hlt | heq | hgt
    · exact absurd hj (not_issuesAt_of_lt h hi hlt)
    · exact heq
    · exact absurd hi (not_issuesAt_of_lt h hj hgt)
  · intro k e hlive
    exact (issued_storeAfter_iff h k).1 (.of_isLive hlive)
  · intro i e hremoves
    exact (sound_storeAfter calls i).pending_live e (removesAt_iff.1 hremoves).2
  · intro i k e hremoves hik
    obtain ⟨hcall, hpending⟩ := removesAt_iff.1 hremoves
    have hended := Store.ended_of_removed (sound_storeAfter calls i)
      (counts_storeAfter h i)
      (Nat.lt_of_le_of_lt (creations_take_le calls i) h) hpending
    rw [show (storeAfter calls i).applyRemovals.2 =
      storeAfter calls (i + 1) from (storeAfter_succ hcall).symm] at hended
    exact (ended_of_le h hended hik).dead
  · intro i j k e hi hij hdead hjk
    have hissued := (issued_storeAfter_iff h j).2 ⟨i, hij, hi⟩
    exact (ended_of_le h { issued := hissued, dead := hdead } hjk).dead
  · intro i j e f hi hj hraw
    exact Entity.raw_injective (withinBounds_of_issuesAt h hi).1
      (withinBounds_of_issuesAt h hj).1 hraw
  · intro i e hi hraw
    obtain ⟨hbounds, hne⟩ := withinBounds_of_issuesAt h hi
    exact hne (Entity.raw_injective hbounds withinBounds_null hraw)

/-- Three lives in one slot: the second and the third handle are new, and the
first two are dead although the slot is occupied. -/
theorem lifetimes_of_thrice_used_slot :
    let calls : List StoreCall :=
      [.create, .requestRemoval ⟨1, 0⟩, .applyRemovals, .create,
        .requestRemoval ⟨1, 1⟩, .applyRemovals, .create, .create]
    creations calls < 2 ^ 31 ∧ IssuesAt calls 0 ⟨1, 0⟩ ∧
      RemovesAt calls 2 ⟨1, 0⟩ ∧
      IssuesAt calls 6 ⟨1, 2⟩ ∧ (storeAfter calls 8).has ⟨1, 2⟩ = true ∧
      Lifetimes calls := by
  refine ⟨by decide, rfl, ⟨[⟨1, 0⟩], rfl, by decide⟩, rfl, rfl, ?_⟩
  exact lifetimes_of_creations_lt _ (by decide)

end Linkage
