import Linkage.Proofs.Joint.Lifecycle
import Linkage.Proofs.Store.Calls

/-!
# Joints and the components that stand for them

A store and the joints that act on it are tied together: every joint that is
held has its component, on an entity of its own, and every component either
belongs to a joint that is held or is about to be removed. The ties outlast
every call that neither sets a joint nor asks for the removal of one that is
held, and they outlast attaching and letting go.

## Main results

* `Ties.plain`, `Ties.requestRemoval`: calls of others.
* `Ties.attach`, `Ties.letGo`: what joints do.
* `Ties.accounted_of_swept`: once nothing is pending, components and held joints
  are the same.
-/

namespace Linkage

namespace Store

/-! ## Joints of a store after a call -/

theorem joint?_requestRemoval (s : Store) (e f : Entity) :
    (s.requestRemoval e).joint? f = s.joint? f := by
  unfold requestRemoval
  split <;> rfl

theorem joint?_setJoint {s : Store} (h : s.Sound)
    (hc : s.WithinCapacity) {e : Entity} (he : s.has e = true) (k : Joint)
    (f : Entity) :
    (s.setJoint e k).joint? f = if f = e then some k else s.joint? f := by
  have hget := get?_insert_of_has hc h.components.joints he k f
  simp only [setJoint, attach, he, if_true]
  exact hget

theorem joint?_setJoint_created {s : Store} (h : s.Sound)
    (hc : s.create.2.WithinCapacity) (k : Joint) :
    (s.create.2.setJoint s.create.1 k).joint? s.create.1 = some k :=
  (joint?_setJoint h.create hc (has_created h) k _).trans (if_pos rfl)

theorem joint?_applyRemovals {s : Store} (h : s.Sound) (e : Entity) :
    s.applyRemovals.2.joint? e = if e ∈ s.pending then none
    else s.joint? e := by
  rw [h.applyRemovals.joint?_eq, record?_applyRemovals]
  split
  · rfl
  · exact (h.joint?_eq e).symm

theorem joint?_put {s : Store} (e : Entity) {a : Attachment}
    (ha : (StoreCall.attach e a).Plain) (f : Entity) :
    (s.put e a).joint? f = s.joint? f := by
  have hattach : ∀ change : Components → Components,
      (∀ c, (change c).joints = c.joints) →
      (s.attach e change).joint? f = s.joint? f := by
    intro change hchange
    unfold attach
    split
    · exact congrArg (·.get? f) (hchange s.components)
    · rfl
  cases a with
  | joint joint => exact absurd ha id
  | model => exact hattach _ fun _ => rfl
  | link => exact hattach _ fun _ => rfl
  | name name => exact hattach _ fun _ => rfl
  | parent parent => exact hattach _ fun _ => rfl

/-- An entity with a joint is not the one created next. -/
theorem ne_create_of_joint? {s : Store} (h : s.Sound) {e : Entity} {k : Joint}
    (hk : s.joint? e = some k) : e ≠ s.create.1 := by
  rintro rfl
  have hlive := h.has_of_joint? hk
  rw [not_has_create h] at hlive
  cases hlive

end Store

/-- A store and the joints with some numbers agree, where a joint that is held
is given by its entity and its component. -/
structure Ties (ids : List Nat) (held : Nat → Option (Entity × Joint))
    (s : Store) : Prop where
  component : ∀ {j : Nat} {e : Entity} {k : Joint}, j ∈ ids →
    held j = some (e, k) →
    s.joint? e = some k ∧ e ∉ s.pending
  distinct : ∀ {i j : Nat} {e : Entity} {k l : Joint}, i ∈ ids → j ∈ ids →
    held i = some (e, k) → held j = some (e, l) → i = j
  accounted : ∀ {e : Entity} {k : Joint}, s.joint? e = some k →
    (∃ j ∈ ids, held j = some (e, k)) ∨ e ∈ s.pending

namespace Ties

variable {ids : List Nat} {held held' : Nat → Option (Entity × Joint)}
  {s : Store}

theorem nil : Ties [] held {} :=
  { component := by simp
    distinct := by simp
    accounted := fun h => by cases h }

theorem congr (h : Ties ids held s) (heq : ∀ j ∈ ids, held' j = held j) :
    Ties ids held' s := by
  refine { component := ?_, distinct := ?_, accounted := ?_ }
  · intro j e k hj hheld
    exact h.component hj ((heq j hj).symm.trans hheld)
  · intro i j e k l hi hj hheld hheld'
    exact h.distinct hi hj ((heq i hi).symm.trans hheld)
      ((heq j hj).symm.trans hheld')
  · intro e k hk
    rcases h.accounted hk with ⟨j, hj, hheld⟩ | hpending
    · exact .inl ⟨j, hj, (heq j hj).trans hheld⟩
    · exact .inr hpending

/-- A joint that holds nothing joins the others. -/
theorem concat (h : Ties ids held s) {j : Nat} (hj : held j = none) :
    Ties (ids ++ [j]) held s := by
  have hold : ∀ {i : Nat} {p : Entity × Joint}, i ∈ ids ++ [j] →
      held i = some p → i ∈ ids := by
    intro i p hi hheld
    rcases List.mem_append.1 hi with hi | hi
    · exact hi
    · rw [List.mem_singleton.1 hi, hj] at hheld
      cases hheld
  refine { component := ?_, distinct := ?_, accounted := ?_ }
  · intro i e k hi hheld
    exact h.component (hold hi hheld) hheld
  · intro i i' e k l hi hi' hheld hheld'
    exact h.distinct (hold hi hheld) (hold hi' hheld') hheld hheld'
  · intro e k hk
    rcases h.accounted hk with ⟨i, hi, hheld⟩ | hpending
    · exact .inl ⟨i, List.mem_append_left _ hi, hheld⟩
    · exact .inr hpending

/-! ## Calls of others -/

theorem serve (h : Ties ids held s) {call : StoreCall} (hplain : call.Plain) :
    Ties ids held (s.serve call).2 := by
  cases call with
  | create =>
      exact { component := h.component, distinct := h.distinct,
              accounted := h.accounted }
  | attach e a =>
      have hjoint := Store.joint?_put (s := s) e hplain
      have hpending := Store.pending_put s e a
      refine { component := ?_, distinct := h.distinct, accounted := ?_ }
      · intro j f k hj hheld
        obtain ⟨hk, hp⟩ := h.component hj hheld
        exact ⟨(hjoint f).trans hk, fun hmem => hp (hpending ▸ hmem)⟩
      · intro f k hk
        rcases h.accounted ((hjoint f).symm.trans hk) with hheld | hp
        · exact .inl hheld
        · exact .inr (hpending.symm ▸ hp)
  | requestRemoval e => exact absurd hplain id
  | applyRemovals => exact absurd hplain id

/-- Applying removals leaves the ties in place, since nothing that a joint holds
is pending. -/
theorem applyRemovals (h : Ties ids held s) (hs : s.Sound) :
    Ties ids held s.applyRemovals.2 := by
  refine { component := ?_, distinct := h.distinct, accounted := ?_ }
  · intro j f k hj hheld
    obtain ⟨hk, hp⟩ := h.component hj hheld
    rw [Store.joint?_applyRemovals hs, if_neg hp]
    exact ⟨hk, by simp⟩
  · intro f k hk
    rw [Store.joint?_applyRemovals hs] at hk
    split at hk
    · cases hk
    · next hp => exact .inl ((h.accounted hk).resolve_right hp)

/-- Plain calls leave the ties in place. -/
theorem plain (h : Ties ids held s) {t : Store} (ht : s.PlainlyFrom t) :
    Ties ids held t := by
  obtain ⟨calls, rfl, hplain⟩ := ht
  induction calls generalizing s with
  | nil => exact h
  | cons call calls ih =>
      exact ih (h.serve (hplain call (by simp))) fun c hc =>
        hplain c (by simp [hc])

/-- Others may ask for the removal of entities that no joint holds. -/
theorem requestRemoval (h : Ties ids held s) {e : Entity}
    (hfree : ∀ j ∈ ids, ∀ k, held j ≠ some (e, k)) :
    Ties ids held (s.requestRemoval e) := by
  refine { component := ?_, distinct := h.distinct, accounted := ?_ }
  · intro j f k hj hheld
    obtain ⟨hk, hp⟩ := h.component hj hheld
    refine ⟨(Store.joint?_requestRemoval s e f).trans hk, ?_⟩
    rw [Store.mem_pending_requestRemoval]
    rintro (hp' | ⟨rfl, -⟩)
    · exact hp hp'
    · exact hfree j hj k hheld
  · intro f k hk
    rcases h.accounted ((Store.joint?_requestRemoval s e f).symm.trans hk) with
      hheld | hp
    · exact .inl hheld
    · exact .inr ((Store.mem_pending_requestRemoval).2 (.inl hp))

/-! ## What joints do -/

section Joints

variable {j : Nat} (hj : j ∈ ids)
  (hothers : ∀ i ∈ ids, i ≠ j → held' i = held i)
include hj hothers

/-- A joint that held nothing attaches with a new entity. -/
theorem attach (h : Ties ids held s) (hs : s.Sound)
    (hc : s.create.2.WithinCapacity) {k : Joint} (hnone : held j = none)
    (hheld : held' j = some (s.create.1, k)) :
    Ties ids held' (s.create.2.setJoint s.create.1 k) := by
  have hjoint := Store.joint?_setJoint hs.create hc (Store.has_created hs) k
  have hpending : (s.create.2.setJoint s.create.1 k).pending = s.pending :=
    Store.pending_attach _ _ _
  have hold : ∀ {i : Nat} {e : Entity} {l : Joint}, i ∈ ids → i ≠ j →
      held' i = some (e, l) →
      s.joint? e = some l ∧ e ∉ s.pending := by
    intro i e l hi hij hi'
    exact h.component hi ((hothers i hi hij).symm.trans hi')
  refine { component := ?_, distinct := ?_, accounted := ?_ }
  · intro i e l hi hi'
    rw [hjoint, hpending]
    by_cases hij : i = j
    · rw [hij, hheld] at hi'
      cases hi'
      exact ⟨if_pos rfl, Store.not_mem_pending_create hs⟩
    · obtain ⟨hl, hp⟩ := hold hi hij hi'
      rw [if_neg (Store.ne_create_of_joint? hs hl)]
      exact ⟨hl, hp⟩
  · intro i i' e l l' hi hi' hheldi hheldi'
    by_cases hij : i = j
    · by_cases hij' : i' = j
      · exact hij.trans hij'.symm
      · rw [hij, hheld] at hheldi
        cases hheldi
        exact absurd rfl
          (Store.ne_create_of_joint? hs (hold hi' hij' hheldi').1)
    · by_cases hij' : i' = j
      · rw [hij', hheld] at hheldi'
        cases hheldi'
        exact absurd rfl (Store.ne_create_of_joint? hs (hold hi hij hheldi).1)
      · exact h.distinct hi hi' ((hothers i hi hij).symm.trans hheldi)
          ((hothers i' hi' hij').symm.trans hheldi')
  · intro e l hl
    rw [hjoint] at hl
    rw [hpending]
    split at hl
    · next he =>
      cases hl
      exact .inl ⟨j, hj, he ▸ hheld⟩
    · rcases h.accounted hl with ⟨i, hi, hi'⟩ | hp
      · have hij : i ≠ j := by
          rintro rfl
          rw [hnone] at hi'
          cases hi'
        exact .inl ⟨i, hi, (hothers i hi hij).trans hi'⟩
      · exact .inr hp

/-- A joint lets go of its entity and asks for the removal. -/
theorem letGo (h : Ties ids held s) (hs : s.Sound) {e : Entity} {k : Joint}
    (hheld : held j = some (e, k)) (hnone : held' j = none) :
    Ties ids held' (s.requestRemoval e) := by
  have hkeep : ∀ {i : Nat} {p : Entity × Joint}, i ∈ ids → held' i = some p →
      i ≠ j ∧ held i = some p := by
    intro i p hi hi'
    have hij : i ≠ j := by
      rintro rfl
      rw [hnone] at hi'
      cases hi'
    exact ⟨hij, (hothers i hi hij).symm.trans hi'⟩
  refine { component := ?_, distinct := ?_, accounted := ?_ }
  · intro i f l hi hi'
    obtain ⟨hij, hbefore⟩ := hkeep hi hi'
    obtain ⟨hl, hp⟩ := h.component hi hbefore
    refine ⟨(Store.joint?_requestRemoval s e f).trans hl, ?_⟩
    rw [Store.mem_pending_requestRemoval]
    rintro (hp' | ⟨rfl, -⟩)
    · exact hp hp'
    · exact hij (h.distinct hi hj hbefore hheld)
  · intro i i' f l l' hi hi' hheldi hheldi'
    exact h.distinct hi hi' (hkeep hi hheldi).2 (hkeep hi' hheldi').2
  · intro f l hl
    have hl' := (Store.joint?_requestRemoval s e f).symm.trans hl
    rw [Store.mem_pending_requestRemoval]
    rcases h.accounted hl' with ⟨i, hi, hi'⟩ | hp
    · by_cases hij : i = j
      · rw [hij, hheld] at hi'
        cases hi'
        exact .inr (.inr ⟨rfl, hs.has_of_joint? hl'⟩)
      · exact .inl ⟨i, hi, (hothers i hi hij).trans hi'⟩
    · exact .inr (.inl hp)

end Joints

/-- With no removal pending every component is that of a joint that is held. -/
theorem accounted_of_swept (h : Ties ids held s) (hp : s.pending = [])
    {e : Entity} {k : Joint} :
    s.joint? e = some k ↔ ∃ j ∈ ids, held j = some (e, k) := by
  constructor
  · intro hk
    exact (h.accounted hk).resolve_right (by simp [hp])
  · rintro ⟨j, hj, hheld⟩
    exact (h.component hj hheld).1

end Ties

end Linkage
