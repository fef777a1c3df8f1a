import Linkage.Proofs.World.Snapshot

/-!
# What the revision tells of a step

Every call on a store that changes it raises its revision, except for one: the
removals that were asked for are applied under the revision that the last
request left. Requests that are made in a step raise the revision in that step,
but those that were made before it do not. So whoever finds the revision of a
runner's store unchanged by a step may conclude that the step did one thing at
most, to apply the removals that were pending when it began, and that the store
is the same exactly if there were none.

## Main results

* `Store.serve_cases`: a call raises the revision, or applies removals, or
  changes nothing.
* `Store.serveAll_cases`: the same for calls one after the other.
* `swept_of_revision_eq`: what a step did that left the revision as it was.
-/

namespace Linkage

open Act World

namespace Store

variable {s t : Store}

@[simp] theorem revision_applyRemovals (s : Store) :
    s.applyRemovals.2.revision = s.revision :=
  Recalls.revision_foldl_drop s.pending s

/-- Where nothing was asked for, nothing is applied. -/
theorem applyRemovals_of_pending_eq_nil (h : s.pending = []) :
    s.applyRemovals.2 = s := by
  obtain ⟨pool, components, pending, revision⟩ := s
  cases h
  rfl

/-- Removals that are applied leave nothing to apply. -/
@[simp] theorem applyRemovals_applyRemovals (s : Store) :
    s.applyRemovals.2.applyRemovals.2 = s.applyRemovals.2 :=
  applyRemovals_of_pending_eq_nil (applyRemovals_pending s)

/-- The removals asked for change a store unless there are none. -/
theorem applyRemovals_eq_self_iff (s : Store) :
    s.applyRemovals.2 = s ↔ s.pending = [] :=
  ⟨fun h => h ▸ applyRemovals_pending s, applyRemovals_of_pending_eq_nil⟩

theorem attach_cases (s : Store) (e : Entity)
    (change : Components → Components) :
    s.attach e change = s ∨ s.revision < (s.attach e change).revision := by
  unfold attach
  split
  · exact .inr (Nat.lt_succ_self _)
  · exact .inl rfl

theorem put_cases (s : Store) (e : Entity) (a : Attachment) :
    s.put e a = s ∨ s.revision < (s.put e a).revision := by
  cases a with
  | model =>
      exact attach_cases s e fun c => { c with models := c.models.insert e () }
  | link =>
      exact attach_cases s e fun c => { c with links := c.links.insert e () }
  | name name =>
      exact attach_cases s e fun c => { c with names := c.names.insert e name }
  | parent parent =>
      exact attach_cases s e fun c =>
        { c with parents := c.parents.insert e parent }
  | joint joint =>
      exact attach_cases s e fun c =>
        { c with joints := c.joints.insert e joint }

theorem requestRemoval_cases (s : Store) (e : Entity) :
    s.requestRemoval e = s ∨ s.revision < (s.requestRemoval e).revision := by
  unfold requestRemoval
  split
  · exact .inr (Nat.lt_succ_self _)
  · exact .inl rfl

/-- A call changes nothing, raises the revision, or applies the removals asked
for. -/
theorem serve_cases (s : Store) (call : StoreCall) :
    (s.serve call).2 = s ∨ s.revision < (s.serve call).2.revision ∨
      (s.serve call).2 = s.applyRemovals.2 := by
  cases call with
  | create => exact .inr (.inl (Nat.lt_succ_self _))
  | attach e a => exact (put_cases s e a).imp_right .inl
  | requestRemoval e => exact (requestRemoval_cases s e).imp_right .inl
  | applyRemovals => exact .inr (.inr rfl)

/-- So do calls one after the other: whatever they apply without raising the
revision was asked for before the first of them. -/
theorem serveAll_cases (s : Store) (calls : List StoreCall) :
    s.serveAll calls = s ∨ s.revision < (s.serveAll calls).revision ∨
      s.serveAll calls = s.applyRemovals.2 := by
  induction calls generalizing s with
  | nil => exact .inl rfl
  | cons call calls ih =>
      have hlater := ih (s.serve call).2
      have hall : s.serveAll (call :: calls) =
          (s.serve call).2.serveAll calls := rfl
      rw [hall]
      rcases serve_cases s call with hsame | hraised | hswept
      · rwa [hsame] at hlater ⊢
      · refine .inr (.inl ?_)
        rcases hlater with heq | hlt | heq
        · rwa [heq]
        · exact Nat.lt_trans hraised hlt
        · rwa [heq, revision_applyRemovals]
      · -- the first call has left nothing to apply, so the others change nothing
        -- or raise it
        rw [hswept] at hlater ⊢
        rw [applyRemovals_applyRemovals, revision_applyRemovals] at hlater
        rcases hlater with heq | hlt | heq
        · exact .inr (.inr heq)
        · exact .inr (.inl hlt)
        · exact .inr (.inr heq)

/-- Calls that leave the revision as it was changed nothing, or applied what had
been asked for before them. -/
theorem serveAll_of_revision_eq {calls : List StoreCall}
    (h : (s.serveAll calls).revision = s.revision) :
    s.serveAll calls = s ∨ s.serveAll calls = s.applyRemovals.2 := by
  rcases serveAll_cases s calls with hsame | hraised | hswept
  · exact .inl hsame
  · exact absurd h (Nat.ne_of_gt hraised)
  · exact .inr hswept

end Store

namespace World

variable {w w' : World} {r : Nat} {a b : Runner}

/-- The store after a step, whether it is carried out or not, comes by calls
from the one before. -/
theorem served_of_step (ha : w.runner? r = some a)
    (hb : ((step r).left w).runner? r = some b) :
    ∃ calls, b.store = a.store.serveAll calls := by
  obtain ⟨s, calls, hs, hcalls⟩ :=
    served_of_path (step_path r w) (lt_of_runner? ha) (store?_of_runner? hb)
  cases (store?_of_runner? ha).symm.trans hs
  exact ⟨calls, hcalls⟩

/-- A step that is carried out makes calls and then applies the removals asked
for. -/
theorem swept_of_step (ha : w.runner? r = some a)
    (h : (step r).run w = .ok true w') (hb : w'.runner? r = some b) :
    ∃ calls, b.store = (a.store.serveAll calls).applyRemovals.2 := by
  obtain ⟨c, hc, -⟩ := (atTurn_stepping ha a.systems.length).2
  obtain ⟨s, calls, hs, hcalls⟩ :=
    served_of_path (atTurn_path w r a.systems.length) (lt_of_runner? ha)
      (store?_of_runner? hc)
  cases (store?_of_runner? ha).symm.trans hs
  obtain ⟨w₂, info, hreaction, rfl⟩ := end_of_step h ha (Nat.le_refl _)
  have hstore := store?_of_runner? hb
  rw [store?_setClock, hreaction.store?,
    store?_applyRemovals (store?_of_runner? hc), Option.some.injEq] at hstore
  exact ⟨calls, by rw [← hstore, hcalls]⟩

end World

/-- Whatever the systems of a runner do to its store, a step that leaves the
revision as it was has left the store alone or has applied the removals that
were pending when it began. A step that is carried out has applied them, so the
store is the same, with the same live entities, the same components and the same
pending removals, if and only if none was pending. -/
theorem swept_of_revision_eq {w : World} {r : Nat} {a b : Runner}
    (ha : w.runner? r = some a) (hb : ((step r).left w).runner? r = some b)
    (h : b.store.revision = a.store.revision) :
    (b.store = a.store ∨ b.store = a.store.applyRemovals.2) ∧
      (w.stepReply r = some true → b.store = a.store.applyRemovals.2 ∧
        (b.store = a.store ↔ a.store.pending = [])) := by
  refine ⟨?_, fun hreply => ?_⟩
  · obtain ⟨calls, hcalls⟩ := served_of_step ha hb
    rw [hcalls] at h ⊢
    exact Store.serveAll_of_revision_eq h
  · obtain ⟨calls, hcalls⟩ := swept_of_step ha (run_of_stepReply hreply) hb
    have hswept : b.store = a.store.applyRemovals.2 := by
      rw [hcalls, Store.revision_applyRemovals] at h
      rcases Store.serveAll_of_revision_eq h with hsame | happlied
      · rw [hcalls, hsame]
      · rw [hcalls, happlied, Store.applyRemovals_applyRemovals]
    refine ⟨hswept, ?_⟩
    rw [hswept]
    exact Store.applyRemovals_eq_self_iff a.store

/-- A system asks once more for a removal that was asked for before the step,
and for the removal of an entity that never was: the step applies the first
request and leaves the revision as it was. -/
theorem swept_of_repeated_request :
    let script : List Scheduled := [⟨.onStore (.remove (.label "host")), none⟩,
      ⟨.onStore (.remove (.handle ⟨9, 0⟩)), none⟩]
    let w := Session.after {}
      [⟨.runner 0, .makeRunner (some 0) defaultStep none⟩,
      ⟨.runner 0, .act (.onStore (.spawn "host" ["hook"] (some "host")))⟩,
      ⟨.runner 0, .addSystem 0 (.script "warden" [] script) (.label "host")
        (Session.jointElement "hook" "cart" "eye")⟩,
      ⟨.runner 0, .act (.onStore (.remove (.label "host")))⟩]
    ∃ a b, w.runner? 0 = some a ∧ ((step 0).left w).runner? 0 = some b ∧
      b.store.revision = a.store.revision ∧ a.store.pending = [⟨1, 0⟩] ∧
      b.store = a.store.applyRemovals.2 ∧ b.store ≠ a.store := by
  intro script w
  have hrunners : (w.runner? 0).isSome = true ∧
      (((step 0).left w).runner? 0).isSome = true := by
    decide +kernel
  obtain ⟨a, ha⟩ := Option.isSome_iff_exists.1 hrunners.1
  obtain ⟨b, hb⟩ := Option.isSome_iff_exists.1 hrunners.2
  have hpending : ∀ a ∈ w.runner? 0, a.store.pending = [⟨1, 0⟩] := by
    decide +kernel
  have hrevision : ∀ a ∈ w.runner? 0, ∀ b ∈ ((step 0).left w).runner? 0,
      b.store.revision = a.store.revision := by decide +kernel
  have hreply : w.stepReply 0 = some true := by decide +kernel
  obtain ⟨hswept, hsame⟩ :=
    (swept_of_revision_eq ha hb (hrevision a ha b hb)).2 hreply
  refine ⟨a, b, ha, hb, hrevision a ha b hb, hpending a ha, hswept,
    fun heq => ?_⟩
  rw [hsame, hpending a ha] at heq
  cases heq

/-- The revision does not show every change: a removal that was asked for before
a step takes an entity away in the step, with the revision the same before and
after it. -/
theorem unnoticed_removal :
    ¬ ∀ (w : World) (r : Nat) (a b : Runner), w.Reachable →
      w.runner? r = some a →
      w.stepReply r = some true → ((step r).left w).runner? r = some b →
      b.store.revision = a.store.revision →
      ∀ e, b.store.has e = a.store.has e := by
  intro hdetects
  let w := Session.after {} [⟨.runner 0, .makeRunner (some 0) defaultStep none⟩,
    ⟨.runner 0, .act (.onStore (.create (some "host")))⟩,
    ⟨.runner 0, .act (.onStore (.remove (.label "host")))⟩]
  have hrunners : (w.runner? 0).isSome = true ∧
      (((step 0).left w).runner? 0).isSome = true := by
    decide +kernel
  obtain ⟨a, ha⟩ := Option.isSome_iff_exists.1 hrunners.1
  obtain ⟨b, hb⟩ := Option.isSome_iff_exists.1 hrunners.2
  have hreply : w.stepReply 0 = some true := by decide +kernel
  have hrevision : ∀ a ∈ w.runner? 0, ∀ b ∈ ((step 0).left w).runner? 0,
      b.store.revision = a.store.revision := by decide +kernel
  have hgone : ∀ a ∈ w.runner? 0, ∀ b ∈ ((step 0).left w).runner? 0,
      b.store.has ⟨1, 0⟩ ≠ a.store.has ⟨1, 0⟩ := by decide +kernel
  exact hgone a ha b hb
    (hdetects w 0 a b (Session.reachable_after _) ha hreply hb
    (hrevision a ha b hb) ⟨1, 0⟩)

end Linkage
