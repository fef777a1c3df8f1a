import Linkage.Proofs.Store.Calls

/-!
# Models and links that stay alive

A handle that named a live model or a live link once names it until the removals
that were asked for are applied and it is among them. No call takes the
component of a live entity away, so as long as the entity lives it stays what it
is.

## Main results

* `Store.Lives.serve`: only applying its removal ends the life of a model or a
  link.
* `Store.lives_or_removes`: after calls it still lives, or one of them has
  removed it.
-/

namespace Linkage

/-- What an entity is in a scene. -/
inductive Role
  | model
  | link

namespace Table

/-- A write under a live handle keeps the values of live handles in place. -/
theorem contains_insert {α : Type} {t : Table α} {p : Pool}
    (ht : t.KeysIn (p.isLive · = true)) {e f : Entity} (he : p.isLive e = true)
    (hf : t.contains f = true) (a : α) :
    (t.insert e a).contains f = true := by
  by_cases hnull : e.isNull = true
  · have hrefused : t.insert e a = t := by simp [insert, refuses, hnull]
    rwa [hrefused]
  · rw [contains, get?_insert ht he (by simpa using hnull)]
    split
    · rfl
    · exact hf

end Table

namespace Store

/-- Whether an entity carries the component of a role. -/
def plays (s : Store) (e : Entity) : Role → Bool
  | .model => s.isModel e
  | .link => s.isLink e

/-- The entity is live and carries the component of a role. -/
structure Lives (s : Store) (role : Role) (e : Entity) : Prop where
  live : s.has e = true
  plays : s.plays e role = true

/-- One of the calls applies the removal of the entity. -/
def Removes (s : Store) (calls : List StoreCall) (e : Entity) : Prop :=
  ∃ earlier later, calls = earlier ++ .applyRemovals :: later ∧
    e ∈ (s.serveAll earlier).pending

variable {s : Store} {role : Role} {e : Entity}

theorem plays_of_components {t : Store} (h : t.components = s.components) :
    t.plays e role = s.plays e role := by
  cases role <;> simp only [plays, isModel, isLink, h]

/-- An attachment takes no component away. -/
theorem Lives.put (h : s.Lives role e) (hs : s.Sound) (f : Entity)
    (a : Attachment) :
    (s.put f a).Lives role e := by
  refine { live := (has_put s f a e).trans h.live, plays := ?_ }
  have hplays := h.plays
  cases hf : s.has f with
  | true =>
      have hmodel := Table.contains_insert (f := e) hs.components.models hf
      have hlink := Table.contains_insert (f := e) hs.components.links hf
      cases a <;> cases role <;>
        simp only [Store.put, addModel, addLink, setName, setParent, setJoint,
          attach, hf, if_true]
      case model.model => exact hmodel hplays ()
      case link.link => exact hlink hplays ()
      all_goals exact hplays
  | false =>
      have hsame : s.put f a = s := by
        cases a <;>
          simp [Store.put, addModel, addLink, setName, setParent,
            setJoint, attach, hf]
      rw [hsame]
      exact hplays

/-- Applying removals leaves the components of the other live entities in
place. -/
theorem Lives.applyRemovals (h : s.Lives role e) (he : e ∉ s.pending) :
    s.applyRemovals.2.Lives role e := by
  have hlive : s.applyRemovals.2.has e = true :=
    (has_applyRemovals s e).2 ⟨he, h.live⟩
  have hrecord := record?_applyRemovals s e
  rw [if_neg he, record?, record?, if_pos hlive, if_pos h.live,
    Option.some.injEq] at hrecord
  refine { live := hlive, plays := ?_ }
  have hplays := h.plays
  cases role with
  | model => exact (congrArg Record.isModel hrecord).trans hplays
  | link => exact (congrArg Record.isLink hrecord).trans hplays

/-- Only applying its removal ends the life of a model or a link. -/
theorem Lives.serve (h : s.Lives role e) (hs : s.Sound) {call : StoreCall}
    (hcall : call = .applyRemovals → e ∉ s.pending) :
    (s.serve call).2.Lives role e := by
  cases call with
  | create => exact { live := (has_create hs e).2 (.inr h.live),
                      plays := h.plays }
  | attach f a => exact h.put hs f a
  | requestRemoval f =>
      have hcomponents : (s.requestRemoval f).components = s.components := by
        unfold requestRemoval
        split <;> rfl
      exact { live := (has_requestRemoval s f e).trans h.live
              plays := (plays_of_components hcomponents).trans h.plays }
  | applyRemovals => exact h.applyRemovals (hcall rfl)

/-- After calls a model or a link still lives, or one of the calls has removed
it. -/
theorem lives_or_removes (h : s.Lives role e) (hs : s.Sound)
    (calls : List StoreCall) :
    (s.serveAll calls).Lives role e ∨ s.Removes calls e := by
  induction calls generalizing s with
  | nil => exact .inl h
  | cons call calls ih =>
      by_cases hcall : call = .applyRemovals ∧ e ∈ s.pending
      · obtain ⟨rfl, hmem⟩ := hcall
        exact .inr ⟨[], calls, rfl, hmem⟩
      · rcases ih (h.serve hs fun heq hmem => hcall ⟨heq, hmem⟩)
            (hs.serve call) with
          hlives | ⟨earlier, later, rfl, hmem⟩
        · exact .inl hlives
        · exact .inr ⟨call :: earlier, later, rfl, hmem⟩

/-- Calls that apply no removals end no life. -/
theorem Lives.serveAll (h : s.Lives role e) (hs : s.Sound)
    {calls : List StoreCall} (hcalls : .applyRemovals ∉ calls) :
    (s.serveAll calls).Lives role e := by
  rcases lives_or_removes h hs calls with hlives | ⟨earlier, later, rfl, -⟩
  · exact hlives
  · exact absurd (by simp) hcalls

end Store

end Linkage
