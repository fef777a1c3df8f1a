import Linkage.Proofs.Entity.Handles
import Linkage.Store.Query

/-!
# The first entity of a query

A query that is asked for one entity answers with the first that it selects.
Since the live entities are listed in slot order, and two live entities never
share a slot, that is the one live entity of lowest index that satisfies the
query; dead handles of the same slot play no part.

## Main results

* `Store.first?_eq_some_iff`, `Store.first?_eq_none_iff`: what the first entity
  of a query is.
* `Store.first?_modelNamed_eq_some_iff`, `Store.linkNamed?_eq_some_iff`: the
  same for the model of a name and for a link of a model.
-/

namespace Linkage

/-- A list can be split before one item only if that item ends the first part of
no other split. -/
theorem eq_of_splits {α : Type} {before before' after after' : List α}
    {x x' : α} (h : before ++ x :: after = before' ++ x' :: after')
    (hx : ¬ before ++ [x] <+: before') (hx' : ¬ before' ++ [x'] <+: before) :
    before = before' ∧ x = x' := by
  have hfirst : before ++ [x] <+: before' ++ x' :: after' :=
    ⟨after, by rw [← h]; simp⟩
  have hother : before' ++ [x'] <+: before' ++ x' :: after' := ⟨after', by simp⟩
  have hsame : before ++ [x] = before' ++ [x'] := by
    rcases List.prefix_or_prefix_of_prefix hfirst hother with hle | hle
    · exact (List.prefix_concat_iff.1 hle).resolve_right hx
    · exact ((List.prefix_concat_iff.1 hle).resolve_right hx').symm
  obtain ⟨hbefore, hlast⟩ := List.append_inj' hsame rfl
  exact ⟨hbefore, by simpa using hlast⟩

namespace Store

/-- The live entity of lowest slot index that has a property. -/
structure IsFirst (s : Store) (P : Entity → Prop) (e : Entity) : Prop where
  live : s.has e = true
  holds : P e
  least : ∀ f, s.has f = true → P f → e.index ≤ f.index

variable {s : Store}

/-- No two live entities are both of lowest index. -/
theorem IsFirst.unique {P : Entity → Prop} {e f : Entity} (he : s.IsFirst P e)
    (hf : s.IsFirst P f) : e = f :=
  Pool.eq_of_isLive he.live hf.live
    (Nat.le_antisymm (he.least f hf.live hf.holds)
      (hf.least e he.live he.holds))

theorem IsFirst.congr {P Q : Entity → Prop} (hPQ : ∀ f, P f ↔ Q f)
    {e : Entity} :
    s.IsFirst P e ↔ s.IsFirst Q e := by
  rw [show P = Q from funext fun f => propext (hPQ f)]

theorem first?_eq_none_iff (q : Query) :
    s.first? q = none ↔ ∀ e, s.has e = true → ¬ s.satisfies q e = true := by
  rw [first?, List.head?_eq_none_iff, List.eq_nil_iff_forall_not_mem]
  simp only [mem_select_iff, not_and]

theorem isFirst_of_first? {q : Query} {e : Entity} (h : s.first? q = some e) :
    s.IsFirst (fun f => s.satisfies q f = true) e := by
  obtain ⟨rest, hselect⟩ := List.head?_eq_some_iff.1 h
  have hsorted := s.select_sorted q
  rw [hselect] at hsorted
  have hmem := (mem_select_iff s q e).1 (by simp [hselect])
  refine { live := hmem.1, holds := hmem.2, least := ?_ }
  intro f hlive hsat
  have hf := (mem_select_iff s q f).2 ⟨hlive, hsat⟩
  rw [hselect] at hf
  rcases List.mem_cons.1 hf with rfl | hf
  · exact Nat.le_refl _
  · exact Nat.le_of_lt ((List.pairwise_cons.1 hsorted).1 f hf)

/-- A query answers with the live entity of lowest index that satisfies it. -/
theorem first?_eq_some_iff (q : Query) (e : Entity) :
    s.first? q = some e ↔ s.IsFirst (fun f => s.satisfies q f = true) e := by
  constructor
  · exact isFirst_of_first?
  · intro h
    cases hfirst : s.first? q with
    | none => exact absurd h.holds ((first?_eq_none_iff q).1 hfirst e h.live)
    | some f => rw [(isFirst_of_first? hfirst).unique h]

/-! ## Models and links by name -/

/-- The entity is a model of a name. -/
def ModelNamed (s : Store) (name : String) (e : Entity) : Prop :=
  s.isModel e = true ∧ s.name? e = some name

/-- The entity is a link of a model, with a name. -/
def LinkNamed (s : Store) (model : Entity) (name : String)
    (e : Entity) : Prop :=
  s.isLink e = true ∧ s.parent? e = some model ∧ s.name? e = some name

theorem satisfies_modelNamed_iff (name : String) (e : Entity) :
    s.satisfies (modelNamed name) e = true ↔ s.ModelNamed name e := by
  simp [satisfies, modelNamed, ModelNamed]

theorem satisfies_linksNamed_iff (model : Entity) (name : String) (e : Entity) :
    s.satisfies (linksNamed model name) e = true ↔
      s.LinkNamed model name e := by
  simp [satisfies, linksNamed, LinkNamed, and_assoc,
    and_comm (a := s.name? e = some name)]

theorem first?_modelNamed_eq_some_iff (name : String) (e : Entity) :
    s.first? (modelNamed name) = some e ↔ s.IsFirst (s.ModelNamed name) e := by
  rw [first?_eq_some_iff]
  exact IsFirst.congr (satisfies_modelNamed_iff name)

theorem linkNamed?_eq_some_iff (model : Entity) (name : String) (e : Entity) :
    s.linkNamed? model name = some e ↔
      s.IsFirst (s.LinkNamed model name) e := by
  rw [linkNamed?, first?_eq_some_iff]
  exact IsFirst.congr (satisfies_linksNamed_iff model name)

theorem linkNamed?_eq_none_iff (model : Entity) (name : String) :
    s.linkNamed? model name = none ↔ ∀ e, s.has e = true →
    ¬ s.LinkNamed model name e := by
  simp only [linkNamed?, first?_eq_none_iff, satisfies_linksNamed_iff]

end Store

end Linkage
