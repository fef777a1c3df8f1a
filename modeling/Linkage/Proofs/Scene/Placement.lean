import Linkage.Proofs.Scene.Additions
import Linkage.Proofs.Store.Selection
import Linkage.Scene

/-!
# Where a scene is placed in a store

A scene that passes its check is placed in a store model by model, each followed
by its links. Names tell the placed entities apart: a model of the scene is the
only live model of its name, and a link that it declares is the only live link
of that name under it, whatever the store held before, as long as no entity of
the store names a parent that the store has not issued.

## Main results

* `Scene.check_eq_ok_iff`: what the check of a scene finds out.
* `Placed.only_model`, `Placed.exists_only_link`: names single out what was
  placed.
-/

namespace Linkage

/-! ## The check -/

namespace Scene

variable {s : Store}

theorem firstRepeated_eq_none_iff (seen names : List String) :
    firstRepeated seen names = none ↔ names.Nodup ∧ ∀ name ∈ names,
    name ∉ seen := by
  induction names generalizing seen with
  | nil => simp [firstRepeated]
  | cons name names ih =>
      unfold firstRepeated
      by_cases hseen : name ∈ seen
      · simp [hseen]
      · simp only [List.contains_eq_mem, decide_eq_true_eq, hseen, if_false, ih,
          List.nodup_cons, List.mem_cons, not_or, forall_eq_or_imp,
          not_false_eq_true, true_and]
        constructor
        · rintro ⟨hnodup, hnew⟩
          exact ⟨⟨fun hmem => (hnew name hmem).1 rfl, hnodup⟩,
            fun n hn => (hnew n hn).2⟩
        · rintro ⟨⟨hfirst, hnodup⟩, hold⟩
          exact ⟨hnodup, fun n hn => ⟨fun heq => hfirst (heq ▸ hn), hold n hn⟩⟩

theorem firstDuplicate_eq_none_iff (seen : List String)
    (models : List ModelDecl) :
    firstDuplicate s seen models = none ↔
      (∀ m ∈ models, s.first? (Store.modelNamed m.name) = none ∧ m.name ∉ seen ∧
        m.links.Nodup) ∧
        (models.map ModelDecl.name).Nodup := by
  induction models generalizing seen with
  | nil => simp [firstDuplicate]
  | cons m models ih =>
      have hlinks : firstRepeated [] m.links = none ↔ m.links.Nodup := by
        simp [firstRepeated_eq_none_iff]
      unfold firstDuplicate
      by_cases htaken :
        ((s.first? (Store.modelNamed m.name)).isSome ||
          seen.contains m.name) = true
      · rw [if_pos htaken]
        constructor
        · intro h
          cases h
        · rintro ⟨hall, -⟩
          obtain ⟨hfree, hnew, -⟩ := hall m (by simp)
          simp [hfree, hnew] at htaken
      · rw [if_neg htaken]
        simp only [Bool.or_eq_true, List.contains_eq_mem,
          decide_eq_true_eq, not_or, Bool.not_eq_true,
          Option.isSome_eq_false_iff, Option.isNone_iff_eq_none] at htaken
        cases hrepeated : firstRepeated [] m.links with
        | some name =>
            have hnot : ¬ m.links.Nodup := fun h => by
              simp [hlinks.2 h] at hrepeated
            simp [hnot]
        | none =>
            simp only [ih, List.mem_cons, not_or, List.map_cons,
              List.nodup_cons, List.mem_map, forall_eq_or_imp]
            have hown := hlinks.1 hrepeated
            constructor
            · rintro ⟨hall, hnodup⟩
              refine ⟨⟨⟨htaken.1, htaken.2, hown⟩, fun d hd => ?_⟩, ?_, hnodup⟩
              · exact ⟨(hall d hd).1, (hall d hd).2.1.2, (hall d hd).2.2⟩
              · rintro ⟨d, hd, heq⟩
                exact (hall d hd).2.1.1 heq
            · rintro ⟨⟨-, hall⟩, hfirst, hnodup⟩
              refine ⟨fun d hd => ⟨(hall d hd).1, ⟨?_, (hall d hd).2.1⟩,
                (hall d hd).2.2⟩, hnodup⟩
              exact fun heq => hfirst ⟨d, hd, heq⟩

/-- A scene passes its check if the names of its models are free and differ from
each other, and so do the names of the links of each model. -/
theorem check_eq_ok_iff (scene : Scene) :
    scene.check s = .ok () ↔
      (∀ m ∈ scene.models, s.first? (Store.modelNamed m.name) = none) ∧
        (scene.models.map ModelDecl.name).Nodup ∧ ∀ m ∈ scene.models,
        m.links.Nodup := by
  have hcheck : scene.check s = .ok () ↔
      firstDuplicate s [] scene.models = none := by
    unfold check
    cases firstDuplicate s [] scene.models <;> simp
  rw [hcheck, firstDuplicate_eq_none_iff]
  constructor
  · rintro ⟨hall, hnodup⟩
    exact ⟨fun m hm => (hall m hm).1, hnodup, fun m hm => (hall m hm).2.2⟩
  · rintro ⟨hfree, hnodup, hlinks⟩
    exact ⟨fun m hm => ⟨hfree m hm, by simp, hlinks m hm⟩, hnodup⟩

end Scene

/-! ## Placements -/

/-- A model of a scene with the entities that stand for it and for its links. -/
structure Placement where
  decl : ModelDecl
  entity : Entity
  links : List Entity
  length_links : links.length = decl.links.length

namespace Placement

/-- The model is added first, and its links after it. -/
def additions (p : Placement) : List Addition :=
  ⟨p.entity, p.decl.name, none⟩ ::
    List.zipWith (fun name e => ⟨e, name, some p.entity⟩) p.decl.links p.links

/-- The plugins that wait to be configured on the model. -/
def plugins (p : Placement) : List PendingPlugin :=
  p.decl.plugins.map fun d => ⟨p.entity, d.toElement⟩

variable {p q : Placement} {a : Addition}

theorem own_mem_additions (p : Placement) :
    ⟨p.entity, p.decl.name, none⟩ ∈ p.additions :=
  List.mem_cons_self

/-- What is added for a model is the model, or one of its links. -/
theorem mem_additions_iff :
    a ∈ p.additions ↔ a = ⟨p.entity, p.decl.name, none⟩ ∨
      ∃ (i : Nat) (e : Entity), p.links[i]? = some e ∧
        p.decl.links[i]? = some a.name ∧
        a = ⟨e, a.name, some p.entity⟩ := by
  unfold additions
  rw [List.mem_cons, List.mem_iff_getElem?]
  refine or_congr Iff.rfl ?_
  constructor
  · rintro ⟨i, hi⟩
    rw [List.getElem?_zipWith_eq_some] at hi
    obtain ⟨name, e, hname, he, rfl⟩ := hi
    exact ⟨i, e, he, hname, rfl⟩
  · rintro ⟨i, e, he, hname, heq⟩
    refine ⟨i, List.getElem?_zipWith_eq_some.2 ⟨a.name, e, hname, he, heq.symm⟩⟩

end Placement

namespace Store

/-! ## Names -/

/-- The only live entity that has a property. -/
structure IsOnly (s : Store) (P : Entity → Prop) (e : Entity) : Prop where
  live : s.has e = true
  holds : P e
  only : ∀ f, s.has f = true → P f → f = e

variable {s t : Store} {e f : Entity} {r : Record} {name : String}

theorem IsOnly.isFirst {P : Entity → Prop} (h : s.IsOnly P e) : s.IsFirst P e :=
  { live := h.live
    holds := h.holds
    least := fun f hlive hf => Nat.le_of_eq (h.only f hlive hf ▸ rfl) }

theorem modelNamed_iff_of_record? (h : s.record? e = some r) :
    s.ModelNamed name e ↔ r.isModel = true ∧ r.name = some name := by
  obtain ⟨-, rfl⟩ := (record?_eq_some_iff s e r).1 h
  exact Iff.rfl

theorem linkNamed_iff_of_record? {model : Entity} (h : s.record? e = some r) :
    s.LinkNamed model name e ↔
      r.isLink = true ∧ r.parent = some model ∧ r.name = some name := by
  obtain ⟨-, rfl⟩ := (record?_eq_some_iff s e r).1 h
  exact Iff.rfl

theorem exists_record?_of_has (h : s.has e = true) :
    ∃ r, s.record? e = some r := by
  rw [← record?_isSome] at h
  exact Option.isSome_iff_exists.1 h

end Store

/-- A scene that passed its check in a store is placed there, and no entity that
was there before has a parent that the store had not issued. -/
structure Placed (s : Store) (placed : List Placement) (t : Store) : Prop where
  sound : s.Sound
  capacity : t.WithinCapacity
  check : Scene.check ⟨placed.map Placement.decl⟩ s = .ok ()
  parents : ∀ e p, s.parent? e = some p → s.pool.Issued p
  adds : s.Adds (placed.flatMap Placement.additions) t

namespace Placed

variable {s t : Store} {placed : List Placement} {p q : Placement} {e : Entity}

theorem record? (h : Placed s placed t) (hp : p ∈ placed) {a : Addition}
    (ha : a ∈ p.additions) : t.record? a.entity = some a.record :=
  h.adds.record?_of_mem h.sound h.capacity (List.mem_flatMap.2 ⟨p, hp, ha⟩)

/-- The entities of an addition tell it from the others. -/
theorem addition_eq (h : Placed s placed t) (hp : p ∈ placed) (hq : q ∈ placed)
    {a b : Addition} (ha : a ∈ p.additions) (hb : b ∈ q.additions)
    (heq : a.entity = b.entity) : a = b := by
  have hnodup := h.adds.nodup h.sound
  have hmema : a ∈ placed.flatMap Placement.additions :=
    List.mem_flatMap.2 ⟨p, hp, ha⟩
  have hmemb : b ∈ placed.flatMap Placement.additions :=
    List.mem_flatMap.2 ⟨q, hq, hb⟩
  exact List.inj_on_of_nodup_map hnodup hmema hmemb heq

/-- The name of a model tells its placement from the others. -/
theorem placement_eq (h : Placed s placed t) (hp : p ∈ placed) (hq : q ∈ placed)
    (hname : p.decl.name = q.decl.name) : p = q := by
  obtain ⟨-, hnodup, -⟩ := (Scene.check_eq_ok_iff _).1 h.check
  rw [List.map_map] at hnodup
  exact List.inj_on_of_nodup_map hnodup hp hq hname

/-- A live entity is an addition of some placement or was there before. -/
theorem record?_cases (h : Placed s placed t) {r : Record}
    (hr : t.record? e = some r) :
    (∃ q ∈ placed, ∃ a ∈ q.additions, a.entity = e ∧ r = a.record) ∨
    s.record? e = some r := by
  rcases h.adds.record?_cases h.sound h.capacity e with
    ⟨a, ha, hentity, hrecord⟩ | ⟨-, hrecord⟩
  · obtain ⟨q, hq, ha⟩ := List.mem_flatMap.1 ha
    rw [hr, Option.some.injEq] at hrecord
    exact .inl ⟨q, hq, a, ha, hentity, hrecord⟩
  · exact .inr (hrecord ▸ hr)

/-- The models of a scene are the only live models of their names. -/
theorem only_model (h : Placed s placed t) (hp : p ∈ placed) :
    t.IsOnly (t.ModelNamed p.decl.name) p.entity := by
  have hown := h.record? hp p.own_mem_additions
  refine { live := ((Store.record?_eq_some_iff _ _ _).1 hown).1
           holds := (Store.modelNamed_iff_of_record? hown).2
             ⟨rfl, rfl⟩, only := ?_ }
  intro f hlive hnamed
  obtain ⟨r, hr⟩ := Store.exists_record?_of_has hlive
  obtain ⟨hmodel, hname⟩ := (Store.modelNamed_iff_of_record? hr).1 hnamed
  rcases h.record?_cases hr with ⟨q, hq, a, ha, rfl, rfl⟩ | hold
  · rcases Placement.mem_additions_iff.1 ha with rfl | ⟨i, e, -, -, heq⟩
    · have hsame := h.placement_eq hq hp (Option.some.inj hname)
      rw [hsame]
    · rw [heq] at hmodel
      cases hmodel
  · obtain ⟨hfree, -, -⟩ := (Scene.check_eq_ok_iff _).1 h.check
    have hnone := hfree p.decl (List.mem_map.2 ⟨p, hp, rfl⟩)
    have hnot := (Store.first?_eq_none_iff _).1 hnone f
      ((Store.record?_eq_some_iff _ _ _).1 hold).1
    rw [Store.satisfies_modelNamed_iff] at hnot
    exact absurd ((Store.modelNamed_iff_of_record? hold).2 ⟨hmodel, hname⟩) hnot

/-- A link that a model of a scene declares is the only live link of its name
under the model. -/
theorem exists_only_link (h : Placed s placed t) (hp : p ∈ placed)
    {name : String} (hname : name ∈ p.decl.links) :
    ∃ link, t.IsOnly (t.LinkNamed p.entity name) link := by
  obtain ⟨i, hi⟩ := List.mem_iff_getElem?.1 hname
  have hlt : i < p.links.length := by
    rw [p.length_links]
    exact (List.getElem?_eq_some_iff.1 hi).1
  have hlink : p.links[i]? = some p.links[i] := List.getElem?_eq_getElem hlt
  have hmem : (⟨p.links[i], name, some p.entity⟩ : Addition) ∈ p.additions :=
    Placement.mem_additions_iff.2 (.inr ⟨i, _, hlink, hi, rfl⟩)
  have hrecord := h.record? hp hmem
  refine ⟨p.links[i], ?_⟩
  refine { live := ((Store.record?_eq_some_iff _ _ _).1 hrecord).1
           holds := (Store.linkNamed_iff_of_record? hrecord).2
             ⟨rfl, rfl, rfl⟩, only := ?_ }
  intro f hlive hnamed
  obtain ⟨r, hr⟩ := Store.exists_record?_of_has hlive
  obtain ⟨-, hparent, hnamed⟩ := (Store.linkNamed_iff_of_record? hr).1 hnamed
  rcases h.record?_cases hr with ⟨q, hq, a, ha, rfl, rfl⟩ | hold
  · rcases Placement.mem_additions_iff.1 ha with rfl | ⟨k, e, he, hk, heq⟩
    · cases hparent
    · have hmodel : q.entity = p.entity := by
        rw [heq] at hparent
        exact Option.some.inj hparent
      have haname : a.name = name := Option.some.inj hnamed
      have hsame : q = p := by
        have hown := h.addition_eq hq hp q.own_mem_additions
          p.own_mem_additions hmodel
        exact h.placement_eq hq hp (congrArg Addition.name hown)
      subst hsame
      obtain ⟨-, -, hlinks⟩ := (Scene.check_eq_ok_iff _).1 h.check
      have hnodup := hlinks q.decl (List.mem_map.2 ⟨q, hp, rfl⟩)
      have hindex : k = i := by
        rw [haname] at hk
        have hklt := (List.getElem?_eq_some_iff.1 hk).1
        exact (List.getElem?_inj hklt hnodup).1 (hk.trans hi.symm)
      rw [hindex, hlink, Option.some.injEq] at he
      rw [heq, ← he]
  · have hold' : s.parent? f = some p.entity := by
      obtain ⟨-, rfl⟩ := (Store.record?_eq_some_iff _ _ _).1 hold
      exact hparent
    have hnew := h.adds.not_issued h.sound (List.mem_map.2
      ⟨_, List.mem_flatMap.2 ⟨p, hp, p.own_mem_additions⟩, rfl⟩)
    exact absurd (h.parents f p.entity hold') hnew

end Placed

end Linkage
