import Linkage.Proofs.World.Onward

/-!
# Entities that nobody removes

An entity of a runner's store can come into danger in two ways only: somebody
asks for its removal, or a joint takes a turn on the store. Whatever else is
done in a world, applying removals included, leaves an entity safe that was safe
before.

## Main results

* `World.Safe.deed`, `World.Path.safe`: what does not endanger an entity leaves
  it safe.
-/

namespace Linkage

open Act

namespace World

variable {w w' : World} {r : Nat} {e : Entity}

/-- In the store of the runner the entity is live and nobody has asked for its
removal. -/
def Safe (r : Nat) (e : Entity) (w : World) : Prop :=
  ∀ s, w.store? (.runner r) = some s → s.Safe e

/-- The deed asks for the removal of the entity, or gives a joint a turn on the
entity's store. -/
def Endangers (r : Nat) (e : Entity) (w : World) : Deed → Prop
  | .call ref op =>
      ref = .runner r ∧ ∃ target ∈ op.removes?, w.names.entity? target = some e
  | .turn _ ref => ref = .runner r
  | _ => False

theorem Safe.of_store (h : Safe r e w)
    (hs : ∀ s, w'.store? (.runner r) = some s → w.store? (.runner r) = some s) :
    Safe r e w' :=
  fun s hs' => h s (hs s hs')

/-- Another store in place, which is safe if it is the runner's. -/
theorem Safe.setStore (h : Safe r e w) {ref : StoreRef} {s s' : Store}
    (hs : w.store? ref = some s) (hsafe : ref = .runner r → s'.Safe e) :
    Safe r e (w.setStore ref s') := by
  intro t ht
  rw [store?_setStore w hs] at ht
  split at ht
  · next heq =>
    cases ht
    exact hsafe heq.symm
  · exact h t ht

theorem Safe.call (h : Safe r e w) (hw : w.Sound) {ref : StoreRef}
    {op : StoreAction} (hd : ¬ Endangers r e w (.call ref op)) :
    Safe r e ((callStore ref op).left w) := by
  rcases left_callStore ref op w with heq | ⟨s, reply, names, s', hs, hrun, heq⟩
  · rwa [heq]
  · rw [heq]
    refine (h.setStore hs fun href => ?_).of_store fun _ ht => ht
    subst href
    refine StoreAction.safe_of_run? hrun (hw.stores hs) (h s hs)
      fun target htarget hentity => ?_
    exact hd ⟨rfl, target, htarget, hentity⟩

theorem Safe.enrol (h : Safe r e w) (q : Nat) (label : Option String)
    (transport : TransportRef) (model : Entity) (element : Element) :
    Safe r e ((Session.addJoint label transport >>= fun j =>
      addSystem q (.joint j) model element).left w) := by
  obtain ⟨entries, heq⟩ := left_enrol q label transport model element w
  obtain ⟨names, -, hadd⟩ := left_addJoint label transport w
  rw [heq]
  refine h.of_store fun s hs => ?_
  have hconfigured := store?_register hs
  simp only [store?, runner?_configureJoint, hadd] at hconfigured
  exact hconfigured

/-- A deed that does not endanger an entity leaves it safe. -/
theorem Safe.deed (h : Safe r e w) (hw : w.Sound)
    (hr : r < w.runners.length) {d : Deed} (hd : ¬ Endangers r e w d) :
    Safe r e (d.apply w) := by
  cases d with
  | call ref op => exact h.call hw hd
  | copy ref target =>
      simp only [Deed.apply]
      cases w.store? ref with
      | none => exact h
      | some s =>
          have hother : (.standalone target : StoreRef) = .runner r →
              s.Safe e := by
            intro heq
            cases heq
          exact h.setStore rfl hother
  | turn i ref =>
      show Safe r e ((updateJoint i ref).left w)
      rcases left_updateJoint i ref w with heq | ⟨slot, s, y, -, hs, -, heq⟩
      · rwa [heq]
      · rw [heq]
        refine h.of_store fun t ht => ?_
        rw [store?_settle _ _ _ _ _ hs, if_neg fun hsame => hd hsame.symm] at ht
        exact ht
  | configure i ref model element =>
      refine h.of_store fun s hs => ?_
      simp only [Deed.apply, store?, runner?_configureJoint] at hs
      exact hs
  | sweep q =>
      show Safe r e ((applyRemovals q).left w)
      rcases left_applyRemovals q w with ⟨-, heq⟩ | ⟨s, hs, heq⟩
      · rwa [heq]
      · rw [heq]
        refine h.setStore hs fun hq => ?_
        rw [hq] at hs
        exact (h s hs).applyRemovals
  | clock q info =>
      refine h.of_store fun s hs => ?_
      simp only [Deed.apply, store?_setClock] at hs
      exact hs
  | makeJoint label transport =>
      obtain ⟨names, -, heq⟩ := left_addJoint label transport w
      show Safe r e ((Session.addJoint label transport).left w)
      rw [heq]
      exact h
  | enrol q label transport model element =>
      exact h.enrol q label transport model element
  | enlistScript q name update =>
      exact h.of_store fun _ hs => store?_register hs
  | enlistInert q => exact h.of_store fun _ hs => store?_register hs
  | makeRunner b dt =>
      obtain ⟨runner, -, -, heq⟩ := left_makeRunner b dt w
      refine h.of_store fun s hs => ?_
      have hrunner : ((makeRunner b dt).left w).runner? r = w.runner? r := by
        rw [heq]
        exact (runner?_append w runner r).trans (if_neg (Nat.ne_of_lt hr))
      simp only [Deed.apply, store?, hrunner] at hs
      exact hs
  | dropRunner q =>
      show Safe r e ((Linkage.dropRunner q).left w)
      rcases left_dropRunner q w with heq | ⟨runner, hq, heq⟩
      · rwa [heq]
      · rw [heq]
        refine h.of_store fun s hs => ?_
        have hrunner := runner?_setRunner_of hq none r
        obtain ⟨b, hb, rfl⟩ := Option.map_eq_some_iff.1 hs
        have hb' : (w.setRunner q none).runner? r = some b := hb
        rw [hrunner] at hb'
        split at hb'
        · cases hb'
        · simp [store?, hb']

/-- On a path of deeds that do not endanger an entity it stays safe. -/
theorem Path.safe {P : World → Deed → Prop} {u v : World} (h : Path P u v)
    (hu : u.Sound) (hr : r < u.runners.length)
    (hP : ∀ {w : World} {d : Deed}, P w d → ¬ Endangers r e w d)
    (hsafe : Safe r e u) : Safe r e v := by
  have hR : Chained fun w w' : World =>
      r < w.runners.length → Safe r e w → r < w'.runners.length ∧ Safe r e w' :=
    { refl := fun _ hr hw => ⟨hr, hw⟩
      trans := fun h h' hr hw => h' (h hr hw).1 (h hr hw).2 }
  refine (h.keeps hR (fun _ hreaction hr hw => ?_) (fun hv hd hr hw => ?_)
    hu hr hsafe).2
  · refine ⟨Nat.lt_of_lt_of_le hr hreaction.onward.runners,
      hw.of_store fun s hs => ?_⟩
    exact (hreaction.store? _).symm.trans hs
  · exact ⟨Nat.lt_of_lt_of_le hr (onward_deed _ _).runners,
      hw.deed hv hr (hP hd)⟩

end World

end Linkage
