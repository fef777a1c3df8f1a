import Linkage.Proofs.Joint.SceneJoints
import Linkage.Proofs.Scene.Listing

/-!
# Names that stay unambiguous

A scene is checked once, before any of it is spawned, and only against the names
that are live at that moment. That is enough for good: a name that was free
stays free while the scene is spawned, for listeners cannot touch the store;
joints bear no names; and a removal only frees names. A link keeps the handle of
its parent for as long as it lives, whatever becomes of the parent. Since no
handle is issued twice, no later model is taken for that parent, not even one in
the same slot.

So the names of live models are all different, and so are the names of the live
links under one parent, after every run of scenes, joints and removals. A scene
whose spawning breaks off, because a listener does, leaves the first part of it
in the store; that part passes the check as the whole did.

## Main results

* `Scene.Part.check`: a part of a scene passes the check that the scene passes.
* `Store.Named.placed`, `Store.Named.churns`, `Store.Named.applyRemovals`: what
  keeps names unambiguous.
* `unambiguous_of_populated`: names are unambiguous after every run.
-/

namespace Linkage

open Act World

/-! ## What a scene names -/

namespace Placed

variable {s t : Store} {placed : List Placement} {e parent : Entity}
  {name : String}

/-- A live model is the only one of its name, or it was there before. -/
theorem model_cases (h : Placed s placed t) (he : t.has e = true)
    (hname : t.ModelNamed name e) :
    t.IsOnly (t.ModelNamed name) e ∨ s.has e = true ∧ s.ModelNamed name e := by
  obtain ⟨r, hr⟩ := Store.exists_record?_of_has he
  have hown := (Store.modelNamed_iff_of_record? hr).1 hname
  rcases h.record?_cases hr with ⟨q, hq, a, ha, rfl, rfl⟩ | hold
  · rcases Placement.mem_additions_iff.1 ha with rfl | ⟨i, f, -, -, heq⟩
    · have hsame : q.decl.name = name := Option.some.inj hown.2
      exact .inl (hsame ▸ h.only_model hq)
    · rw [heq] at hown
      cases hown.1
  · exact .inr ⟨((Store.record?_eq_some_iff _ _ _).1 hold).1,
      (Store.modelNamed_iff_of_record? hold).2 hown⟩

/-- A live link is the only one of its name and parent, or it was there
before. -/
theorem link_cases (h : Placed s placed t) (he : t.has e = true)
    (hname : t.LinkNamed parent name e) :
    t.IsOnly (t.LinkNamed parent name) e ∨ s.has e = true ∧
    s.LinkNamed parent name e := by
  obtain ⟨r, hr⟩ := Store.exists_record?_of_has he
  have hown := (Store.linkNamed_iff_of_record? hr).1 hname
  rcases h.record?_cases hr with ⟨q, hq, a, ha, rfl, rfl⟩ | hold
  · rcases Placement.mem_additions_iff.1 ha with rfl | ⟨i, f, -, hi, heq⟩
    · cases hown.1
    · have hparent : q.entity = parent := by
        rw [heq] at hown
        exact Option.some.inj hown.2.1
      have hsame : a.name = name := Option.some.inj hown.2.2
      subst hparent hsame
      obtain ⟨link, honly⟩ := h.exists_only_link hq (List.mem_of_getElem? hi)
      rw [honly.only a.entity he hname]
      exact .inl honly
  · exact .inr ⟨((Store.record?_eq_some_iff _ _ _).1 hold).1,
      (Store.linkNamed_iff_of_record? hold).2 hown⟩

end Placed

/-! ## How many entities are live -/

/-- A creation makes one more slot occupied. -/
theorem Pool.count_create {p : Pool} (hp : p.WellFormed) :
    p.create.2.count = p.count + 1 := by
  cases hfree : p.free with
  | nil => simp [create_of_nil hfree, count, List.countP_append]
  | cons i rest =>
      obtain ⟨g, hg⟩ := hp.vacant i (by simp [hfree])
      rw [create_of_cons hfree hg]
      have hslot : p.slots[i - 1]? = some ⟨g, false⟩ := by
        unfold slot? at hg
        split at hg
        · cases hg
        · exact hg
      obtain ⟨hlt, hget⟩ := List.getElem?_eq_some_iff.1 hslot
      show (p.slots.set (i - 1) ⟨g, true⟩).countP Slot.occupied = _
      simp [List.countP_set hlt, hget, count]

namespace Store

variable {s t u : Store} {n m : Nat} {as bs : List Addition}

theorem Adds.trans (h : s.Adds as t) (h' : t.Adds bs u) :
    s.Adds (as ++ bs) u := by
  induction h' with
  | nil => rwa [List.append_nil]
  | snoc _ name parent ih =>
      rw [← List.append_assoc]
      exact .snoc ih name parent

theorem Adds.single (s : Store) (name : String) (parent : Option Entity) :
    s.Adds [⟨s.create.1, name, parent⟩] (s.added name parent) :=
  .snoc (.nil s) name parent

theorem Adds.size (h : s.Adds as t) (hs : s.Sound) :
    t.size = s.size + as.length := by
  induction h with
  | nil => rfl
  | @snoc t as before name parent ih =>
      have hcount : (t.added name parent).size = t.size + 1 :=
        (congrArg Pool.count (pool_added t name parent)).trans
          (Pool.count_create (before.sound hs).pool)
      rw [hcount, ih, List.length_append]
      rfl

theorem Adds.counts (h : s.Adds as t) (hs : s.Sound) (hn : s.pool.Counts n) :
    t.pool.Counts (n + as.length) := by
  induction h with
  | nil => exact hn
  | snoc before name parent ih =>
      rw [pool_added, List.length_append]
      exact ih.create (before.sound hs).pool

theorem Churns.sound (h : s.Churns n t) (hs : s.Sound) : t.Sound := by
  induction h with
  | refl => exact hs
  | attach _ k ih => exact ih.create.setJoint _ k
  | request _ e ih => exact ih.requestRemoval e

theorem Churns.size (h : s.Churns n t) (hs : s.Sound) :
    t.size = s.size + n := by
  induction h with
  | refl => rfl
  | @attach t n before k ih =>
      have hcount : (t.create.2.setJoint t.create.1 k).size = t.size + 1 :=
        (congrArg Pool.count (pool_attach _ _ _)).trans
          (Pool.count_create (before.sound hs).pool)
      rw [hcount, ih, Nat.add_assoc]
  | @request t n before e ih =>
      rw [← ih]
      exact congrArg Pool.count (pool_requestRemoval t e)

/-! ## Unambiguous names -/

/-- No two live models have the same name, and no two live links of one parent
do. -/
structure Unambiguous (s : Store) : Prop where
  models : ∀ {name e f}, s.has e = true → s.has f = true →
    s.ModelNamed name e → s.ModelNamed name f → e = f
  links : ∀ {parent name e f}, s.has e = true → s.has f = true →
    s.LinkNamed parent name e → s.LinkNamed parent name f → e = f

/-- After a number of creations names are unambiguous, and whatever is named as
a parent was issued. -/
structure Named (s : Store) (n : Nat) : Prop where
  sound : s.Sound
  counts : s.pool.Counts n
  parents : ∀ {e r p}, s.record? e = some r → r.parent = some p →
    s.pool.Issued p
  names : s.Unambiguous

theorem named_empty : Named {} 0 := by
  have hdead : ∀ e, ({} : Store).has e = false := fun e => by
    simp [has, Pool.isLive, Pool.slot?]
  refine { sound := sound_empty, counts := counts_empty,
           parents := fun {e r p} hr => ?_,
           names := { models := fun {name e f} he => ?_,
                      links := fun {parent name e f} he => ?_ } }
  · simp [record?, hdead] at hr
  · simp [hdead] at he
  · simp [hdead] at he

/-- A query that two live entities cannot both satisfy selects at most one. -/
theorem length_select_le_one {q : Query}
    (h : ∀ e f, s.has e = true → s.has f = true →
    s.satisfies q e = true → s.satisfies q f = true → e = f) :
    (s.select q).length ≤ 1 := by
  refine Nat.le_of_not_lt fun hlt => ?_
  have hsorted := List.pairwise_iff_getElem.1 (s.select_sorted q) 0 1 (by omega)
    hlt (by omega)
  obtain ⟨hlive, hsat⟩ :=
    (mem_select_iff s q _).1 (List.getElem_mem (by omega : 0 < _))
  obtain ⟨hlive', hsat'⟩ := (mem_select_iff s q _).1 (List.getElem_mem hlt)
  rw [h _ _ hlive hlive' hsat hsat'] at hsorted
  exact Nat.lt_irrefl _ hsorted

theorem Unambiguous.select_model (h : s.Unambiguous) (name : String) :
    (s.select (modelNamed name)).length ≤ 1 :=
  length_select_le_one fun e f he hf hsat hsat' =>
    h.models he hf ((satisfies_modelNamed_iff name e).1 hsat)
      ((satisfies_modelNamed_iff name f).1 hsat')

theorem Unambiguous.select_link (h : s.Unambiguous) (model : Entity)
    (name : String) :
    (s.select (linksNamed model name)).length ≤ 1 :=
  length_select_le_one fun e f he hf hsat hsat' =>
    h.links he hf ((satisfies_linksNamed_iff model name e).1 hsat)
      ((satisfies_linksNamed_iff model name f).1 hsat')

namespace Named

/-- Names stay unambiguous where every model and every link has been there
before. -/
theorem of_records (h : s.Named n) (ht : t.Sound) (hm : t.pool.Counts m)
    (hrecord : ∀ {e r}, t.record? e = some r →
      s.record? e = some r ∨ r.isModel = false ∧ r.isLink = false ∧
      r.parent = none)
    (hissued : ∀ {e}, s.pool.Issued e → t.pool.Issued e) : t.Named m := by
  have hmodel : ∀ {name e}, t.has e = true → t.ModelNamed name e →
      s.has e = true ∧ s.ModelNamed name e := by
    intro name e he hname
    obtain ⟨r, hr⟩ := exists_record?_of_has he
    have hown := (modelNamed_iff_of_record? hr).1 hname
    rcases hrecord hr with hold | ⟨hnot, -⟩
    · exact ⟨((record?_eq_some_iff _ _ _).1 hold).1,
        (modelNamed_iff_of_record? hold).2 hown⟩
    · rw [hown.1] at hnot
      cases hnot
  have hlink : ∀ {parent name e}, t.has e = true → t.LinkNamed parent name e →
      s.has e = true ∧ s.LinkNamed parent name e := by
    intro parent name e he hname
    obtain ⟨r, hr⟩ := exists_record?_of_has he
    have hown := (linkNamed_iff_of_record? hr).1 hname
    rcases hrecord hr with hold | ⟨-, hnot, -⟩
    · exact ⟨((record?_eq_some_iff _ _ _).1 hold).1,
        (linkNamed_iff_of_record? hold).2 hown⟩
    · rw [hown.1] at hnot
      cases hnot
  refine
    { sound := ht
      counts := hm
      parents := ?_
      names :=
        { models := fun he hf hne hnf =>
            h.names.models (hmodel he hne).1 (hmodel hf hnf).1
            (hmodel he hne).2 (hmodel hf hnf).2
          links := fun he hf hne hnf =>
            h.names.links (hlink he hne).1 (hlink hf hnf).1
            (hlink he hne).2 (hlink hf hnf).2 } }
  intro e r p hr hp
  rcases hrecord hr with hold | ⟨-, -, hnone⟩
  · exact hissued (h.parents hold hp)
  · rw [hp] at hnone
    cases hnone

/-- Joints bear no names, and a request for a removal changes none. -/
theorem churns (h : s.Named n) (ht : s.Churns m t) (hn : n + m < 2 ^ 31) :
    t.Named (n + m) := by
  induction ht with
  | refl => exact h
  | @attach t m before k ih =>
      have hbefore := ih (by omega)
      have hpool : (t.create.2.setJoint t.create.1 k).pool = t.pool.create.2 :=
        pool_attach _ _ _
      have hcreated : t.create.2.pool.Counts (n + (m + 1)) :=
        hbefore.counts.create hbefore.sound.pool
      refine hbefore.of_records (hbefore.sound.create.setJoint _ k)
        (hpool ▸ hcreated) (fun {e r} hr => ?_)
        fun he => hpool ▸
          (Pool.issued_create_iff hbefore.sound.pool).2 (.inr he)
      rw [record?_joined hbefore.sound (withinCapacity_of_counts hcreated hn)]
        at hr
      split at hr
      · cases hr
        exact .inr ⟨rfl, rfl, rfl⟩
      · exact .inl hr
  | @request t m before e ih =>
      have hbefore := ih hn
      have hpool := pool_requestRemoval t e
      exact hbefore.of_records (hbefore.sound.requestRemoval e)
        (hpool ▸ hbefore.counts)
        (fun hr => .inl ((record?_requestRemoval t e _).symm.trans hr))
          fun he => hpool ▸ he

/-- A removal only frees names. -/
theorem applyRemovals (h : s.Named n) (hn : n < 2 ^ 31) :
    s.applyRemovals.2.Named n := by
  have hdropped := fun e =>
    pool_foldl_drop_of_counts (e := e) s.pending h.counts hn
  refine h.of_records h.sound.applyRemovals (hdropped default).1
    (fun {e r} hr => ?_) fun {e} he => (hdropped e).2.2 he
  rw [record?_applyRemovals] at hr
  split at hr
  · cases hr
  · exact .inl hr

/-- A scene that passed its check adds names that are free and different, and
the links that it adds have new parents. -/
theorem placed (h : s.Named n) {placed : List Placement}
    (hcheck : Scene.check ⟨placed.map Placement.decl⟩ s = .ok ())
    (hadds : s.Adds (placed.flatMap Placement.additions) t)
    (hn : n + (placed.flatMap Placement.additions).length < 2 ^ 31) :
    t.Named (n + (placed.flatMap Placement.additions).length) := by
  have hcounts := hadds.counts h.sound h.counts
  have hplaced : Placed s placed t :=
    { sound := h.sound
      capacity := withinCapacity_of_counts hcounts hn
      check := hcheck
      parents := fun e p hp => by
        have hlive : s.has e = true := h.sound.components.parents e p hp
        obtain ⟨r, hr⟩ := exists_record?_of_has hlive
        obtain ⟨-, rfl⟩ := (record?_eq_some_iff _ _ _).1 hr
        exact h.parents hr hp
      adds := hadds }
  have hissued := fun e => hadds.issued_iff (e := e) h.sound
  refine { sound := hadds.sound h.sound, counts := hcounts, parents := ?_,
           names := { models := ?_, links := ?_ } }
  · intro e r p hr hp
    rcases hplaced.record?_cases hr with ⟨q, hq, a, ha, rfl, rfl⟩ | hold
    · rcases Placement.mem_additions_iff.1 ha with rfl | ⟨i, f, -, -, heq⟩
      · cases hp
      · rw [heq] at hp
        cases hp
        exact (hissued _).2 (.inl (List.mem_map.2
          ⟨_, List.mem_flatMap.2 ⟨q, hq, q.own_mem_additions⟩, rfl⟩))
    · exact (hissued p).2 (.inr (h.parents hold hp))
  · intro name e f he hf hne hnf
    rcases hplaced.model_cases he hne with honly | ⟨holde, hne'⟩
    · exact (honly.only f hf hnf).symm
    · rcases hplaced.model_cases hf hnf with honly | ⟨holdf, hnf'⟩
      · exact honly.only e he hne
      · exact h.names.models holde holdf hne' hnf'
  · intro parent name e f he hf hne hnf
    rcases hplaced.link_cases he hne with honly | ⟨holde, hne'⟩
    · exact (honly.only f hf hnf).symm
    · rcases hplaced.link_cases hf hnf with honly | ⟨holdf, hnf'⟩
      · exact honly.only e he hne
      · exact h.names.links holde holdf hne' hnf'

end Named

end Store

/-! ## Parts of a scene -/

namespace Scene

/-- The models are among those of a scene, in the same order, each with some of
its links. -/
structure Part (part models : List ModelDecl) : Prop where
  names : (part.map ModelDecl.name).Sublist (models.map ModelDecl.name)
  links : ∀ d ∈ part, ∃ m ∈ models, d.name = m.name ∧ d.links.Sublist m.links

namespace Part

variable {part models : List ModelDecl} {s : Store}

theorem nil (models : List ModelDecl) : Part [] models :=
  { names := List.nil_sublist _, links := by simp }

/-- A scene may be cut off among the links of a model. -/
theorem cut (m : ModelDecl) (k : Nat) (models : List ModelDecl) :
    Part [{ m with links := m.links.take k }] (m :: models) :=
  { names := (List.nil_sublist _).cons_cons m.name
    links := fun d hd => by
      rw [List.mem_singleton] at hd
      exact ⟨m, List.mem_cons_self, by rw [hd],
        by rw [hd]; exact List.take_sublist k m.links⟩ }

theorem cons (h : Part part models) (m : ModelDecl) :
    Part (m :: part) (m :: models) :=
  { names := h.names.cons_cons m.name
    links := fun d hd => by
      rcases List.mem_cons.1 hd with rfl | hd
      · exact ⟨d, List.mem_cons_self, rfl, List.Sublist.refl _⟩
      · obtain ⟨m', hm', heq⟩ := h.links d hd
        exact ⟨m', List.mem_cons_of_mem _ hm', heq⟩ }

/-- A part of a scene passes the check that the scene passes. -/
theorem check (h : Part part models)
    (hcheck : Scene.check ⟨models⟩ s = .ok ()) :
    Scene.check ⟨part⟩ s = .ok () := by
  obtain ⟨hfree, hnodup, hlinks⟩ := (check_eq_ok_iff _).1 hcheck
  refine (check_eq_ok_iff _).2 ⟨fun d hd => ?_, h.names.nodup hnodup,
    fun d hd => ?_⟩
  · obtain ⟨m, hm, hname, -⟩ := h.links d hd
    rw [hname]
    exact hfree m hm
  · obtain ⟨m, hm, -, hsub⟩ := h.links d hd
    exact hsub.nodup (hlinks m hm)

end Part

end Scene

/-! ## What spawning leaves, whether it returns or breaks off -/

section Left

variable {ref : StoreRef} {w : World} {s : Store}

/-- The store is the same. -/
def SameStore (ref : StoreRef) (v w : World) : Prop :=
  w.store? ref = v.store? ref

theorem sameStore_reactive (ref : StoreRef) : Reactive (SameStore ref) :=
  { refl := fun _ => rfl
    trans := fun h h' => h'.trans h
    react := fun h => h.store? ref }

theorem emit_sameStore (ref : StoreRef) (depth b : Nat) (signal : Signal) :
    Keeps (SameStore ref) (emitOn (perform depth) b signal) :=
  Session.emit_keeps (sameStore_reactive ref) depth b signal

/-- What follows and leaves the store alone does not count. -/
theorem store?_left_bind {α β : Type} {m : Act α} {f : α → Act β}
    (hf : ∀ a, Keeps (SameStore ref) (f a)) (w : World) :
    ((m >>= f).left w).store? ref = (m.left w).store? ref := by
  rw [left_bind]
  cases h : m.run w with
  | ok a v =>
      rw [left_of_ok h]
      exact hf a v
  | error cause v => rw [left_of_error h]

/-- A link is in the store whatever its announcement comes to. -/
theorem left_link (hs : w.store? ref = some s) (depth b : Nat) (model : Entity)
    (name : String) :
    ((spawnDeclaredLink (perform depth) ref b model name).left w).store? ref =
      some (s.added name (some model)) := by
  have hR := sameStore_reactive ref
  rw [left_congr (run_spawnDeclaredLink _ b model name hs),
    store?_left_bind fun _ => Keeps.pure hR.toChained (),
    emit_sameStore ref depth b]
  exact Stage.store?_enter hs _

/-- Of the links of a model those up to a point are in the store. -/
theorem left_links (depth b : Nat) (model : Entity) :
    ∀ (names : List String) {w : World} {s : Store},
    w.store? ref = some s → ∃ (k : Nat) (links : List Entity) (t : Store),
      links.length = (names.take k).length ∧
        ((names.forM (spawnDeclaredLink (perform depth) ref b model)).left
          w).store? ref = some t ∧
        s.Adds (List.zipWith (fun name e => ⟨e, name, some model⟩)
          (names.take k) links) t
  | [], w, s, hs => ⟨0, [], s, rfl, hs, .nil s⟩
  | name :: names, w, s, hs => by
      have hfirst := left_link hs depth b model name
      have hadds := Store.Adds.single s name (some model)
      have hcons :
          ((name :: names).forM
            (spawnDeclaredLink (perform depth) ref b model)).left w =
          (spawnDeclaredLink (perform depth) ref b model name >>= fun _ =>
            names.forM (spawnDeclaredLink (perform depth) ref b model)).left
              w := rfl
      rw [hcons, left_bind]
      cases hrun :
          (spawnDeclaredLink (perform depth) ref b model name).run w with
      | ok a v =>
          rw [left_of_ok hrun] at hfirst
          obtain ⟨k, links, t, hlength, hstore, hrest⟩ :=
            left_links depth b model names hfirst
          refine ⟨k + 1, s.create.1 :: links, t, ?_, hstore, hadds.trans hrest⟩
          rw [List.take_succ_cons, List.length_cons, List.length_cons, hlength]
      | error cause v =>
          rw [left_of_error hrun] at hfirst
          exact ⟨1, [s.create.1], _, rfl, hfirst, hadds⟩

/-- A model is in the store, and of its links those up to a point. -/
theorem left_model (hs : w.store? ref = some s) (depth b : Nat)
    (m : ModelDecl) :
    ∃ (k : Nat) (p : Placement) (t : Store),
      p.decl = { m with links := m.links.take k } ∧
      ((spawnDeclaredModel (perform depth) ref b m).left w).store? ref =
        some t ∧
      s.Adds p.additions t := by
  have hR := sameStore_reactive ref
  have hadds := Store.Adds.single s m.name none
  have hadded := Stage.store?_enter hs (.add ⟨s.create.1, m.name, none⟩)
  rw [left_congr (run_spawnDeclaredModel _ b m hs), left_bind]
  split
  · next n v hrun =>
      have hkept := (emit_sameStore ref depth b _).of_ok hrun
      obtain ⟨k, links, t, hlength, hstore, hlinks⟩ :=
        left_links depth b s.create.1 m.links (hkept.trans hadded)
      refine ⟨k, ⟨{ m with links := m.links.take k }, s.create.1, links,
        hlength⟩, t, rfl, ?_, hadds.trans hlinks⟩
      unfold spawnParts
      refine (store?_left_bind (fun _ => ?_) v).trans hstore
      refine Keeps.bind hR.toChained (log_keeps hR _ _) fun _ => ?_
      exact (emit_sameStore ref depth b _).bind hR.toChained fun _ =>
        Keeps.pure hR.toChained _
  · next cause v hrun =>
      have hkept : v.store? ref = _ :=
        left_of_error hrun ▸ emit_sameStore ref depth b _ _
      exact ⟨0, ⟨{ m with links := [] }, s.create.1, [], rfl⟩, _, rfl,
        hkept.trans hadded, hadds⟩

/-- Of the models of a scene those up to a point are in the store, with their
links, and of the last the links up to a point. -/
theorem left_models (depth b : Nat) :
    ∀ (models : List ModelDecl) {w : World} {s : Store},
    w.store? ref = some s → ∃ (placed : List Placement) (t : Store),
      Scene.Part (placed.map Placement.decl) models ∧
        ((spawnModels (perform depth) ref b models).left w).store?
          ref = some t ∧
        s.Adds (placed.flatMap Placement.additions) t
  | [], w, s, hs => ⟨[], s, .nil [], hs, .nil s⟩
  | m :: models, w, s, hs => by
      have hR := sameStore_reactive ref
      unfold spawnModels
      rw [left_bind]
      cases hrun : (spawnDeclaredModel (perform depth) ref b m).run w with
      | ok plugins v =>
          obtain ⟨p, rfl, -, hspawns⟩ := spawns_of_model hs hrun
          obtain ⟨t, ht, hadds⟩ := hspawns.store hs
          obtain ⟨placed, u, hpart, hstore, hrest⟩ :=
            left_models depth b models ht
          refine ⟨p :: placed, u, hpart.cons p.decl, ?_, hadds.trans hrest⟩
          exact (store?_left_bind (fun _ => Keeps.pure hR.toChained _) v).trans
            hstore
      | error cause v =>
          obtain ⟨k, p, t, hdecl, hstore, hadds⟩ := left_model hs depth b m
          rw [left_of_error hrun] at hstore
          refine ⟨[p], t, ?_, hstore, ?_⟩
          · rw [List.map_singleton, hdecl]
            exact .cut m k models
          · rwa [List.flatMap_singleton]

theorem left_settled {α : Type} (weight : Nat)
    (body : Performer → Act α) (w : World) :
    (settled weight body).left w =
      (body (perform (w.weight + weight + 1))).left w := by
  rw [left, run_settled, left]

/-- What is in the store after a scene was to be spawned: a part of the scene,
none of it if the scene was refused. -/
theorem left_scene (hs : w.store? ref = some s) (b : Nat) (scene : Scene) :
    ∃ (placed : List Placement) (t : Store),
      Scene.check ⟨placed.map Placement.decl⟩ s = .ok () ∧
        ((spawnScene ref b scene).left w).store? ref = some t ∧
        s.Adds (placed.flatMap Placement.additions) t := by
  have hR := sameStore_reactive ref
  unfold spawnScene
  rw [left_get_bind, hs, Option.getD_some]
  cases hcheck : scene.check s with
  | error name => exact ⟨[], s, rfl, hs, .nil s⟩
  | ok _ =>
      obtain ⟨placed, t, hpart, hstore, hadds⟩ :=
        left_models (w.weight + 0 + 1) b scene.models hs
      have hpure (plugins : List PendingPlugin) : Keeps (SameStore ref)
          (pure (.ok plugins) :
            Act (Except DuplicateName (List PendingPlugin))) :=
        Keeps.pure hR.toChained _
      have hkept := store?_left_bind hpure
        (m := spawnModels (perform (w.weight + 0 + 1)) ref b scene.models) w
      refine ⟨placed, t, hpart.check hcheck, ?_, hadds⟩
      exact (congrArg (World.store? · ref) (left_settled 0 _ w)).trans
        (hkept.trans hstore)

/-- What a request for a removal leaves. -/
theorem left_request (hs : w.store? ref = some s) (e : Entity) :
    ((callStore ref (.remove (.handle e))).left w).store? ref =
      some (s.requestRemoval e) := by
  rw [callStore, left_change, hs]
  exact (store?_setStore w hs _ ref).trans (if_pos rfl)

/-- What applying the removals asked for leaves. -/
theorem left_process (hs : w.store? ref = some s) :
    ((callStore ref .process).left w).store? ref = some s.applyRemovals.2 := by
  rw [callStore, left_change, hs]
  exact (store?_setStore w hs _ ref).trans (if_pos rfl)

/-- In its turn a joint may attach, and it may ask for the removal of what it
holds. -/
theorem left_turn (hs : w.store? ref = some s) (j : Nat) :
    ∃ n t, ((updateJoint j ref).left w).store? ref = some t ∧ s.Churns n t := by
  rcases left_updateJoint j ref w with heq | ⟨slot, s', y, -, hs', hturn, heq⟩
  · exact ⟨0, s, (congrArg (·.store? ref) heq).trans hs, .refl s⟩
  · cases hs.symm.trans hs'
    have hstore : ((updateJoint j ref).left w).store? ref = some y.store := by
      rw [heq, store?_settle _ _ _ _ _ hs, if_pos rfl]
    cases hturn with
    | idle _ => exact ⟨0, _, hstore, .refl s⟩
    | attach _ _ => exact ⟨1, _, hstore, .attach (.refl s) _⟩
    | attachAndLetGo _ _ =>
        exact ⟨1, _, hstore, .request (.attach (.refl s) _) _⟩
    | letGo _ _ _ => exact ⟨0, _, hstore, .request (.refl s) _⟩

end Left

/-! ## Runs -/

/-- How many entities live in the store of a world. -/
def World.population (ref : StoreRef) (w : World) : Nat :=
  ((w.store? ref).map Store.size).getD 0

/-- The worlds of a run whose store was empty at first, with the number of
entities created so far. The store is changed by scenes, which may be refused or
break off, by the turns of joints, which attach and let go, by requests for
removals and by applying them. Scenes and turns end no life, so what they create
is how much the store grows. Everything else leaves the store alone. -/
inductive Populated (ref : StoreRef) : World → Nat → Prop
  | start {w : World} (empty : w.store? ref = some {}) : Populated ref w 0
  | spawn {w : World} {n : Nat} (before : Populated ref w n) (b : Nat)
      (scene : Scene) :
      Populated ref ((spawnScene ref b scene).left w)
        (n + (((spawnScene ref b scene).left w).population
          ref - w.population ref))
  | turn {w : World} {n : Nat} (before : Populated ref w n) (j : Nat) :
      Populated ref ((updateJoint j ref).left w)
        (n + (((updateJoint j ref).left w).population ref - w.population ref))
  | request {w : World} {n : Nat} (before : Populated ref w n) (e : Entity) :
      Populated ref ((callStore ref (.remove (.handle e))).left w) n
  | process {w : World} {n : Nat} (before : Populated ref w n) :
      Populated ref ((callStore ref .process).left w) n
  | other {w v : World} {n : Nat} (before : Populated ref w n)
      (same : SameStore ref w v) :
      Populated ref v n

namespace Populated

variable {ref : StoreRef} {w : World} {n : Nat}

/-- After every run names are unambiguous in the store. -/
theorem named (h : Populated ref w n) (hn : n < 2 ^ 31) :
    ∃ s, w.store? ref = some s ∧ s.Named n := by
  induction h with
  | start empty => exact ⟨{}, empty, Store.named_empty⟩
  | @spawn w n before b scene ih =>
      obtain ⟨s, hs, hnamed⟩ := ih (by omega)
      obtain ⟨placed, t, hcheck, ht, hadds⟩ := left_scene hs b scene
      have hsize := hadds.size hnamed.sound
      have hcount : n +
          (((spawnScene ref b scene).left w).population
            ref - w.population ref) =
          n + (placed.flatMap Placement.additions).length := by
        simp only [population, hs, ht, Option.map_some, Option.getD_some]
        omega
      rw [hcount] at hn ⊢
      exact ⟨t, ht, hnamed.placed hcheck hadds hn⟩
  | @turn w n before j ih =>
      obtain ⟨s, hs, hnamed⟩ := ih (by omega)
      obtain ⟨m, t, ht, hchurns⟩ := left_turn hs j
      have hsize := hchurns.size hnamed.sound
      have hcount : n +
          (((updateJoint j ref).left w).population ref - w.population ref) =
          n + m := by
        simp only [population, hs, ht, Option.map_some, Option.getD_some]
        omega
      rw [hcount] at hn ⊢
      exact ⟨t, ht, hnamed.churns hchurns hn⟩
  | request before e ih =>
      obtain ⟨s, hs, hnamed⟩ := ih hn
      exact ⟨_, left_request hs e, hnamed.churns (.request (.refl s) e) hn⟩
  | process before ih =>
      obtain ⟨s, hs, hnamed⟩ := ih hn
      exact ⟨_, left_process hs, hnamed.applyRemovals hn⟩
  | other before same ih =>
      obtain ⟨s, hs, hnamed⟩ := ih hn
      exact ⟨s, same.trans hs, hnamed⟩

end Populated

/-- After every run in which fewer than `2 ^ 31` entities were created, no two
live models have the same name and no two live links of one parent do, whether
or not the parent still lives. So the query for a model by its name, and the one
for a link of a model by its name, select at most one live entity. -/
theorem unambiguous_of_populated {ref : StoreRef} {w : World} {n : Nat}
    (h : Populated ref w n) (hn : n < 2 ^ 31) :
    ∃ s, w.store? ref = some s ∧ s.Unambiguous ∧
      (∀ name, (s.select (Store.modelNamed name)).length ≤ 1) ∧
        ∀ model name, (s.select (Store.linksNamed model name)).length ≤ 1 := by
  obtain ⟨s, hs, hnamed⟩ := h.named hn
  exact ⟨s, hs, hnamed.names, hnamed.names.select_model,
    hnamed.names.select_link⟩

/-- A joint attaches between two models. A second scene is refused, for it has a
crane too. The first crane is removed while its hook stays, and a third scene
brings another crane with a hook in the same slot. Each hook is the only one
under its own crane. -/
theorem unambiguous_of_reused_slot :
    let ref : StoreRef := .runner 0
    let first : Scene := ⟨[⟨"crane", ["hook"], []⟩, ⟨"cart", ["eye"], []⟩]⟩
    let second : Scene := ⟨[⟨"tug", [], []⟩, ⟨"crane", [], []⟩]⟩
    let third : Scene := ⟨[⟨"crane", ["hook"], []⟩]⟩
    let w₀ := Session.after {} [⟨ref, .makeRunner (some 0) defaultStep none⟩]
    let w₁ := (spawnScene ref 0 first).left w₀
    let w₂ := (Deed.enrol 0 none (.numbered 0) ⟨1, 0⟩
      (Session.jointElement "hook" "cart" "eye")).apply w₁
    let w₃ := (updateJoint 0 ref).left w₂
    let w₄ := (spawnScene ref 0 second).left w₃
    let w₅ := (callStore ref (.remove (.handle ⟨1, 0⟩))).left w₄
    let w₆ := (callStore ref .process).left w₅
    let w₇ := (spawnScene ref 0 third).left w₆
    Populated ref w₇ 7 ∧ ∃ s, w₇.store? ref = some s ∧ s.Unambiguous ∧
      s.select (Store.modelNamed "crane") = [⟨1, 1⟩] ∧
        s.select (Store.linksNamed ⟨1, 0⟩ "hook") = [⟨2, 0⟩] ∧
        s.select (Store.linksNamed ⟨1, 1⟩ "hook") = [⟨6, 0⟩] := by
  intro ref first second third w₀ w₁ w₂ w₃ w₄ w₅ w₆ w₇
  have h₀ : Populated ref w₀ 0 := .start (by decide +kernel)
  have h₁ := h₀.spawn 0 first
  have h₂ : Populated ref w₂ _ :=
    h₁.other (show w₂.store? ref = w₁.store? ref by decide +kernel)
  have h₃ := h₂.turn 0
  have h₄ := h₃.spawn 0 second
  have h₅ := h₄.request ⟨1, 0⟩
  have h₆ := h₅.process
  have h₇ := h₆.spawn 0 third
  have hcreated : 0 + (w₁.population ref - w₀.population ref) +
      (w₃.population ref - w₂.population ref) +
        (w₄.population ref - w₃.population ref) +
      (w₇.population ref - w₆.population ref) = 7 := by decide +kernel
  have hrun : Populated ref w₇ 7 := hcreated ▸ h₇
  obtain ⟨s, hs, hnames, -, -⟩ := unambiguous_of_populated hrun (by decide)
  have hselect : (w₇.store? ref).map
      (fun s => (s.select (Store.modelNamed "crane"),
      s.select (Store.linksNamed ⟨1, 0⟩ "hook"),
      s.select (Store.linksNamed ⟨1, 1⟩ "hook"))) =
      some ([⟨1, 1⟩], [⟨2, 0⟩], [⟨6, 0⟩]) := by decide +kernel
  rw [hs, Option.map_some, Option.some.injEq, Prod.mk.injEq,
    Prod.mk.injEq] at hselect
  exact ⟨hrun, s, hs, hnames, hselect⟩

end Linkage
