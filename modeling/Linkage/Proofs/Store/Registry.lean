import Linkage.Proofs.Store.Calls
import Mathlib.Data.Finmap

/-!
# The store as a finite map

A registry is the plain picture of a store: a finite map from handles to records
and the removals asked for, in order. It has no slots, no generations and no
tables, so nothing in it can get out of step. A call on a registry is described
by a rule; the rule of a creation leaves the handle open, as long as it is no
key.

A store is in lockstep with a registry along a list of calls when every answer
of the store is one that a rule allows and all observations agree before the
first call, between any two and after the last.

## Main results

* `Represents.serve`: one call keeps a sound store and its registry together.
* `lockstep_of_creations_lt`: a new store is in lockstep with the empty registry
  along every list of calls with fewer than `2 ^ 31` creations.
-/

namespace Linkage

/-- A finite map from handles to records, and the removals asked for, in
order. -/
structure Registry where
  records : Finmap fun _ : Entity => Record := ∅
  pending : List Entity := []

namespace Registry

/-- Change the record of a key; a handle that is no key is left alone. -/
def alter (m : Registry) (e : Entity) (change : Record → Record) : Registry :=
  match m.records.lookup e with
  | some r => { m with records := m.records.insert e (change r) }
  | none => m

/-- Ask for the removal of a key, once. -/
def request (m : Registry) (e : Entity) : Registry :=
  if e ∈ m.records ∧ e ∉ m.pending then
    { m with pending := m.pending ++ [e] } else m

/-- Delete the keys whose removal was asked for. -/
def sweep (m : Registry) : Registry :=
  { records := m.pending.foldl (fun records e => records.erase e) m.records,
    pending := [] }

/-- The rules of the calls. -/
inductive Step : Registry → StoreCall → StoreAnswer → Registry → Prop
  | create {m : Registry} {e : Entity} (fresh : e ∉ m.records) :
      Step m .create (.issued e) { m with records := m.records.insert e {} }
  | attach (m : Registry) (e : Entity) (a : Attachment) :
      Step m (.attach e a) .done (m.alter e a.addTo)
  | requestRemoval (m : Registry) (e : Entity) :
      Step m (.requestRemoval e) .done (m.request e)
  | applyRemovals (m : Registry) :
      Step m .applyRemovals (.removed m.pending) m.sweep

theorem lookup_alter (m : Registry) (e f : Entity) (change : Record → Record) :
    (m.alter e change).records.lookup f =
      if f = e then (m.records.lookup f).map change else
          m.records.lookup f := by
  unfold alter
  by_cases hf : f = e
  · subst hf
    cases hr : m.records.lookup f with
    | none => simp [hr]
    | some r => simp [Finmap.lookup_insert]
  · cases m.records.lookup e with
    | none => simp [hf]
    | some r => simp [hf, Finmap.lookup_insert_of_ne _ hf]

theorem pending_alter (m : Registry) (e : Entity) (change : Record → Record) :
    (m.alter e change).pending = m.pending := by
  unfold alter
  split <;> rfl

theorem lookup_foldl_erase (l : List Entity)
    (records : Finmap fun _ : Entity => Record) (f : Entity) :
    (l.foldl (fun records e => records.erase e) records).lookup f =
      if f ∈ l then none else records.lookup f := by
  induction l generalizing records with
  | nil => simp
  | cons e l ih =>
      rw [List.foldl_cons, ih]
      by_cases hf : f = e
      · subst hf
        simp [Finmap.lookup_erase]
      · simp [hf, Finmap.lookup_erase_ne hf]

end Registry

/-- Every observation of a store is that of a registry. -/
structure Agrees (s : Store) (m : Registry) : Prop where
  has : ∀ e, s.has e = true ↔ e ∈ m.records
  size : s.size = m.records.keys.card
  isModel : ∀ e, s.isModel e = (m.records.lookup e).any Record.isModel
  isLink : ∀ e, s.isLink e = (m.records.lookup e).any Record.isLink
  name? : ∀ e, s.name? e = (m.records.lookup e).bind Record.name
  parent? : ∀ e, s.parent? e = (m.records.lookup e).bind Record.parent
  joint? : ∀ e, s.joint? e = (m.records.lookup e).bind Record.joint
  isPending : ∀ e, s.isPending e = true ↔ e ∈ m.pending
  pending : s.pending = m.pending

/-- A store and a registry agree now and after each of a list of calls, and
every answer of the store is one that the rules allow. -/
inductive Lockstep : Store → Registry → List StoreCall → Prop
  | nil {s : Store} {m : Registry} (now : Agrees s m) : Lockstep s m []
  | cons {s : Store} {m m' : Registry} {call : StoreCall}
      {calls : List StoreCall} (now : Agrees s m)
      (step : Registry.Step m call (s.serve call).1 m')
      (later : Lockstep (s.serve call).2 m' calls) :
      Lockstep s m (call :: calls)

/-- The creations among calls. -/
def creations (calls : List StoreCall) : Nat :=
  calls.countP fun call => match call with
    | .create => true
    | _ => false

/-- A store has the records and the requests of a registry. -/
structure Represents (s : Store) (m : Registry) : Prop where
  record? : ∀ e, s.record? e = m.records.lookup e
  pending : s.pending = m.pending

namespace Represents

variable {s : Store} {m : Registry}

theorem mem_iff (h : Represents s m) (e : Entity) :
    e ∈ m.records ↔ s.has e = true := by
  rw [← Finmap.lookup_isSome, ← h.record? e, s.record?_isSome e]

theorem size_eq (h : Represents s m) : s.size = m.records.keys.card := by
  have hkeys : m.records.keys = s.pool.live.toFinset := by
    ext e
    rw [Finmap.mem_keys, h.mem_iff, List.mem_toFinset, s.mem_live_iff_has]
  rw [hkeys, List.toFinset_card_of_nodup s.pool.live_nodup,
    s.size_eq_length_live]

/-- A sound store shows nothing but the records and the requests. -/
theorem agrees (h : Represents s m) (hs : s.Sound) : Agrees s m := by
  have hview : ∀ e, s.components.view e = (m.records.lookup e).getD {} := by
    intro e
    rw [← h.record? e]
    exact hs.view_eq e
  refine
    { has := fun e => (h.mem_iff e).symm
      size := h.size_eq
      isModel := ?_
      isLink := ?_
      name? := ?_
      parent? := ?_
      joint? := ?_
      isPending := ?_
      pending := h.pending }
  · intro e
    show (s.components.view e).isModel = _
    rw [hview e]
    cases m.records.lookup e <;> rfl
  · intro e
    show (s.components.view e).isLink = _
    rw [hview e]
    cases m.records.lookup e <;> rfl
  · intro e
    show (s.components.view e).name = _
    rw [hview e]
    cases m.records.lookup e <;> rfl
  · intro e
    show (s.components.view e).parent = _
    rw [hview e]
    cases m.records.lookup e <;> rfl
  · intro e
    show (s.components.view e).joint = _
    rw [hview e]
    cases m.records.lookup e <;> rfl
  · intro e
    simp [Store.isPending, h.pending]

theorem create (h : Represents s m) (hs : s.Sound) :
    Represents s.create.2
      { m with records := m.records.insert s.create.1 {} } := by
  refine { record? := ?_, pending := h.pending }
  intro e
  rw [Store.record?_create hs]
  by_cases he : e = s.create.1
  · subst he
    rw [if_pos rfl, Finmap.lookup_insert]
  · rw [if_neg he, Finmap.lookup_insert_of_ne _ he, h.record? e]

theorem put (h : Represents s m) (hs : s.Sound)
    (hc : s.WithinCapacity) (e : Entity) (a : Attachment) :
    Represents (s.put e a) (m.alter e a.addTo) := by
  refine { record? := ?_, pending := ?_ }
  · intro f
    rw [Store.record?_put hs hc, Registry.lookup_alter, h.record? f]
  · rw [Store.pending_put, Registry.pending_alter, h.pending]

theorem requestRemoval (h : Represents s m) (e : Entity) :
    Represents (s.requestRemoval e) (m.request e) := by
  have hguard : (e ∈ m.records ∧ e ∉ m.pending) ↔
      (s.has e = true ∧ e ∉ s.pending) := by
    rw [h.mem_iff, h.pending]
  refine { record? := ?_, pending := ?_ }
  · intro f
    rw [Store.record?_requestRemoval, h.record? f]
    unfold Registry.request
    split <;> rfl
  · rw [Store.pending_requestRemoval]
    unfold Registry.request
    by_cases hg : s.has e = true ∧ e ∉ s.pending
    · rw [if_pos hg, if_pos (hguard.2 hg), h.pending]
    · rw [if_neg hg, if_neg (hguard.not.2 hg), h.pending]

theorem applyRemovals (h : Represents s m) :
    Represents s.applyRemovals.2 m.sweep := by
  refine { record? := ?_, pending := rfl }
  intro e
  rw [Store.record?_applyRemovals, h.pending, h.record? e]
  exact (Registry.lookup_foldl_erase m.pending m.records e).symm

/-- One call keeps a sound store and its registry together. -/
theorem serve (h : Represents s m) (hs : s.Sound) (hc : s.WithinCapacity)
    (call : StoreCall) :
    ∃ m', Registry.Step m call (s.serve call).1 m' ∧
      Represents (s.serve call).2 m' := by
  cases call with
  | create =>
      have hfresh : s.create.1 ∉ m.records := by
        rw [h.mem_iff, Store.not_has_create hs]
        simp
      exact ⟨_, .create hfresh, h.create hs⟩
  | attach e a => exact ⟨_, .attach m e a, h.put hs hc e a⟩
  | requestRemoval e => exact ⟨_, .requestRemoval m e, h.requestRemoval e⟩
  | applyRemovals =>
      have hanswer : (s.serve .applyRemovals).1 = .removed m.pending := by
        rw [← h.pending]
        rfl
      exact ⟨_, hanswer ▸ .applyRemovals m, h.applyRemovals⟩

end Represents

theorem creations_cons (call : StoreCall) (calls : List StoreCall) :
    creations (call :: calls) = creations [call] + creations calls := by
  simp [creations, List.countP_cons]
  omega

/-- A call makes at most as many slots as it creates entities. -/
theorem slots_length_serve_le (s : Store) (call : StoreCall) :
    (s.serve call).2.pool.slots.length ≤ s.pool.slots.length + creations
      [call] := by
  cases call with
  | create => exact Pool.slots_length_create_le s.pool
  | attach e a =>
      show (s.put e a).pool.slots.length ≤ _
      rw [Store.pool_put]
      exact Nat.le_add_right _ _
  | requestRemoval e =>
      show (s.requestRemoval e).pool.slots.length ≤ _
      rw [Store.pool_requestRemoval]
      exact Nat.le_add_right _ _
  | applyRemovals =>
      show s.applyRemovals.2.pool.slots.length ≤ _
      rw [Store.slots_length_applyRemovals]
      exact Nat.le_add_right _ _

theorem Represents.lockstep {calls : List StoreCall} :
    ∀ {s : Store} {m : Registry}, Represents s m → s.Sound →
      s.pool.slots.length + creations calls < 2 ^ 31 → Lockstep s m calls := by
  induction calls with
  | nil => exact fun h hs _ => .nil (h.agrees hs)
  | cons call calls ih =>
      intro s m h hs hbound
      rw [creations_cons] at hbound
      have hcapacity : s.WithinCapacity := by
        show s.pool.slots.length < 2 ^ 32 - 1
        omega
      obtain ⟨m', hstep, hnext⟩ := h.serve hs hcapacity call
      have hslots := slots_length_serve_le s call
      exact .cons (h.agrees hs) hstep (ih hnext (hs.serve call) (by omega))

/-- A new store is a finite map from issued handles to records with an ordered
list of requests, along every list of calls, with any handles, that creates
fewer than `2 ^ 31` entities. -/
theorem lockstep_of_creations_lt (calls : List StoreCall)
    (h : creations calls < 2 ^ 31) :
    Lockstep {} {} calls := by
  have hstart : Represents {} {} := by
    refine { record? := ?_, pending := rfl }
    intro e
    have hdead : ({} : Store).has e = false := by
      simp [Store.has, Pool.isLive, Pool.slot?]
    simp [Store.record?, hdead]
  exact hstart.lockstep Store.sound_empty (by simpa using h)

/-- A slot that is reused, with calls on the handle of its earlier life, on a
handle that was never issued and on the handle of no entity. -/
theorem lockstep_of_reused_slot :
    let first : Entity := ⟨1, 0⟩
    let calls : List StoreCall :=
      [.create, .attach first (.name "arm"), .attach first .link,
        .requestRemoval first,
        .requestRemoval first, .applyRemovals, .create, .attach first .model,
        .attach ⟨1, 1⟩ (.joint (Joint.fixed first ⟨9, 4⟩)),
        .attach Entity.null .model,
        .requestRemoval ⟨9, 4⟩, .applyRemovals]
    creations calls < 2 ^ 31 ∧ Lockstep {} {} calls :=
  ⟨by decide, lockstep_of_creations_lt _ (by decide)⟩

end Linkage
