import Linkage.Proofs.Store.Calls
import Mathlib.Data.List.Sort

/-!
# What queries answer

A query walks over the slots and looks each predicate up in the table of its
component. In a store that was reached by calls it answers with the entities
whose records have what the query asks for, in slot order, which after a slot
was reused is not the order of creation. The entities that stand for joints are
listed from their table without a look at the slots, and yet in the same order.

## Main results

* `Store.satisfies_iff`: looking components up is asking the record.
* `Store.select_asking`: one more predicate keeps a part of the selection, in
  its order.
* `Store.Sound.joints_eq`: the joints are those of the live entities, in slot
  order.
* `answers_of_calls`: all this holds of a store after any calls, and asking for
  removals changes no answer.
-/

namespace Linkage

/-- Something that a query asks of an entity. -/
inductive Predicate
  | model
  | link
  | name (name : String)
  | parent (parent : Entity)
  deriving DecidableEq

namespace Predicate

/-- Whether a record has what is asked for. -/
def holds (r : Record) : Predicate → Bool
  | .model => r.isModel
  | .link => r.isLink
  | .name n => r.name = some n
  | .parent p => r.parent = some p

theorem forall_iff {P : Predicate → Prop} :
    (∀ p, P p) ↔ P .model ∧ P .link ∧ (∀ n, P (.name n)) ∧
    ∀ e, P (.parent e) := by
  constructor
  · intro h
    exact ⟨h _, h _, fun n => h _, fun e => h _⟩
  · rintro ⟨hmodel, hlink, hname, hparent⟩ p
    cases p with
    | model => exact hmodel
    | link => exact hlink
    | name n => exact hname n
    | parent e => exact hparent e

theorem holds_model (r : Record) : model.holds r = r.isModel := rfl

theorem holds_link (r : Record) : link.holds r = r.isLink := rfl

theorem holds_name_iff (r : Record) (n : String) :
    (name n).holds r = true ↔ r.name = some n :=
  decide_eq_true_iff

theorem holds_parent_iff (r : Record) (p : Entity) :
    (parent p).holds r = true ↔ r.parent = some p :=
  decide_eq_true_iff

end Predicate

namespace Query

/-- What a query asks for. -/
def Asks (q : Query) : Predicate → Prop
  | .model => q.model = true
  | .link => q.link = true
  | .name n => q.name = some n
  | .parent p => q.parent = some p

theorem not_asks_empty (p : Predicate) : ¬ ({} : Query).Asks p := by
  cases p <;> simp [Asks]

/-- The query that asks for one thing more. A name or a parent takes the place
of another one. -/
def asking (q : Query) : Predicate → Query
  | .model => { q with model := true }
  | .link => { q with link := true }
  | .name n => { q with name := some n }
  | .parent p => { q with parent := some p }

/-- The query asks for no other name or parent. -/
def Admits (q : Query) : Predicate → Prop
  | .name n => ∀ m ∈ q.name, m = n
  | .parent p => ∀ f ∈ q.parent, f = p
  | _ => True

theorem asks_asking_iff {q : Query} {p : Predicate} (h : q.Admits p)
    (r : Predicate) :
    (q.asking p).Asks r ↔ r = p ∨ q.Asks r := by
  cases p with
  | model | link => cases r <;> simp [Asks, asking]
  | name n =>
      have hname : ∀ m, q.name = some m → m = n := h
      cases r with
      | name m => simpa [Asks, asking, @eq_comm _ n] using hname m
      | _ => simp [Asks, asking]
  | parent f =>
      have hparent : ∀ g, q.parent = some g → g = f := h
      cases r with
      | parent g => simpa [Asks, asking, @eq_comm _ f] using hparent g
      | _ => simp [Asks, asking]

end Query

namespace Store

/-- Whether an entity is live and its record has what is asked for. -/
def meets (s : Store) (p : Predicate) (e : Entity) : Bool :=
  (s.record? e).any p.holds

/-- What a store answers to queries. They select the live entities that have
what is asked for, each once and in slot order; the first of them is the one
that is looked up; asking for more keeps the part that has it; the joints are
those of all live entities, in the same order; and asking for removals changes
nothing of this. -/
structure Answers (s : Store) : Prop where
  mem_iff : ∀ q e, e ∈ s.select q ↔
    ∃ r, s.record? e = some r ∧ ∀ p, q.Asks p → p.holds r = true
  sorted : ∀ q, (s.select q).Pairwise fun e f => e.index < f.index
  once : ∀ q, (s.select q).Nodup
  first : ∀ q, s.first? q = (s.select q).head?
  narrowed : ∀ q p, q.Admits p →
    s.select (q.asking p) = (s.select q).filter (s.meets p)
  joints : s.joints = (s.select {}).filterMap fun e =>
    ((s.record? e).bind Record.joint).map fun j => (e, j)
  asked : ∀ asked : List Entity,
      (∀ q, (asked.foldl requestRemoval s).select q = s.select q ∧
      (asked.foldl requestRemoval s).first? q = s.first? q) ∧
    (asked.foldl requestRemoval s).joints = s.joints

variable {s : Store}

/-! ## Selections -/

/-- Looking up the components that a query asks for is asking the record. -/
theorem satisfies_iff (q : Query) (e : Entity) : s.satisfies q e = true ↔
    ∀ p, q.Asks p → p.holds (s.components.view e) = true := by
  have hmodel : (s.components.view e).isModel = s.isModel e := rfl
  have hlink : (s.components.view e).isLink = s.isLink e := rfl
  have hname : (s.components.view e).name = s.name? e := rfl
  have hparent : (s.components.view e).parent = s.parent? e := rfl
  obtain ⟨model, link, name, parent⟩ := q
  rw [Predicate.forall_iff]
  cases model <;> cases link <;> cases name <;> cases parent <;>
    simp [satisfies, Query.Asks, Predicate.holds_model, Predicate.holds_link,
      Predicate.holds_name_iff, Predicate.holds_parent_iff, hmodel, hlink,
      hname, hparent,
      and_assoc]

theorem mem_select_iff_record? (q : Query) (e : Entity) : e ∈ s.select q ↔
    ∃ r, s.record? e = some r ∧ ∀ p, q.Asks p → p.holds r = true := by
  rw [mem_select_iff, satisfies_iff]
  constructor
  · rintro ⟨hlive, hall⟩
    exact ⟨_, (record?_eq_some_iff s e _).2 ⟨hlive, rfl⟩, hall⟩
  · rintro ⟨r, hr, hall⟩
    obtain ⟨hlive, rfl⟩ := (record?_eq_some_iff s e r).1 hr
    exact ⟨hlive, hall⟩

theorem meets_of_has {e : Entity} (h : s.has e = true) (p : Predicate) :
    s.meets p e = p.holds (s.components.view e) := by
  rw [meets, (record?_eq_some_iff s e _).2 ⟨h, rfl⟩]
  rfl

/-- Asking for one thing more keeps the part of a selection that has it, in its
order. -/
theorem select_asking {q : Query} {p : Predicate} (h : q.Admits p) :
    s.select (q.asking p) = (s.select q).filter (s.meets p) := by
  rw [select, select, List.filter_filter]
  refine List.filter_congr fun e he => ?_
  have hlive : s.has e = true := (s.mem_live_iff_has e).1 he
  rw [Bool.eq_iff_iff, Bool.and_eq_true, satisfies_iff, satisfies_iff,
    meets_of_has hlive]
  constructor
  · intro hall
    exact ⟨hall p ((Query.asks_asking_iff h p).2 (.inl rfl)),
      fun r hr => hall r ((Query.asks_asking_iff h r).2 (.inr hr))⟩
  · rintro ⟨hp, hall⟩ r hr
    rcases (Query.asks_asking_iff h r).1 hr with rfl | hr
    · exact hp
    · exact hall r hr

theorem select_nodup (s : Store) (q : Query) : (s.select q).Nodup :=
  s.pool.live_nodup.filter _

/-! ## Joints -/

/-- The joints are those of the live entities, in slot order. -/
theorem Sound.joints_eq (h : s.Sound) :
    s.joints = (s.select {}).filterMap fun e =>
    ((s.record? e).bind Record.joint).map fun j => (e, j) := by
  have hantisymm : Std.Antisymm fun a b : Entity × Joint =>
      a.1.index < b.1.index :=
    ⟨fun a b hab hba => absurd hab (Nat.lt_asymm hba)⟩
  have hirrefl : Std.Irrefl fun a b : Entity × Joint => a.1.index < b.1.index :=
    ⟨fun a => Nat.lt_irrefl a.1.index⟩
  refine List.Pairwise.eq_of_mem_iff
    (r := fun a b => a.1.index < b.1.index) ?_ ?_ ?_
  · rw [joints, Table.toList, List.pairwise_map]
    exact s.components.joints.slots.sorted
  · rw [List.pairwise_filterMap]
    refine (s.select_sorted {}).imp fun {e f} hef a ha b hb => ?_
    obtain ⟨j, -, rfl⟩ := Option.map_eq_some_iff.1 ha
    obtain ⟨k, -, rfl⟩ := Option.map_eq_some_iff.1 hb
    exact hef
  · rintro ⟨e, j⟩
    have hget : (e, j) ∈ s.joints ↔
        (s.record? e).bind Record.joint = some j := by
      rw [← h.joint?_eq e]
      exact Table.mem_toList_iff s.components.joints e j
    rw [hget, List.mem_filterMap]
    constructor
    · intro hj
      obtain ⟨r, hr, -⟩ := Option.bind_eq_some_iff.1 hj
      have hmem : e ∈ s.select {} :=
        (mem_select_iff_record? {} e).2 ⟨r, hr,
          fun p hp => absurd hp (Query.not_asks_empty p)⟩
      exact ⟨e, hmem, by rw [hj]; rfl⟩
    · rintro ⟨f, -, hf⟩
      obtain ⟨k, hk, heq⟩ := Option.map_eq_some_iff.1 hf
      cases heq
      exact hk

/-! ## Removals asked for -/

/-- Asking for removals changes neither slots nor components. -/
theorem requestAll_same (asked : List Entity) (s : Store) :
    (asked.foldl requestRemoval s).pool = s.pool ∧
      (asked.foldl requestRemoval s).components = s.components := by
  induction asked generalizing s with
  | nil => exact ⟨rfl, rfl⟩
  | cons e asked ih =>
      have hone : (s.requestRemoval e).components = s.components := by
        unfold requestRemoval
        split <;> rfl
      obtain ⟨hpool, hcomponents⟩ := ih (s.requestRemoval e)
      exact ⟨hpool.trans (pool_requestRemoval s e), hcomponents.trans hone⟩

theorem select_congr {t : Store} (hpool : t.pool = s.pool)
    (hcomponents : t.components = s.components) (q : Query) :
    t.select q = s.select q := by
  unfold select satisfies isModel isLink name? parent?
  rw [hpool, hcomponents]

theorem Sound.answers (h : s.Sound) : s.Answers := by
  refine { mem_iff := mem_select_iff_record?, sorted := s.select_sorted,
           once := s.select_nodup,
           first := fun q => rfl, narrowed :=
             fun q p => select_asking, joints := h.joints_eq,
           asked := fun asked => ?_ }
  obtain ⟨hpool, hcomponents⟩ := requestAll_same asked s
  refine ⟨fun q => ?_, ?_⟩
  · have hselect := select_congr hpool hcomponents q
    exact ⟨hselect, congrArg List.head? hselect⟩
  · unfold Store.joints
    rw [hcomponents]

end Store

/-- After any calls a store answers every query with the live entities that have
what is asked for, in slot order. -/
theorem answers_of_calls (calls : List StoreCall) :
    (({} : Store).serveAll calls).Answers :=
  (Store.sound_empty.serveAll calls).answers

end Linkage
