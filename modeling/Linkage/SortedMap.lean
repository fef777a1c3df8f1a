/-!
# Tables sorted by key

Parameters of a configuration node, subscribers of a transport, component
slots and the registries of a simulation are all small tables that are read
back in key order. One container serves them all: a list of entries kept
strictly increasing by key, so that two tables holding the same values at the
same keys are equal, and iteration order is not a separate concern.

## Main results

* `SortedMap.get?_insert`, `SortedMap.get?_erase`: a write or removal is seen
  at its own key and nowhere else.
* `SortedMap.ext_get?`: tables with equal lookups are equal.
-/

namespace Linkage

universe u v

/-- Keys whose `<` is a strict linear order. -/
class KeyOrder (κ : Type u) [LT κ] : Prop where
  irrefl : ∀ a : κ, ¬ a < a
  trans : ∀ {a b c : κ}, a < b → b < c → a < c
  connected : ∀ {a b : κ}, ¬ a < b → ¬ b < a → a = b

instance : KeyOrder Nat where
  irrefl := Nat.lt_irrefl
  trans := Nat.lt_trans
  connected h₁ h₂ := by omega

instance : KeyOrder String where
  irrefl := String.lt_irrefl
  trans := String.lt_trans
  connected h₁ h₂ :=
  String.le_antisymm (String.not_lt.1 h₂) (String.not_lt.1 h₁)

/-- A table whose entries are strictly increasing by key. -/
structure SortedMap (κ : Type u) (α : Type v) [LT κ] where
  entries : List (κ × α)
  sorted : entries.Pairwise fun a b => a.1 < b.1

namespace SortedMap

variable {κ : Type u} {α : Type v} [LT κ]

@[ext] theorem ext {m n : SortedMap κ α} (h : m.entries = n.entries) :
    m = n := by
  cases m; cases n; simp_all

instance [DecidableEq κ] [DecidableEq α] :
    DecidableEq (SortedMap κ α) := fun m n =>
  if h : m.entries = n.entries then .isTrue (ext h) else
    .isFalse fun e => h (e ▸ rfl)

/-- The table without entries. -/
def empty : SortedMap κ α := ⟨[], .nil⟩

instance : Inhabited (SortedMap κ α) := ⟨empty⟩

/-- Keys in increasing order. -/
def keys (m : SortedMap κ α) : List κ := m.entries.map (·.1)

/-- Values in the order of their keys. -/
def values (m : SortedMap κ α) : List α := m.entries.map (·.2)

variable [DecidableEq κ]

/-- The value stored under `k` in a list of entries. -/
def lookup (k : κ) : List (κ × α) → Option α
  | [] => none
  | (j, a) :: rest => if j = k then some a else lookup k rest

/-- The value stored under `k`. -/
def get? (m : SortedMap κ α) (k : κ) : Option α := lookup k m.entries

/-- Whether `k` is a key. -/
def contains (m : SortedMap κ α) (k : κ) : Bool := (m.get? k).isSome

@[simp] theorem get?_empty (k : κ) :
    (empty : SortedMap κ α).get? k = none := rfl

omit [LT κ] in
theorem lookup_eq_none {k : κ} {l : List (κ × α)} (h : ∀ e ∈ l, e.1 ≠ k) :
    lookup k l = none := by
  induction l with
  | nil => rfl
  | cons e l ih =>
      obtain ⟨j, a⟩ := e
      simp only [lookup]
      rw [if_neg (h (j, a) (by simp)), ih fun e he => h e (by simp [he])]

/-- Drop the entry of `k`, if there is one. -/
def erase (m : SortedMap κ α) (k : κ) : SortedMap κ α :=
  ⟨m.entries.filter (·.1 ≠ k), m.sorted.filter _⟩

omit [LT κ] in
theorem lookup_filter_ne (k j : κ) (l : List (κ × α)) :
    lookup j (l.filter (·.1 ≠ k)) = if j = k then none else lookup j l := by
  induction l with
  | nil => simp [lookup]
  | cons e l ih =>
      obtain ⟨i, a⟩ := e
      by_cases hi : i = k
      · subst hi
        by_cases hj : j = i
        · simp_all
        · have hij : ¬ i = j := fun e => hj e.symm
          simp_all [lookup]
      · by_cases hj : j = k
        · subst hj; simp_all [lookup]
        · simp_all [lookup]

/-- A removal is seen at its own key only. -/
theorem get?_erase (m : SortedMap κ α) (k j : κ) :
    (m.erase k).get? j = if j = k then none else m.get? j :=
  lookup_filter_ne k j m.entries

variable [DecidableLT κ]

/-- Place an entry in front of the first larger key, replacing an equal key. -/
def place (k : κ) (a : α) : List (κ × α) → List (κ × α)
  | [] => [(k, a)]
  | (j, b) :: rest =>
      if k < j then (k, a) :: (j, b) :: rest
      else if j = k then (k, a) :: rest
      else (j, b) :: place k a rest

theorem mem_place {k : κ} {a : α} {e : κ × α} {l : List (κ × α)}
    (h : e ∈ place k a l) :
    e = (k, a) ∨ e ∈ l := by
  induction l with
  | nil => simpa [place] using h
  | cons d l ih =>
      obtain ⟨j, b⟩ := d
      simp only [place] at h
      split at h
      · simpa using h
      · split at h
        · rcases List.mem_cons.1 h with h | h <;> simp [h]
        · rcases List.mem_cons.1 h with h | h
          · simp [h]
          · rcases ih h with h | h <;> simp [h]

theorem sorted_place [KeyOrder κ] (k : κ) (a : α) {l : List (κ × α)}
    (h : l.Pairwise fun a b => a.1 < b.1) : (place k a l).Pairwise fun a b =>
      a.1 < b.1 := by
  induction l with
  | nil => simp [place]
  | cons d l ih =>
      obtain ⟨j, b⟩ := d
      have hl := List.pairwise_cons.1 h
      simp only [place]
      split
      · next hk =>
        refine List.pairwise_cons.2 ⟨fun e he => ?_, h⟩
        rcases List.mem_cons.1 he with rfl | he
        · exact hk
        · exact KeyOrder.trans hk (hl.1 e he)
      · next hk =>
        split
        · next hj =>
          subst hj
          exact List.pairwise_cons.2 ⟨fun e he => hl.1 e he, hl.2⟩
        · next hj =>
          refine List.pairwise_cons.2 ⟨fun e he => ?_, ih hl.2⟩
          rcases mem_place he with rfl | he
          · exact Decidable.byContradiction fun hlt =>
              hj (KeyOrder.connected hlt hk)
          · exact hl.1 e he

variable [KeyOrder κ]

/-- Write the value of `k`, replacing an earlier one. -/
def insert (m : SortedMap κ α) (k : κ) (a : α) : SortedMap κ α :=
  ⟨place k a m.entries, sorted_place k a m.sorted⟩

omit [KeyOrder κ] in
theorem lookup_place (k j : κ) (a : α) (l : List (κ × α)) :
    lookup j (place k a l) = if j = k then some a else lookup j l := by
  induction l with
  | nil => simp [place, lookup, eq_comm]
  | cons d l ih =>
      obtain ⟨i, b⟩ := d
      simp only [place]
      by_cases h : j = k
      · subst h
        split
        · simp [lookup]
        · split
          · simp [lookup]
          · next hi => simp [lookup, hi, ih]
      · have hkj : ¬ k = j := fun e => h e.symm
        split
        · simp [lookup, hkj]
        · split
          · next hi => subst hi; simp [lookup, hkj]
          · simp [lookup, h, ih]

/-- A write is seen at its own key only. -/
theorem get?_insert (m : SortedMap κ α) (k j : κ) (a : α) :
    (m.insert k a).get? j = if j = k then some a else m.get? j :=
  lookup_place k j a m.entries

@[simp] theorem get?_insert_self (m : SortedMap κ α) (k : κ) (a : α) :
    (m.insert k a).get? k = some a := by
  simp [get?_insert]

theorem get?_insert_ne (m : SortedMap κ α) {k j : κ} (a : α) (h : j ≠ k) :
    (m.insert k a).get? j = m.get? j := by
  simp [get?_insert, h]

/-- Entries written one after the other, later writes winning. -/
def ofList (l : List (κ × α)) : SortedMap κ α :=
  l.foldl (fun m e => m.insert e.1 e.2) empty

theorem ofList_concat (l : List (κ × α)) (e : κ × α) :
    ofList (l ++ [e]) = (ofList l).insert e.1 e.2 := by
  rw [ofList, List.foldl_append]
  rfl

omit [DecidableLT κ] in
theorem lookup_cons_of_lt {k j : κ} {a : α} {l : List (κ × α)} (h : k < j) :
    lookup k ((j, a) :: l) = lookup k l := by
  have : j ≠ k := fun e => KeyOrder.irrefl k (e ▸ h)
  simp [lookup, this]

omit [DecidableLT κ] in
theorem lookup_none_of_lt {k : κ} {l : List (κ × α)} (h : ∀ e ∈ l, k < e.1) :
    lookup k l = none :=
  lookup_eq_none fun e he heq => KeyOrder.irrefl k (by simpa [heq] using h e he)

omit [DecidableLT κ] in
theorem lookup_eq_some_iff {k : κ} {a : α} {l : List (κ × α)}
    (h : l.Pairwise fun a b => a.1 < b.1) :
    lookup k l = some a ↔ (k, a) ∈ l := by
  induction l with
  | nil => simp [lookup]
  | cons d l ih =>
      obtain ⟨j, b⟩ := d
      have hl := List.pairwise_cons.1 h
      by_cases hj : j = k
      · subst hj
        have hnot : (j, a) ∉ l := fun hmem => KeyOrder.irrefl j (hl.1 _ hmem)
        simp [lookup, hnot, eq_comm]
      · have hne : ¬ k = j := fun e => hj e.symm
        simp [lookup, hj, hne, ih hl.2]

omit [DecidableLT κ] in
/-- The entries of a table are its lookups. -/
theorem mem_entries_iff (m : SortedMap κ α) (k : κ) (a : α) :
    (k, a) ∈ m.entries ↔ m.get? k = some a :=
  (lookup_eq_some_iff m.sorted).symm

omit [DecidableLT κ] in
theorem entries_eq_of_lookup {l r : List (κ × α)}
    (hl : l.Pairwise fun a b => a.1 < b.1)
    (hr : r.Pairwise fun a b => a.1 < b.1) (h : ∀ k, lookup k l = lookup k r) :
    l = r := by
  induction l generalizing r with
  | nil =>
      cases r with
      | nil => rfl
      | cons e r => exact absurd (h e.1) (by simp [lookup])
  | cons d l ih =>
      obtain ⟨i, a⟩ := d
      have hl' := List.pairwise_cons.1 hl
      cases r with
      | nil => exact absurd (h i) (by simp [lookup])
      | cons e r =>
          obtain ⟨j, b⟩ := e
          have hr' := List.pairwise_cons.1 hr
          have hij : i = j := by
            refine KeyOrder.connected (fun hlt => ?_) fun hlt => ?_
            · have h₁ := h i
              rw [lookup_cons_of_lt hlt,
                lookup_none_of_lt (l := r) fun e he =>
                  KeyOrder.trans hlt (hr'.1 e he)] at h₁
              simp [lookup] at h₁
            · have h₁ := h j
              rw [lookup_cons_of_lt hlt,
                lookup_none_of_lt (l := l) fun e he =>
                  KeyOrder.trans hlt (hl'.1 e he)] at h₁
              simp [lookup] at h₁
          subst hij
          have hab : a = b := by simpa [lookup] using h i
          subst hab
          refine congrArg _ (ih hl'.2 hr'.2 fun k => ?_)
          by_cases hk : i = k
          · subst hk
            rw [lookup_none_of_lt fun e he => hl'.1 e he,
              lookup_none_of_lt fun e he => hr'.1 e he]
          · simpa [lookup, hk] using h k

omit [DecidableLT κ] in
/-- Tables with equal lookups are equal. -/
theorem ext_get? {m n : SortedMap κ α} (h : ∀ k, m.get? k = n.get? k) : m = n :=
  ext (entries_eq_of_lookup m.sorted n.sorted h)

end SortedMap

end Linkage
